import Datamodel.Proofs.Markup.Tree
import Datamodel.Proofs.Markup.Unambiguous
import Mathlib.Data.List.Infix

/-!
# Places in a document

A path of tags leads from a node to nodes inside it, in document order. A node that a path leads to
is written out inside the node the path starts from, as deep as the path is long.
-/

namespace Datamodel.Markup.Node

def attributes : Node → Attributes
  | .leaf (.text _ attributes _) => attributes
  | .leaf (.literal _ _) => []
  | .leaf (.empty _ attributes) => attributes
  | .element _ attributes _ => attributes

def content : Node → List Node
  | .leaf _ => []
  | .element _ _ content => content

def tagged (nodes : List Node) (tag : String) : List Node :=
  nodes.filter (·.tag = tag)

/-- The nodes that a path leads to. -/
def reach : List String → Node → List Node
  | [], node => [node]
  | tag :: path, node => (tagged node.content tag).flatMap (reach path)

/-! ### What a node holds is written inside it -/

theorem render_infix_renderAll {node : Node} {nodes : List Node} (h : node ∈ nodes) (style : Style)
    (depth : Nat) : node.render style depth <:+: renderAll style depth nodes := by
  obtain ⟨front, back, rfl⟩ := List.append_of_mem h
  refine ⟨renderAll style depth front, renderAll style depth back, ?_⟩
  rw [renderAll_append, renderAll, List.append_assoc]

theorem render_infix_of_mem_content {node inner : Node} (h : inner ∈ node.content) (style : Style)
    (depth : Nat) : inner.render style (depth + 1) <:+: node.render style depth := by
  cases node with
  | leaf row => contradiction
  | element tag attributes nodes =>
    have hinner : inner ∈ nodes := h
    obtain ⟨front, back, hlines⟩ := render_infix_renderAll hinner style (depth + 1)
    refine ⟨style.line depth (style.startTag tag attributes) ++ front,
      back ++ style.line depth (Style.endTag tag), ?_⟩
    rw [render, ← hlines]
    simp only [List.append_assoc]

theorem render_infix_of_mem_reach {path : List String} {node found : Node}
    (h : found ∈ node.reach path) (style : Style) (depth : Nat) :
    found.render style (depth + path.length) <:+: node.render style depth := by
  induction path generalizing node depth with
  | nil =>
    obtain rfl := List.mem_singleton.1 h
    exact List.infix_refl _
  | cons tag path ih =>
    obtain ⟨inner, hinner, hfound⟩ := List.mem_flatMap.1 h
    have hinside := render_infix_of_mem_content (List.mem_of_mem_filter hinner) style depth
    have hfurther := ih hfound (depth + 1)
    rw [Nat.add_right_comm] at hfurther
    exact hfurther.trans hinside

/-! ### What a reader finds on a path -/

theorem name_toElement (node : Node) : node.toElement.name = node.tag := by
  cases node with
  | leaf row => cases row <;> rfl
  | element tag attributes content => rfl

theorem withName_toElement (nodes : List Node) (name : String) :
    Xml.Element.withName (nodes.map toElement) name = (tagged nodes name).map toElement := by
  rw [Xml.Element.withName, tagged, List.filter_map]
  simp only [Function.comp_def, name_toElement, beq_eq_decide]

/-- A path leads to the same parts before a node is written and after it is read. -/
theorem select_toElement (path : List String) (node : Node) :
    node.toElement.select path = (node.reach path).map toElement := by
  induction path generalizing node with
  | nil => rfl
  | cons name path ih =>
    cases node with
    | leaf row =>
      have hnone : row.toElement.named name = [] := by
        cases row <;> rfl
      rw [toElement, Xml.Element.select_cons, hnone]
      rfl
    | element tag attributes content =>
      rw [toElement, Xml.Element.select_ofContent, toElements_eq_map, withName_toElement, reach,
        List.flatMap_map, List.map_flatMap]
      exact List.flatMap_congr fun inner _ => ih inner

/-! ### Following a path -/

section paths

variable {tag name : String} {path : List String} {nodes : List Node}

@[simp] theorem reach_nil (node : Node) : node.reach [] = [node] :=
  rfl

@[simp] theorem reach_element (attributes : Attributes) :
    (Node.element tag attributes nodes).reach (name :: path) =
      (tagged nodes name).flatMap (reach path) :=
  rfl

@[simp] theorem tag_leaf (row : Leaf) : (Node.leaf row).tag = row.tag :=
  rfl

@[simp] theorem tag_element (attributes : Attributes) :
    (Node.element tag attributes nodes).tag = tag :=
  rfl

@[simp] theorem flatMap_reach_nil : nodes.flatMap (reach []) = nodes :=
  List.flatMap_singleton' nodes

@[simp] theorem tagged_nil : tagged [] name = [] :=
  rfl

@[simp] theorem tagged_cons (node : Node) :
    tagged (node :: nodes) name =
      if node.tag = name then node :: tagged nodes name else tagged nodes name := by
  rw [tagged, List.filter_cons]
  simp [tagged]

@[simp] theorem tagged_append (front back : List Node) :
    tagged (front ++ back) name = tagged front name ++ tagged back name :=
  List.filter_append front back

theorem tagged_of_tag (h : ∀ node ∈ nodes, node.tag = tag) :
    tagged nodes name = if tag = name then nodes else [] := by
  rw [tagged]
  split
  · rename_i hname
    exact List.filter_eq_self.2 fun node hnode => by simp [h node hnode, hname]
  · rename_i hname
    exact List.filter_eq_nil_iff.2 fun node hnode => by simp [h node hnode, hname]

section kinds

variable {α : Type} {node : α → Node}

/-- A way to write items as nodes, all with one tag. -/
class HasTag (node : α → Node) (tag : outParam String) : Prop where
  tag_eq : ∀ item, (node item).tag = tag

instance (attributes : α → Attributes) (content : α → List Node) :
    HasTag (fun item => .element tag (attributes item) (content item)) tag :=
  ⟨fun _ => rfl⟩

instance (attributes : α → Attributes) :
    HasTag (fun item => .leaf (.empty tag (attributes item))) tag :=
  ⟨fun _ => rfl⟩

variable [HasTag node tag]

@[simp] theorem tagged_map (items : List α) :
    tagged (items.map node) name = if tag = name then items.map node else [] :=
  tagged_of_tag (List.forall_mem_map.2 fun item _ => HasTag.tag_eq item)

theorem tag_toList {given : Option α} : ∀ found ∈ (given.map node).toList, found.tag = tag := by
  rw [Option.toList_map]
  exact List.forall_mem_map.2 fun item _ => HasTag.tag_eq item

@[simp] theorem tagged_toList (given : Option α) :
    tagged (given.map node).toList name = if tag = name then (given.map node).toList else [] :=
  tagged_of_tag tag_toList

end kinds

theorem mem_tagged {node : Node} : node ∈ tagged nodes name ↔ node ∈ nodes ∧ node.tag = name := by
  rw [tagged, List.mem_filter, decide_eq_true_iff]

end paths

end Datamodel.Markup.Node
