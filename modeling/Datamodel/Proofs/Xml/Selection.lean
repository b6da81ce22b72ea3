import Datamodel.Proofs.Xml.Reading
import Mathlib

/-!
# Which elements a path selects

Groups show the children of an element by name, so the order between children of different names is
gone, and an element cannot be found at a place. In the tree that a document denotes it can: an
address chooses one child after the other by its number, and addresses in the order of their numbers
are in document order. What a path selects is what the addresses with the names of the path lead to,
each address once and in that order.
-/

namespace Datamodel.Xml

namespace Tree

def name : Tree → String
  | .node name _ _ _ => name

def children : Tree → List Tree
  | .node _ _ _ children => children

/-- Where an address leads, and the names of the children it chooses on the way. -/
inductive Reaches : Tree → List Nat → List String → Tree → Prop where
  | here (tree : Tree) : Reaches tree [] [] tree
  | child {tree child node : Tree} {i : Nat} {address : List Nat} {path : List String}
      (hchild : tree.children[i]? = some child) (hnode : Reaches child address path node) :
      Reaches tree (i :: address) (child.name :: path) node

theorem Reaches.append_child {tree node child : Tree} {address : List Nat}
    {path : List String} {i : Nat} (h : Reaches tree address path node)
    (hchild : node.children[i]? = some child) :
    Reaches tree (address ++ [i]) (path ++ [child.name]) child := by
  induction h with
  | here => exact .child hchild (.here child)
  | child hfirst _ ih => exact .child hfirst (ih hchild)

theorem name_toElement (tree : Tree) : tree.toElement.name = tree.name := by
  cases tree
  rfl

theorem children_toElement (tree : Tree) :
    tree.toElement.children = Element.grouped (tree.children.map toElement) := by
  cases tree
  rw [toElement, toElements_eq_map, children]

end Tree

namespace Element

/-- How an element shows its children, given in document order. -/
structure Groups (element : Element) (content : List Element) : Prop where
  distinct : (element.children.map (·.1)).Nodup
  /-- There is a group for each name among the children. -/
  known : ∀ name, name ∈ element.children.map (·.1) ↔ ∃ child ∈ content, child.name = name
  /-- A group comes first where the first child of its name does. -/
  ordered : (element.children.map (·.1)).Pairwise fun name later =>
    (content.map (·.name)).idxOf name < (content.map (·.name)).idxOf later
  alike : ∀ group ∈ element.children, ∀ member ∈ group.2.toList, member.name = group.1
  one : ∀ group ∈ element.children, (∃ member, group.2 = .one member) ↔ group.2.toList.length = 1
  many : ∀ group ∈ element.children, (∃ members, group.2 = .many members) ↔
    2 ≤ group.2.toList.length
  /-- The groups hold every child once. -/
  once : (element.children.flatMap (·.2.toList)).Perm content
  named : ∀ name, element.named name = content.filter (·.name == name)

/-- The elements of a tree: its root and the members of the groups of its elements. -/
inductive Holds (root : Element) : Element → Prop where
  | root : Holds root root
  | member {element member : Element} {group : String × Siblings Element}
      (helement : Holds root element)
      (hgroup : group ∈ element.children) (hmember : member ∈ group.2.toList) : Holds root member

theorem Holds.trans {root element other : Element} (h : root.Holds element)
    (hother : element.Holds other) :
    root.Holds other := by
  induction hother with
  | root => exact h
  | member _ hgroup hmember ih => exact .member ih hgroup hmember

/-! ### What the groups hold -/

variable {elements : List Element}

theorem eq_of_mem_grouped {group : String × Siblings Element} (h : group ∈ grouped elements) :
    group.1 ∈ names elements ∧ group.2 = .ofList (withName elements group.1) := by
  obtain ⟨name, hname, rfl⟩ := List.mem_map.1 h
  exact ⟨hname, rfl⟩

theorem ordered_names (elements : List Element) :
    (names elements).Pairwise fun name later =>
      (elements.map (·.name)).idxOf name < (elements.map (·.name)).idxOf later := by
  induction elements using List.reverseRecOn with
  | nil => exact .nil
  | append_singleton elements child ih =>
    have hknown : ∀ name ∈ names elements,
        ((elements ++ [child]).map (·.name)).idxOf name = (elements.map (·.name)).idxOf name := by
      intro name hname
      rw [names, List.mem_eraseDups] at hname
      rw [List.map_append, List.idxOf_append_of_mem hname]
    have hkept := ih.imp_of_mem fun {name later} hname hlater hlt => by
      rwa [← hknown name hname, ← hknown later hlater] at hlt
    by_cases h : child.name ∈ names elements
    · rwa [names_concat_of_mem h]
    · rw [names_concat_of_not_mem h, List.pairwise_append]
      refine ⟨hkept, List.pairwise_singleton _ _, ?_⟩
      intro name hname later hlater
      obtain rfl := List.mem_singleton.1 hlater
      rw [hknown name hname]
      rw [names, List.mem_eraseDups] at hname h
      rw [List.map_append, List.idxOf_append_of_notMem h]
      have hinside := List.idxOf_lt_length_of_mem hname
      omega

theorem flatMap_withName_perm (elements : List Element) {known : List String}
    (hdistinct : known.Nodup) :
    (known.flatMap (withName elements)).Perm (elements.filter (·.name ∈ known)) := by
  induction known with
  | nil => simp
  | cons name known ih =>
    obtain ⟨hnew, hdistinct⟩ := List.nodup_cons.1 hdistinct
    have hsplit := List.filter_append_perm (·.name == name)
      (elements.filter (·.name ∈ name :: known))
    have hfirst : (elements.filter (·.name ∈ name :: known)).filter (·.name == name) =
        withName elements name := by
      rw [List.filter_filter, withName]
      apply List.filter_congr
      intro element _
      by_cases hname : element.name = name
      · simp [hname]
      · simp [hname]
    have hrest : (elements.filter (·.name ∈ name :: known)).filter (fun element =>
        !(element.name == name)) = elements.filter (·.name ∈ known) := by
      rw [List.filter_filter]
      apply List.filter_congr
      intro element _
      by_cases hname : element.name = name
      · simp [hname, hnew]
      · simp [hname]
    rw [hfirst, hrest] at hsplit
    rw [List.flatMap_cons]
    exact ((ih hdistinct).append_left _).trans hsplit

theorem flatMap_grouped_perm (elements : List Element) :
    ((grouped elements).flatMap (·.2.toList)).Perm elements := by
  have hmembers : (grouped elements).flatMap (·.2.toList) =
      (names elements).flatMap (withName elements) := by
    rw [grouped, List.flatMap_map]
    simp only [Siblings.toList_ofList]
  have hall : elements.filter (·.name ∈ names elements) = elements := by
    apply List.filter_eq_self.2
    intro element helement
    exact decide_eq_true (mem_names.2 ⟨element, helement, rfl⟩)
  have hperm := flatMap_withName_perm elements (nodup_names elements)
  rwa [hall, ← hmembers] at hperm

theorem mem_grouped {member : Element} :
    (∃ group ∈ grouped elements, member ∈ group.2.toList) ↔ member ∈ elements := by
  rw [← List.mem_flatMap]
  exact (flatMap_grouped_perm elements).mem_iff

/-- Children by name show the children. -/
theorem groups_of_grouped {element : Element} (h : element.children = grouped elements) :
    element.Groups elements where
  distinct := by
    rw [h, map_fst_grouped]
    exact nodup_names elements
  known name := by
    rw [h, map_fst_grouped]
    exact mem_names
  ordered := by
    rw [h, map_fst_grouped]
    exact ordered_names elements
  alike group hgroup member hmember := by
    rw [h] at hgroup
    rw [(eq_of_mem_grouped hgroup).2, Siblings.toList_ofList] at hmember
    simpa using (List.mem_filter.1 hmember).2
  one group hgroup := by
    rw [h] at hgroup
    rw [(eq_of_mem_grouped hgroup).2, Siblings.toList_ofList]
    exact Siblings.exists_one_iff
  many group hgroup := by
    rw [h] at hgroup
    obtain ⟨hname, hgroup⟩ := eq_of_mem_grouped hgroup
    rw [hgroup, Siblings.toList_ofList]
    exact Siblings.exists_many_iff (withName_ne_nil hname)
  once := by
    rw [h]
    exact flatMap_grouped_perm elements
  named := named_of_grouped h

end Element

namespace Tree

/-- The elements of a tree are those that its addresses lead to. -/
theorem holds_toElement_iff {document : Tree} {element : Element} :
    document.toElement.Holds element ↔
      ∃ address path node, document.Reaches address path node ∧ node.toElement = element := by
  constructor
  · intro h
    induction h with
    | root => exact ⟨[], [], document, .here document, rfl⟩
    | member _ hgroup hmember ih =>
      obtain ⟨address, path, node, hnode, rfl⟩ := ih
      rw [children_toElement] at hgroup
      have hcontent := Element.mem_grouped.1 ⟨_, hgroup, hmember⟩
      obtain ⟨child, hchild, hmember⟩ := List.mem_map.1 hcontent
      obtain ⟨i, hi⟩ := List.mem_iff_getElem?.1 hchild
      exact ⟨address ++ [i], path ++ [child.name], child, hnode.append_child hi, hmember⟩
  · rintro ⟨address, path, node, hnode, rfl⟩
    induction hnode with
    | here => exact .root
    | @child tree child node i address path hchild _ ih =>
      have hcontent : child.toElement ∈ tree.children.map toElement :=
        List.mem_map_of_mem (List.mem_of_getElem? hchild)
      obtain ⟨group, hgroup, hmember⟩ := Element.mem_grouped.2 hcontent
      rw [← children_toElement] at hgroup
      exact (Element.Holds.member .root hgroup hmember).trans ih

/-! ### Following a path -/

/-- What the addresses with the names of a path lead to, in document order. -/
def found : List String → Tree → List (List Nat × Tree)
  | [], tree => [([], tree)]
  | name :: path, tree =>
    tree.children.zipIdx.flatMap fun (child, i) =>
      if child.name = name then (found path child).map fun one => (i :: one.1, one.2) else []

theorem mem_found {path : List String} {tree node : Tree} {address : List Nat} :
    (address, node) ∈ found path tree ↔ tree.Reaches address path node := by
  induction path generalizing tree address with
  | nil =>
    rw [found, List.mem_singleton]
    constructor
    · intro h
      obtain ⟨rfl, rfl⟩ := Prod.mk.inj h
      exact .here node
    · intro h
      cases h
      rfl
  | cons name path ih =>
    rw [found, List.mem_flatMap]
    constructor
    · rintro ⟨⟨child, i⟩, hchild, hfound⟩
      dsimp only at hfound
      split at hfound
      · rename_i hname
        obtain ⟨⟨inner, _⟩, hinner, heq⟩ := List.mem_map.1 hfound
        obtain ⟨rfl, rfl⟩ := Prod.mk.inj heq
        rw [← hname]
        exact .child (List.mem_zipIdx_iff_getElem?.1 hchild) (ih.1 hinner)
      · contradiction
    · intro h
      cases h with
      | child hchild hnode =>
        rename_i child i inner
        refine ⟨(child, i), List.mem_zipIdx_iff_getElem?.2 hchild, ?_⟩
        dsimp only
        rw [if_pos rfl]
        exact List.mem_map.2 ⟨(inner, node), ih.2 hnode, rfl⟩

theorem ordered_found (path : List String) (tree : Tree) :
    (found path tree).Pairwise fun one other => one.1 < other.1 := by
  induction path generalizing tree with
  | nil => exact List.pairwise_singleton _ _
  | cons name path ih =>
    rw [found, List.pairwise_flatMap]
    constructor
    · rintro ⟨child, i⟩ _
      dsimp only
      split
      · rw [List.pairwise_map]
        exact (ih child).imp fun hlt => List.cons_lt_cons_iff.2 (.inr ⟨rfl, hlt⟩)
      · exact .nil
    · have hnumbers : (tree.children.zipIdx.map Prod.snd).Pairwise (· < ·) := by
        rw [List.zipIdx_map_snd]
        exact List.pairwise_lt_range'
      rw [List.pairwise_map] at hnumbers
      refine hnumbers.imp ?_
      rintro ⟨child, i⟩ ⟨other, j⟩ hlt one hone later hlater
      dsimp only at hone hlater hlt
      split at hone
      · split at hlater
        · obtain ⟨⟨inner, _⟩, _, rfl⟩ := List.mem_map.1 hone
          obtain ⟨⟨inner', _⟩, _, rfl⟩ := List.mem_map.1 hlater
          exact List.cons_lt_cons_iff.2 (.inl hlt)
        · contradiction
      · contradiction

theorem select_toElement (path : List String) (tree : Tree) :
    tree.toElement.select path = (found path tree).map fun one => one.2.toElement := by
  induction path generalizing tree with
  | nil => rfl
  | cons name path ih =>
    have hnumbered : (found (name :: path) tree).map (fun one => one.2.toElement) =
        tree.children.zipIdx.flatMap fun one =>
          if one.1.name = name then one.1.toElement.select path else [] := by
      rw [found, List.map_flatMap]
      congr 1
      funext one
      dsimp only
      split
      · rw [ih, List.map_map]
        rfl
      · rfl
    have hchildren : (tree.children.zipIdx.flatMap fun one =>
          if one.1.name = name then one.1.toElement.select path else []) =
        tree.children.flatMap fun child => if child.name = name then child.toElement.select path
          else [] := by
      conv_rhs => rw [← List.zipIdx_map_fst 0 tree.children, List.flatMap_map]
    rw [hnumbered, hchildren, Element.select_cons,
      Element.named_of_grouped (children_toElement tree), Element.flatMap_withName,
      List.flatMap_map]
    simp only [name_toElement]

end Tree

/-! ### Groups and paths of a document -/

/-- What the groups of a root and its paths show of the document it stands for. -/
structure Element.Shows (root : Element) (document : Tree) : Prop where
  /-- The elements below the root are those of the document. -/
  holds : ∀ element, root.Holds element ↔
    ∃ address path node, document.Reaches address path node ∧ node.toElement = element
  groups : ∀ address path node, document.Reaches address path node →
    node.toElement.Groups (node.children.map Tree.toElement)
  /-- A path selects what stands under its names, in document order and once. -/
  selects : ∀ path, ∃ found : List (List Nat × Tree),
    (found.Pairwise fun one other => one.1 < other.1) ∧
      (∀ address node, (address, node) ∈ found ↔ document.Reaches address path node) ∧
      root.select path = found.map fun one => one.2.toElement

theorem Tree.shows (document : Tree) : document.toElement.Shows document where
  holds _ := holds_toElement_iff
  groups _ _ node _ := Element.groups_of_grouped (children_toElement node)
  selects path := by
    refine ⟨found path document, ordered_found path document, ?_, select_toElement path document⟩
    intro address node
    exact mem_found

/-- In a text that is read, groups keep every element once, and paths select in document order. -/
theorem shows_of_parse {source : List Char} {root : Element} (h : parse source = .ok root) :
    ∃ document, Denotes source document ∧ document.toElement = root ∧ root.Shows document := by
  obtain ⟨document, hdenotes, rfl⟩ := outlines_of_parse h
  exact ⟨document, hdenotes, rfl, document.shows⟩

/-- A text where a child of another name, with a namesake inside, comes between two of one name. -/
def interleaved : List Char :=
  "<r><a>1</a><b><a/></b><a>2</a></r>".toList

theorem shows_of_parse_interleaved :
    ∃ root, parse interleaved = .ok root ∧ root.children.map (·.1) = ["a", "b"] ∧
      (root.select ["a"]).map (·.text) = ["1", "2"] ∧
      ∃ document, Denotes interleaved document ∧ document.toElement = root ∧
        root.Shows document := by
  have hparse : ∃ root, parse interleaved = .ok root ∧ root.children.map (·.1) = ["a", "b"] ∧
      (root.select ["a"]).map (·.text) = ["1", "2"] := ⟨_, by cbv, by cbv, by cbv⟩
  obtain ⟨root, hroot, hnames, htexts⟩ := hparse
  exact ⟨root, hroot, hnames, htexts, shows_of_parse hroot⟩

end Datamodel.Xml
