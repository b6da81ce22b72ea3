import Datamodel.Proofs.Definition.Nodes
import Datamodel.Proofs.Markup.Place

/-!
# Where the sections of a definition stand

Each section of a document has a tag of its own, so a path leads to the nodes of one section and to
nothing else.
-/

namespace Datamodel

open Markup (Node)
open Markup.Node (tagged reach)

/-! ### Tags -/

@[simp] theorem tag_textNode (tag value : String) : (textNode tag value).tag = tag :=
  rfl

@[simp] theorem Properties.tag_node (properties : Properties) :
    properties.node.tag = "properties" :=
  rfl

@[simp] theorem ClassDefinition.tag_classNode (definition : ClassDefinition) :
    definition.classNode.tag = "class" :=
  rfl

theorem tag_elementIf {condition : Bool} {tag : String} {content : List Node} :
    ∀ node ∈ elementIf condition tag content, node.tag = tag := by
  intro node hnode
  rw [eq_of_mem_elementIf hnode]
  rfl

theorem ClassDefinition.tag_menuNodes {definition : ClassDefinition} :
    ∀ node ∈ definition.menuNodes, node.tag = "menus" := by
  intro node hnode
  obtain ⟨menu, -, rfl⟩ := eq_of_mem_menuNodes hnode
  rfl

/-! ### Nodes of one tag -/

section tagged

variable {α : Type} {tag name : String} {path : List String}

@[simp] theorem tagged_elementIf (condition : Bool) (content : List Node) :
    tagged (elementIf condition tag content) name =
      if tag = name then elementIf condition tag content else [] :=
  Node.tagged_of_tag tag_elementIf

@[simp] theorem tagged_query (menu : MenuEntry) :
    tagged (if menu.hasQuery then [textNode "oql" menu.query] else []) name =
      if "oql" = name then if menu.hasQuery then [textNode "oql" menu.query] else [] else [] := by
  refine Node.tagged_of_tag fun node hnode => ?_
  rw [(MenuEntry.eq_of_mem_query hnode).2, tag_textNode]

@[simp] theorem ClassDefinition.tagged_menuNodes (definition : ClassDefinition) :
    tagged definition.menuNodes name = if "menus" = name then definition.menuNodes else [] :=
  Node.tagged_of_tag tag_menuNodes

@[simp] theorem ClassDefinition.tagged_profileNodes (definition : ClassDefinition) :
    tagged definition.profileNodes name =
      if "user_rights" = name then definition.profileNodes else [] :=
  Node.tagged_of_tag tag_elementIf

/-- A section without entries is left out, and there is nothing to reach in it either way. -/
@[simp] theorem reach_elementIf (items : List α) (node : α → Node) :
    (elementIf (!items.isEmpty) tag (items.map node)).flatMap (reach (name :: path)) =
      (tagged (items.map node) name).flatMap (reach path) := by
  cases items with
  | nil => rfl
  | cons item items => rw [elementIf_cons, List.flatMap_singleton, Node.reach_element]

instance : Node.HasTag Field.node "field" := ⟨fun _ => rfl⟩

instance : Node.HasTag State.node "state" := ⟨fun _ => rfl⟩

instance : Node.HasTag Transition.node "transition" := ⟨fun _ => rfl⟩

instance : Node.HasTag Lifecycle.node "lifecycle" := ⟨fun _ => rfl⟩

instance : Node.HasTag Method.node "method" := ⟨fun _ => rfl⟩

instance : Node.HasTag Index.node "index" := ⟨fun _ => rfl⟩

instance : Node.HasTag Relation.node "relation" := ⟨fun _ => rfl⟩

instance (className : String) : Node.HasTag (Profile.node · className) "profile" := ⟨fun _ => rfl⟩

instance : Node.HasTag Branding.node "branding" := ⟨fun _ => rfl⟩

end tagged

/-! ### Sections -/

theorem FieldKind.tagged_nodes {name : String} (kind : FieldKind) (hvalues : name ≠ "values")
    (htarget : name ≠ "target_class") : tagged kind.nodes name = [] := by
  refine List.filter_eq_nil_iff.2 fun node hnode htag => ?_
  obtain ⟨values, -, rfl⟩ | ⟨target, -, rfl⟩ := FieldKind.eq_of_mem_nodes hnode
  · exact hvalues (of_decide_eq_true htag).symm
  · exact htarget (of_decide_eq_true htag).symm

/-- An entry that is written under its key is found under it. -/
theorem mem_tagged_entries {α : Type} {entries : List (String × α)} {entry : String × α}
    (text : α → String) (h : entry ∈ entries) :
    textNode entry.1 (text entry.2) ∈ tagged (entries.map fun entry =>
      textNode entry.1 (text entry.2)) entry.1 :=
  Node.mem_tagged.2 ⟨List.mem_map_of_mem h, rfl⟩

namespace ClassDefinition

variable (definition : ClassDefinition) (path : List String)

theorem reach_class :
    definition.rootNode.reach ("classes" :: "class" :: path) = definition.classNode.reach path := by
  simp [rootNode]

theorem reach_fields :
    definition.classNode.reach ["fields", "field"] = definition.fields.map Field.node := by
  simp [classNode]

theorem reach_lifecycle :
    definition.classNode.reach ["lifecycle"] =
      (definition.activeLifecycle.map Lifecycle.node).toList := by
  simp [classNode]

theorem reach_methods :
    definition.classNode.reach ["methods", "method"] = definition.methods.map Method.node := by
  simp [classNode]

theorem reach_indexes :
    definition.classNode.reach ["indexes", "index"] = definition.indexes.map Index.node := by
  simp [classNode]

theorem reach_relations :
    definition.classNode.reach ["relations", "relation"] =
      definition.relations.map Relation.node := by
  simp [classNode]

theorem reach_menu : definition.rootNode.reach ["menus", "menu"] =
    definition.menu.toList.map (·.node definition.menuId) := by
  have hmenus : definition.rootNode.reach ["menus", "menu"] =
      definition.menuNodes.flatMap (reach ["menu"]) := by
    simp [rootNode]
  rw [hmenus, menuNodes]
  cases definition.menu with
  | none => rfl
  | some menu => rfl

theorem reach_profiles : definition.rootNode.reach ["user_rights", "profiles", "profile"] =
    definition.profiles.map (·.node definition.name) := by
  have hrights : definition.rootNode.reach ["user_rights", "profiles", "profile"] =
      definition.profileNodes.flatMap (reach ["profiles", "profile"]) := by
    simp [rootNode]
  rw [hrights, profileNodes]
  cases hall : definition.profiles with
  | nil => rfl
  | cons profile profiles =>
    rw [elementIf_cons, List.flatMap_singleton, ← hall]
    simp

theorem reach_branding : definition.rootNode.reach ("branding" :: path) =
    (definition.activeBranding.map Branding.node).toList.flatMap (reach path) := by
  simp [rootNode]

end ClassDefinition

end Datamodel
