import Datamodel.Proofs.Definition.Nodes
import Datamodel.Proofs.Markup.WellFormed

/-!
# The document of a definition is well formed

Every tag of a document is a fixed word but those made of flags, and flags that cannot be tags are
left out. Attributes are named by fixed words as well. So whatever the texts of a definition are,
its document is a well-formed node.
-/

namespace Datamodel

open Markup (Node Leaf Attributes isTagName isAttributeName)

theorem attributes_wellFormed {attributes : Attributes} (names : List String)
    (h : attributes.map (·.1) = names) (hnames : names.all isAttributeName = true)
    (hdistinct : names.Nodup) :
    Attributes.WellFormed attributes := by
  refine ⟨fun named hnamed => ?_, h ▸ hdistinct⟩
  exact List.all_eq_true.1 hnames named.1 (h ▸ List.mem_map_of_mem hnamed)

theorem no_attributes_wellFormed : Attributes.WellFormed [] :=
  attributes_wellFormed [] rfl rfl List.nodup_nil

theorem id_wellFormed (id : String) : Attributes.WellFormed [("id", id)] :=
  attributes_wellFormed ["id"] rfl (by decide) (by decide)

theorem typed_wellFormed (id kind : String) :
    Attributes.WellFormed [("id", id), ("xsi:type", kind)] :=
  attributes_wellFormed ["id", "xsi:type"] rfl (by decide) (by decide)

theorem textNode_wellFormed {tag : String} (htag : isTagName tag = true) (value : String) :
    (textNode tag value).WellFormed :=
  ⟨htag, no_attributes_wellFormed⟩

theorem element_wellFormed {tag : String} {attributes : Attributes} {content : List Node}
    (htag : isTagName tag = true) (hattributes : Attributes.WellFormed attributes)
    (hcontent : ∀ node ∈ content, node.WellFormed) :
    (Node.element tag attributes content).WellFormed :=
  ⟨htag, hattributes, Node.allWellFormed_iff.2 hcontent⟩

theorem elementIf_wellFormed {condition : Bool} {tag : String} {content : List Node}
    (htag : isTagName tag = true) (hcontent : ∀ node ∈ content, node.WellFormed) :
    ∀ node ∈ elementIf condition tag content, node.WellFormed := by
  intro node hnode
  rw [eq_of_mem_elementIf hnode]
  exact element_wellFormed htag no_attributes_wellFormed hcontent

theorem map_wellFormed {α : Type} {items : List α} {node : α → Node}
    (h : ∀ item, (node item).WellFormed) : ∀ entry ∈ items.map node, entry.WellFormed := by
  intro entry hentry
  obtain ⟨item, -, rfl⟩ := List.mem_map.1 hentry
  exact h item

/-! ### Sections of the class -/

def Properties.tags : List String :=
  ["category", "abstract", "key_type", "db_table", "db_key_field", "db_final_class_field",
    "is_link", "naming_format"]

theorem Properties.map_entries (properties : Properties) : properties.entries.map (·.1) = tags :=
  rfl

theorem Properties.node_wellFormed (properties : Properties) : properties.node.WellFormed := by
  refine element_wellFormed (by decide) no_attributes_wellFormed fun node hnode => ?_
  obtain ⟨⟨tag, value⟩, hentry, rfl⟩ := List.mem_map.1 hnode
  have htag : tag ∈ properties.entries.map (·.1) := List.mem_map_of_mem (List.mem_filter.1 hentry).1
  have htags : ∀ tag ∈ tags, isTagName tag = true := by decide
  exact textNode_wellFormed (htags tag htag) value

theorem FieldKind.nodes_wellFormed (kind : FieldKind) : ∀ node ∈ kind.nodes, node.WellFormed := by
  intro node hnode
  obtain ⟨values, -, rfl⟩ | ⟨target, -, rfl⟩ := FieldKind.eq_of_mem_nodes hnode
  · exact element_wellFormed (by decide) no_attributes_wellFormed
      (map_wellFormed fun entry => ⟨by decide, id_wellFormed _⟩)
  · exact textNode_wellFormed (by decide) target

theorem Field.node_wellFormed (field : Field) : field.node.WellFormed := by
  refine element_wellFormed (by decide) (typed_wellFormed _ _) ?_
  rw [List.forall_mem_append]
  refine ⟨?_, field.kind.nodes_wellFormed⟩
  simp only [List.forall_mem_cons]
  exact ⟨textNode_wellFormed (by decide) _, textNode_wellFormed (by decide) _,
    textNode_wellFormed (by decide) _,
    by simp⟩

/-- A flag is a tag, or it is left out. -/
theorem State.node_wellFormed (state : State) : state.node.WellFormed := by
  refine element_wellFormed (by decide) (id_wellFormed _) ?_
  simp only [List.forall_mem_cons]
  refine ⟨element_wellFormed (by decide) no_attributes_wellFormed fun node hnode => ?_,
    textNode_wellFormed (by decide) _, by simp⟩
  obtain ⟨flag, hflag, rfl⟩ := List.mem_map.1 hnode
  exact textNode_wellFormed (List.mem_filter.1 hflag).2 _

theorem Transition.node_wellFormed (transition : Transition) : transition.node.WellFormed := by
  refine element_wellFormed (by decide) (id_wellFormed _) ?_
  simp only [List.forall_mem_cons]
  refine ⟨textNode_wellFormed (by decide) _,
    element_wellFormed (by decide) no_attributes_wellFormed ?_, by simp⟩
  refine map_wellFormed fun verb => element_wellFormed (by decide) no_attributes_wellFormed ?_
  simpa using textNode_wellFormed (by decide) verb

theorem Lifecycle.node_wellFormed (lifecycle : Lifecycle) : lifecycle.node.WellFormed := by
  refine element_wellFormed (by decide) no_attributes_wellFormed ?_
  simp only [List.forall_mem_cons]
  exact ⟨textNode_wellFormed (by decide) _,
    element_wellFormed (by decide) no_attributes_wellFormed (map_wellFormed State.node_wellFormed),
    element_wellFormed (by decide) no_attributes_wellFormed
      (map_wellFormed Transition.node_wellFormed), by simp⟩

theorem Method.node_wellFormed (method : Method) : method.node.WellFormed := by
  refine element_wellFormed (by decide) (id_wellFormed _) ?_
  simp only [List.forall_mem_cons]
  refine ⟨textNode_wellFormed (by decide) _, textNode_wellFormed (by decide) _,
    textNode_wellFormed (by decide) _, ?_,
    by simp⟩
  change isTagName "code" = true
  decide

theorem Index.node_wellFormed (index : Index) : index.node.WellFormed := by
  refine element_wellFormed (by decide) (id_wellFormed _) ?_
  simp only [List.forall_mem_cons]
  refine ⟨element_wellFormed (by decide) no_attributes_wellFormed
    (map_wellFormed fun field => ?_), by simp⟩
  exact ⟨by decide, id_wellFormed field⟩

theorem Relation.node_wellFormed (relation : Relation) : relation.node.WellFormed := by
  refine element_wellFormed (by decide) (id_wellFormed _) ?_
  simp only [List.forall_mem_cons]
  refine ⟨element_wellFormed (by decide) no_attributes_wellFormed ?_, by simp⟩
  simp only [List.forall_mem_cons]
  refine ⟨element_wellFormed (by decide) (id_wellFormed _) ?_, by simp⟩
  simp only [List.forall_mem_cons]
  exact ⟨textNode_wellFormed (by decide) _, textNode_wellFormed (by decide) _, by simp⟩

/-! ### Sections beside the class -/

theorem MenuEntry.node_wellFormed (menu : MenuEntry) (id : String) : (menu.node id).WellFormed := by
  refine element_wellFormed (by decide) (typed_wellFormed _ _) ?_
  rw [List.forall_mem_append]
  simp only [List.forall_mem_cons]
  refine ⟨⟨textNode_wellFormed (by decide) _, textNode_wellFormed (by decide) _, by simp⟩,
    fun node hnode => ?_⟩
  rw [(MenuEntry.eq_of_mem_query hnode).2]
  exact textNode_wellFormed (by decide) menu.query

theorem Profile.node_wellFormed (profile : Profile) (className : String) :
    (profile.node className).WellFormed := by
  refine element_wellFormed (by decide) (id_wellFormed _) ?_
  simp only [List.forall_mem_cons]
  refine ⟨element_wellFormed (by decide) no_attributes_wellFormed ?_, by simp⟩
  simp only [List.forall_mem_cons]
  refine ⟨element_wellFormed (by decide) (id_wellFormed _) ?_, by simp⟩
  simp only [List.forall_mem_cons]
  refine ⟨element_wellFormed (by decide) no_attributes_wellFormed
    (map_wellFormed fun entry => ?_), by simp⟩
  exact ⟨by decide, id_wellFormed _⟩

theorem Branding.node_wellFormed (branding : Branding) : branding.node.WellFormed := by
  refine element_wellFormed (by decide) no_attributes_wellFormed ?_
  simp only [List.forall_mem_cons]
  exact ⟨textNode_wellFormed (by decide) _, textNode_wellFormed (by decide) _,
    textNode_wellFormed (by decide) _,
    by simp⟩

namespace ClassDefinition

theorem classNode_wellFormed (definition : ClassDefinition) : definition.classNode.WellFormed := by
  refine element_wellFormed (by decide) (id_wellFormed _) ?_
  simp only [List.forall_mem_append, List.forall_mem_cons]
  refine ⟨⟨⟨⟨⟨textNode_wellFormed (by decide) _, definition.properties.node_wellFormed,
    ?_, by simp⟩, ?_⟩, ?_⟩, ?_⟩, ?_⟩
  · exact element_wellFormed (by decide) no_attributes_wellFormed
      (map_wellFormed Field.node_wellFormed)
  · intro node hnode
    obtain ⟨lifecycle, -, rfl⟩ := exists_of_mem_toList hnode
    exact lifecycle.node_wellFormed
  · exact elementIf_wellFormed (by decide) (map_wellFormed Method.node_wellFormed)
  · exact elementIf_wellFormed (by decide) (map_wellFormed Index.node_wellFormed)
  · exact elementIf_wellFormed (by decide) (map_wellFormed Relation.node_wellFormed)

/-- The document of any definition is well formed. -/
theorem rootNode_wellFormed (definition : ClassDefinition) : definition.rootNode.WellFormed := by
  refine element_wellFormed (by decide)
    (attributes_wellFormed ["xmlns:xsi", "version"] rfl (by decide) (by decide)) ?_
  simp only [List.forall_mem_append, List.forall_mem_cons]
  refine ⟨⟨⟨⟨?_, by simp⟩, ?_⟩, ?_⟩, ?_⟩
  · refine element_wellFormed (by decide) no_attributes_wellFormed ?_
    simpa using definition.classNode_wellFormed
  · intro node hnode
    obtain ⟨menu, -, rfl⟩ := eq_of_mem_menuNodes hnode
    refine element_wellFormed (by decide) no_attributes_wellFormed ?_
    simpa using menu.node_wellFormed definition.menuId
  · refine elementIf_wellFormed (by decide) ?_
    simpa using element_wellFormed (by decide) no_attributes_wellFormed
      (map_wellFormed fun profile => Profile.node_wellFormed profile definition.name)
  · intro node hnode
    obtain ⟨branding, -, rfl⟩ := exists_of_mem_toList hnode
    exact branding.node_wellFormed

end ClassDefinition

end Datamodel
