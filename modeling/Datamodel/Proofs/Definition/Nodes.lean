import Datamodel.Definition.Document

/-!
# The nodes of sections that can be left out

Such a section gives a list of nodes, empty where it is left out. What can stand in the list is said
here once, so a property of all nodes of a document is shown without opening these writers again.
-/

namespace Datamodel

open Markup (Node)

theorem elementIf_cons {α : Type} (item : α) (items : List α) (tag : String) (content : List Node) :
    elementIf (!(item :: items).isEmpty) tag content = [.element tag [] content] :=
  rfl

theorem eq_of_mem_elementIf {condition : Bool} {tag : String} {content : List Node} {node : Node}
    (h : node ∈ elementIf condition tag content) : node = .element tag [] content := by
  rw [elementIf] at h
  split at h
  · exact List.mem_singleton.1 h
  · contradiction

theorem exists_of_mem_toList {α : Type} {given : Option α} {node : α → Node} {found : Node}
    (h : found ∈ (given.map node).toList) : ∃ item, item ∈ given.toList ∧ found = node item := by
  rw [Option.toList_map] at h
  obtain ⟨item, hitem, rfl⟩ := List.mem_map.1 h
  exact ⟨item, hitem, rfl⟩

/-- The kind of a field adds its values or its target. -/
theorem FieldKind.eq_of_mem_nodes {kind : FieldKind} {node : Node} (h : node ∈ kind.nodes) :
    (∃ values, kind = .enumeration values ∧
      node = .element "values" [] (values.zipIdx.map fun (value, place) =>
        .leaf (.text "value" [("id", toString place)] (Text.trimmed value)))) ∨
    ∃ target, kind = .externalKey target ∧ node = textNode "target_class" target := by
  cases kind with
  | enumeration values => exact .inl ⟨values, rfl, eq_of_mem_elementIf h⟩
  | externalKey target =>
    rw [FieldKind.nodes] at h
    split at h
    · contradiction
    · exact .inr ⟨target, rfl, List.mem_singleton.1 h⟩
  | string | integer | linkedSet | tagSet | customFields => contradiction

theorem MenuEntry.eq_of_mem_query {menu : MenuEntry} {node : Node}
    (h : node ∈ if menu.hasQuery then [textNode "oql" menu.query] else []) :
    menu.hasQuery = true ∧ node = textNode "oql" menu.query := by
  split at h
  · exact ⟨by assumption, List.mem_singleton.1 h⟩
  · contradiction

theorem ClassDefinition.eq_of_mem_menuNodes {definition : ClassDefinition} {node : Node}
    (h : node ∈ definition.menuNodes) :
    ∃ menu, definition.menu = some menu ∧
      node = .element "menus" [] [menu.node definition.menuId] := by
  unfold menuNodes at h
  split at h
  · contradiction
  · rename_i menu hmenu
    exact ⟨menu, hmenu, List.mem_singleton.1 h⟩

end Datamodel
