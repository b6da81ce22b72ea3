import Datamodel.Proofs.Definition.Tree

/-!
# Definitions up to what a document shows

A document does not show everything of a definition: a column that is named like its field, white
space around the values of an enumeration, a lifecycle without a driver, flags that are no tags, the
query of a menu that has no use for one, a branding without values. The normal form settles exactly
these, and it has the same document.
-/

namespace Datamodel

open Markup (Node)

/-! ### Normal forms -/

def FieldKind.normal : FieldKind → FieldKind
  | .enumeration values => .enumeration (values.map Text.trimmed)
  | kind => kind

/-- The field with its column named and its values trimmed. -/
def Field.normal (field : Field) : Field :=
  { field with kind := field.kind.normal, sql := some field.column }

/-- The state with the flags that are tags. -/
def State.normal (state : State) : State :=
  { state with flags := state.flags.filter (Markup.isTagName ·.1) }

def Lifecycle.normal (lifecycle : Lifecycle) : Lifecycle :=
  { lifecycle with states := lifecycle.states.map State.normal }

/-- The menu entry without a query that is not used. -/
def MenuEntry.normal (menu : MenuEntry) : MenuEntry :=
  { menu with query := if menu.kind = .query then menu.query else "" }

/-- The definition without what its document does not show. -/
def ClassDefinition.normal (definition : ClassDefinition) : ClassDefinition :=
  { definition with
    fields := definition.fields.map Field.normal
    lifecycle := (definition.lifecycle.filter (·.driver ≠ "")).map Lifecycle.normal
    menu := definition.menu.map MenuEntry.normal
    branding := definition.branding.filter fun branding =>
      branding.logo ≠ "" ∨ branding.mainColor ≠ "" ∨ branding.complementaryColor ≠ "" }

/-! ### The normal form has the same document -/

theorem trimmed_trimmed (value : String) :
    Text.trimmed (Text.trimmed value) = Text.trimmed value := by
  rw [Text.trimmed, Text.trimmed, String.toList_ofList]
  exact congrArg String.ofList (trim_ends (fun _ h => h) value.toList)

theorem FieldKind.nodes_normal (kind : FieldKind) : kind.normal.nodes = kind.nodes := by
  cases kind with
  | enumeration values =>
    rw [normal, nodes, nodes, List.isEmpty_map, List.zipIdx_map, List.map_map]
    refine congrArg (elementIf (!values.isEmpty) "values") (List.map_congr_left fun entry _ => ?_)
    exact congrArg (fun value => Node.leaf (.text "value" [("id", toString entry.2)] value))
      (trimmed_trimmed entry.1)
  | string | integer | externalKey | linkedSet | tagSet | customFields => rfl

theorem FieldKind.type_normal (kind : FieldKind) : kind.normal.type = kind.type := by
  cases kind with
  | string | integer | enumeration | externalKey | linkedSet | tagSet | customFields => rfl

theorem Field.node_normal (field : Field) : field.normal.node = field.node := by
  have htype : field.normal.type = field.type := field.kind.type_normal
  have hkind : field.normal.kind.nodes = field.kind.nodes := field.kind.nodes_normal
  rw [node, node, htype, hkind]
  rfl

theorem State.node_normal (state : State) : state.normal.node = state.node := by
  rw [node, node, normal]
  simp only [List.filter_filter, Bool.and_self]

theorem Lifecycle.node_normal (lifecycle : Lifecycle) : lifecycle.normal.node = lifecycle.node := by
  have hstates : lifecycle.normal.states.map State.node = lifecycle.states.map State.node := by
    rw [normal, List.map_map]
    exact List.map_congr_left fun state _ => state.node_normal
  rw [node, node, hstates]
  rfl

theorem MenuEntry.node_normal (menu : MenuEntry) (id : String) :
    menu.normal.node id = menu.node id := by
  rw [node, node, normal, hasQuery, hasQuery]
  by_cases h : menu.kind = .query
  · simp [h]
  · simp [h]

namespace ClassDefinition

theorem map_node_activeLifecycle_normal (definition : ClassDefinition) :
    definition.normal.activeLifecycle.map Lifecycle.node =
      definition.activeLifecycle.map Lifecycle.node := by
  have hnode : Lifecycle.node ∘ Lifecycle.normal = Lifecycle.node := funext Lifecycle.node_normal
  have hdriver : (fun lifecycle : Lifecycle => decide (lifecycle.driver ≠ "")) ∘ Lifecycle.normal =
      fun lifecycle => decide (lifecycle.driver ≠ "") := rfl
  rw [activeLifecycle_eq, activeLifecycle_eq, normal, Option.filter_map, hdriver,
    Option.filter_filter, Option.map_map, hnode]
  simp only [Bool.and_self]

theorem activeBranding_normal (definition : ClassDefinition) :
    definition.normal.activeBranding = definition.activeBranding := by
  rw [activeBranding_eq, activeBranding_eq, normal, Option.filter_filter]
  simp only [Bool.and_self]

/-- The normal form of a definition has the same document. -/
theorem rootNode_normal (definition : ClassDefinition) :
    definition.normal.rootNode = definition.rootNode := by
  have hfields : definition.normal.fields.map Field.node = definition.fields.map Field.node := by
    rw [normal, List.map_map]
    exact List.map_congr_left fun field _ => field.node_normal
  have hclass : definition.normal.classNode = definition.classNode := by
    rw [classNode, classNode, hfields, map_node_activeLifecycle_normal]
    rfl
  have hmenus : definition.normal.menuNodes = definition.menuNodes := by
    rw [menuNodes, menuNodes, normal]
    cases hmenu : definition.menu with
    | none => rfl
    | some menu => exact congrArg (fun node =>
      [Node.element "menus" [] [node]]) (menu.node_normal definition.menuId)
  rw [rootNode, rootNode, hclass, hmenus, activeBranding_normal]
  rfl

end ClassDefinition

end Datamodel
