import Datamodel.Proofs.Definition.Document
import Datamodel.Proofs.Definition.Places
import Datamodel.Proofs.Lint.Linter
import Datamodel.Proofs.Markup.Lines
import Mathlib.Data.List.Forall2

/-!
# Nothing is left out unnoticed

The writer leaves out what the format has no place for, and the lints look for the same with
conditions of their own. Here it is said part by part what stands in the document, each part where
it belongs and with its values. Some parts are there only unless their location is reported.
Everything else that a definition says is always there.
-/

namespace Datamodel

open Markup (Node)
open Markup.Node (tagged reach)

/-! ### Nodes that hold a part of a definition -/

section written

-- The locations for which a part may be missing.
variable (reported : String → Prop)

structure Field.WrittenIn (field : Field) (node : Node) : Prop where
  attributes : node.attributes = [("id", field.name), ("xsi:type", field.type.name)]
  column : node.reach ["sql"] = [textNode "sql" field.column]
  defaultValue : node.reach ["default_value"] = [textNode "default_value" field.defaultValue]
  nullable : node.reach ["is_null_allowed"] = [textNode "is_null_allowed" (boolText field.nullable)]
  values : ∀ values, field.kind = .enumeration values →
    node.reach ["values"] = [.element "values" [] (values.zipIdx.map fun (value, place) =>
      .leaf (.text "value" [("id", toString place)] (Text.trimmed value)))] ∨
        reported ("fields." ++ field.name)
  target : ∀ target, field.kind = .externalKey target →
    node.reach ["target_class"] = [textNode "target_class" target] ∨
    reported ("fields." ++ field.name)

structure State.WrittenIn (state : State) (node : Node) : Prop where
  attributes : node.attributes = [("id", state.name)]
  flags : ∀ flag ∈ state.flags, textNode flag.1 (boolText flag.2) ∈ node.reach ["flags", flag.1] ∨
    reported ("lifecycle.states." ++ state.name ++ ".flags")
  highlight : node.reach ["highlight"] = [textNode "highlight" state.highlight]

structure Transition.WrittenIn (transition : Transition) (node : Node) : Prop where
  attributes : node.attributes = [("id", transition.stimulus)]
  target : node.reach ["target"] = [textNode "target" transition.target]
  actions : node.reach ["actions", "action", "verb"] = transition.actions.map (textNode "verb")

structure Lifecycle.WrittenIn (lifecycle : Lifecycle) (node : Node) : Prop where
  driver : node.reach ["attribute"] = [textNode "attribute" lifecycle.driver]
  states : List.Forall₂ (State.WrittenIn reported) lifecycle.states (node.reach ["states", "state"])
  transitions : List.Forall₂ Transition.WrittenIn lifecycle.transitions
    (node.reach ["transitions", "transition"])

structure Method.WrittenIn (method : Method) (node : Node) : Prop where
  attributes : node.attributes = [("id", method.name)]
  kind : node.reach ["type"] = [textNode "type" method.kind.name]
  code : node.reach ["code"] = [.leaf (.literal "code" method.code)]

structure Index.WrittenIn (index : Index) (node : Node) : Prop where
  attributes : node.attributes = [("id", index.name)]
  fields : node.reach ["attributes", "attribute"] = index.fields.map fun field =>
    .leaf (.empty "attribute" [("id", field)])

structure Relation.WrittenIn (relation : Relation) (node : Node) : Prop where
  attributes : node.attributes = [("id", relation.kind.name)]
  neighbour : (node.reach ["neighbours", "neighbour"]).map Node.attributes =
    [[("id", relation.neighbour)]]
  queryDown : node.reach ["neighbours", "neighbour", "query_down"] =
    [textNode "query_down" relation.queryDown]
  queryUp : node.reach ["neighbours", "neighbour", "query_up"] =
    [textNode "query_up" relation.queryUp]

structure MenuEntry.WrittenIn (menu : MenuEntry) (id : String) (node : Node) : Prop where
  attributes : node.attributes = [("id", id), ("xsi:type", menu.kind.name)]
  rank : node.reach ["rank"] = [textNode "rank" (toString menu.rank)]
  parent : node.reach ["parent"] = [textNode "parent" menu.parent]
  query : menu.query ≠ "" → node.reach ["oql"] = [textNode "oql" menu.query] ∨ reported "menu.oql"

structure Profile.WrittenIn (className : String) (profile : Profile) (node : Node) : Prop where
  attributes : node.attributes = [("id", profile.name)]
  className : (node.reach ["groups", "group"]).map Node.attributes = [[("id", className)]]
  rights : node.reach ["groups", "group", "actions", "action"] =
    profile.rights.map fun (action, right) =>
      .leaf (.text "action" [("id", "action:" ++ action)] right.name)

def Branding.entries (branding : Branding) : List (String × String) :=
  [("main_logo", branding.logo), ("main_color", branding.mainColor),
    ("complementary_color", branding.complementaryColor)]

structure ClassDefinition.WrittenIn (definition : ClassDefinition) (root : Node) : Prop where
  name : (root.reach ["classes", "class"]).map Node.attributes = [[("id", definition.name)]]
  parent : root.reach ["classes", "class", "parent"] = [textNode "parent" definition.parent]
  properties : ∀ entry ∈ definition.properties.entries, entry.2 ≠ "" →
    textNode entry.1 entry.2 ∈ root.reach ["classes", "class", "properties", entry.1]
  fields : List.Forall₂ (Field.WrittenIn reported) definition.fields
    (root.reach ["classes", "class", "fields", "field"])
  lifecycle : ∀ lifecycle, definition.lifecycle = some lifecycle →
    lifecycle.driver ≠ "" ∨ lifecycle.states ≠ [] ∨ lifecycle.transitions ≠ [] →
      (∃ node, root.reach ["classes", "class", "lifecycle"] = [node] ∧
        lifecycle.WrittenIn reported node) ∨
        reported "lifecycle"
  methods : List.Forall₂ Method.WrittenIn definition.methods
    (root.reach ["classes", "class", "methods", "method"])
  indexes : List.Forall₂ Index.WrittenIn definition.indexes
    (root.reach ["classes", "class", "indexes", "index"])
  relations : List.Forall₂ Relation.WrittenIn definition.relations
    (root.reach ["classes", "class", "relations", "relation"])
  menu : ∀ menu, definition.menu = some menu →
    ∃ node, root.reach ["menus", "menu"] = [node] ∧ menu.WrittenIn reported definition.menuId node
  profiles : List.Forall₂ (Profile.WrittenIn definition.name) definition.profiles
    (root.reach ["user_rights", "profiles", "profile"])
  branding : ∀ branding, definition.branding = some branding →
    ∀ entry ∈ branding.entries, entry.2 ≠ "" →
      textNode entry.1 entry.2 ∈ root.reach ["branding", entry.1]

end written

/-! ### Every part is written -/

section parts

variable {reported : String → Prop}

theorem Field.node_writtenIn {field : Field} (h : ∀ issue ∈ field.issues, reported issue.location) :
    field.WrittenIn reported field.node where
  attributes := rfl
  column := by simp [node, FieldKind.tagged_nodes]
  defaultValue := by simp [node, FieldKind.tagged_nodes]
  nullable := by simp [node, FieldKind.tagged_nodes]
  values := by
    intro values hkind
    by_cases hvalues : values = []
    · right
      refine h (.noValues field.name) ?_
      rw [issues, hkind, hvalues]
      exact List.mem_singleton_self _
    · left
      have hcondition : (!values.isEmpty) = true := by simpa using hvalues
      simp [node, hkind, FieldKind.nodes, elementIf, hcondition]
  target := by
    intro target hkind
    by_cases htarget : target = ""
    · right
      refine h (.noTarget field.name) ?_
      rw [issues, hkind, htarget]
      exact List.mem_singleton_self _
    · left
      simp [node, hkind, FieldKind.nodes, htarget]

theorem State.node_writtenIn {state : State} (h : ∀ issue ∈ state.issues, reported issue.location) :
    state.WrittenIn reported state.node where
  attributes := rfl
  flags := by
    intro flag hflag
    by_cases htag : Markup.isTagName flag.1
    · left
      have hkept : flag ∈ state.flags.filter fun flag => Markup.isTagName flag.1 :=
        List.mem_filter.2 ⟨hflag, htag⟩
      simpa [node] using mem_tagged_entries boolText hkept
    · right
      refine h (.unwritableFlag flag.1 state.name)
        (List.mem_map_of_mem (List.mem_filter.2 ⟨hflag, ?_⟩))
      simpa using htag
  highlight := by simp [node]

theorem Transition.node_writtenIn (transition : Transition) :
    transition.WrittenIn transition.node where
  attributes := rfl
  target := by simp [node]
  actions := by
    have hreach : transition.node.reach ["actions", "action", "verb"] =
        (transition.actions.map fun verb => .element "action" [] [textNode "verb" verb]).flatMap
          (reach ["verb"]) := by
      simp [node]
    rw [hreach, List.flatMap_map, List.map_eq_flatMap]
    rfl

theorem Lifecycle.node_writtenIn {lifecycle : Lifecycle}
    (h : ∀ state ∈ lifecycle.states, ∀ issue ∈ state.issues, reported issue.location) :
    lifecycle.WrittenIn reported lifecycle.node where
  driver := by simp [node]
  states := by
    have hreach : lifecycle.node.reach ["states", "state"] = lifecycle.states.map State.node := by
      simp [node]
    rw [hreach, List.forall₂_map_right_iff, List.forall₂_same]
    intro state hstate
    exact State.node_writtenIn (h state hstate)
  transitions := by
    have hreach : lifecycle.node.reach ["transitions", "transition"] =
        lifecycle.transitions.map Transition.node := by
      simp [node]
    rw [hreach, List.forall₂_map_right_iff, List.forall₂_same]
    intro transition _
    exact transition.node_writtenIn

theorem Method.node_writtenIn (method : Method) : method.WrittenIn method.node where
  attributes := rfl
  kind := rfl
  code := rfl

theorem Index.node_writtenIn (index : Index) : index.WrittenIn index.node where
  attributes := rfl
  fields := by simp [node]

theorem Relation.node_writtenIn (relation : Relation) : relation.WrittenIn relation.node where
  attributes := rfl
  neighbour := rfl
  queryDown := rfl
  queryUp := rfl

theorem MenuEntry.node_writtenIn {menu : MenuEntry} (id : String)
    (h : menu.hasQuery = false → menu.query ≠ "" → reported "menu.oql") :
    menu.WrittenIn reported id (menu.node id) where
  attributes := rfl
  rank := by simp [node]
  parent := by simp [node]
  query := by
    intro hquery
    by_cases hused : menu.hasQuery
    · left
      simp [node, hused]
    · right
      exact h (by simpa using hused) hquery

theorem Profile.node_writtenIn (className : String) (profile : Profile) :
    profile.WrittenIn className (profile.node className) where
  attributes := rfl
  className := rfl
  rights := by
    have htag : ∀ node ∈ profile.rights.map fun (action, right) =>
        Node.leaf (.text "action" [("id", "action:" ++ action)] right.name), node.tag = "action" :=
      List.forall_mem_map.2 fun _ _ => rfl
    simp [node, Node.tagged_of_tag htag]

theorem Branding.isEmpty_eq_false {branding : Branding} {entry : String × String}
    (h : entry ∈ branding.entries) (hne : entry.2 ≠ "") : branding.isEmpty = false := by
  rw [Branding.isEmpty, Bool.eq_false_iff]
  intro hempty
  simp only [Bool.and_eq_true, String.isEmpty_iff] at hempty
  obtain ⟨⟨hlogo, hmainColor⟩, hcomplementaryColor⟩ := hempty
  rw [entries, hlogo, hmainColor, hcomplementaryColor] at h
  have hall : ∀ entry ∈ [("main_logo", ""), ("main_color", ""), ("complementary_color", "")],
      entry.2 = "" := by
    decide
  exact hne (hall entry h)

namespace ClassDefinition

variable {definition : ClassDefinition}

theorem lifecycle_writtenIn (h : ∀ issue ∈ definition.lifecycleIssues, reported issue.location)
    {lifecycle : Lifecycle} (hlifecycle : definition.lifecycle = some lifecycle)
    (hgiven : lifecycle.driver ≠ "" ∨ lifecycle.states ≠ [] ∨ lifecycle.transitions ≠ []) :
    (∃ node, definition.classNode.reach ["lifecycle"] = [node] ∧
      lifecycle.WrittenIn reported node) ∨
      reported "lifecycle" := by
  by_cases hactive : lifecycle.isActive
  · left
    refine ⟨lifecycle.node, ?_, Lifecycle.node_writtenIn fun state hstate issue hissue =>
      h issue ?_⟩
    · rw [reach_lifecycle, activeLifecycle, hlifecycle, Option.filter_some, if_pos hactive]
      rfl
    · rw [lifecycleIssues, hlifecycle]
      dsimp only
      rw [if_pos hactive]
      exact List.mem_append_left _ (List.mem_append_right _ (List.mem_flatMap_of_mem hstate hissue))
  · right
    refine h .omittedLifecycle ?_
    rw [lifecycleIssues, hlifecycle]
    dsimp only
    rw [if_neg hactive, if_neg]
    · exact List.mem_singleton_self _
    · have hdriver : lifecycle.driver = "" := by simpa [Lifecycle.isActive] using hactive
      simpa [hdriver, imp_iff_not_or] using hgiven

theorem menu_writtenIn (h : ∀ issue ∈ definition.menuIssues, reported issue.location)
    {menu : MenuEntry} (hmenu : definition.menu = some menu) :
    menu.WrittenIn reported definition.menuId (menu.node definition.menuId) := by
  refine MenuEntry.node_writtenIn _ fun hunused hquery => h (.unusedQuery menu.kind) ?_
  rw [menuIssues, hmenu]
  dsimp only
  rw [if_neg (by simp [hunused]), if_neg (by simpa using hquery)]
  exact List.mem_singleton_self _

/-- Where every issue of the lints that look at what is left out is reported, every other part is
written. -/
theorem rootNode_writtenIn
    (hlifecycle : ∀ issue ∈ definition.lifecycleIssues, reported issue.location)
    (hfields : ∀ issue ∈ definition.fieldIssues, reported issue.location)
    (hmenu : ∀ issue ∈ definition.menuIssues, reported issue.location) :
    definition.WrittenIn reported definition.rootNode where
  name := by
    rw [reach_class]
    rfl
  parent := by
    rw [reach_class]
    simp [classNode]
  properties := by
    intro entry hentry hne
    have hkept : entry ∈ definition.properties.nonEmpty :=
      List.mem_filter.2 ⟨hentry, by simpa using hne⟩
    rw [reach_class]
    simpa [classNode, Properties.node] using mem_tagged_entries id hkept
  fields := by
    rw [reach_class, reach_fields, List.forall₂_map_right_iff, List.forall₂_same]
    intro field hfield
    exact Field.node_writtenIn fun issue hissue =>
      hfields issue (List.mem_flatMap_of_mem hfield hissue)
  lifecycle := by
    intro lifecycle hgiven
    rw [reach_class]
    exact lifecycle_writtenIn hlifecycle hgiven
  methods := by
    rw [reach_class, reach_methods, List.forall₂_map_right_iff, List.forall₂_same]
    exact fun method _ => method.node_writtenIn
  indexes := by
    rw [reach_class, reach_indexes, List.forall₂_map_right_iff, List.forall₂_same]
    exact fun index _ => index.node_writtenIn
  relations := by
    rw [reach_class, reach_relations, List.forall₂_map_right_iff, List.forall₂_same]
    exact fun relation _ => relation.node_writtenIn
  menu := by
    intro menu hgiven
    refine ⟨menu.node definition.menuId, ?_, menu_writtenIn hmenu hgiven⟩
    rw [reach_menu, hgiven]
    rfl
  profiles := by
    rw [reach_profiles, List.forall₂_map_right_iff, List.forall₂_same]
    exact fun profile _ => profile.node_writtenIn definition.name
  branding := by
    intro branding hbranding entry hentry hne
    have hactive : definition.activeBranding = some branding := by
      rw [activeBranding, hbranding, Option.filter_some, if_pos]
      simpa using Branding.isEmpty_eq_false hentry hne
    rw [reach_branding, hactive, Option.map_some, Option.toList_some, List.flatMap_singleton,
      Branding.node, Node.reach_element, Node.flatMap_reach_nil]
    exact mem_tagged_entries id hentry

/-! ### Parts that are missing are reported -/

theorem exists_reported {escaping : Escaping} (lint : Lint) (hlint : lint ≠ .markup) {issue : Issue}
    (h : issue ∈ lint.issues escaping definition) :
    ∃ other ∈ definition.lint escaping, other.lint ≠ .markup ∧ other.location = issue.location :=
  ⟨issue, mem_lint.2 ⟨lint, h⟩, (Lint.lint_of_mem_issues h).trans_ne hlint, rfl⟩

/-- Whatever the root node leads to is written in the lines of every document, and in an escaped one
it is read at the same place. Of what a definition says a part is missing there only if the linter
has an issue for its place, whatever the escaping, so nothing is missing where three of the lints
are silent. -/
theorem written_or_reported (definition : ClassDefinition) :
    (∀ style path, ∀ node ∈ definition.rootNode.reach path,
      ∃ lines, Node.WrittenAs style.escaping [node] lines ∧
        lines <:+: (definition.document style).toList) ∧
    (∀ indent, ∃ root, Xml.parse (definition.document ⟨.markup, indent⟩).toList = .ok root ∧
      ∀ path, root.select path = (definition.rootNode.reach path).map Node.toElement) ∧
    (∀ escaping, definition.WrittenIn
      (fun place => ∃ issue ∈ definition.lint escaping, issue.lint ≠ .markup ∧
        issue.location = place)
      definition.rootNode) ∧
    (definition.lifecycleIssues = [] → definition.fieldIssues = [] → definition.menuIssues = [] →
      definition.WrittenIn (fun _ => False) definition.rootNode) := by
  refine ⟨?_, ?_, ?_, ?_⟩
  · intro style path node hnode
    refine ⟨node.render style path.length, Node.writtenAs_render style path.length node, ?_⟩
    have hinside := Node.render_infix_of_mem_reach hnode style 0
    rw [Nat.zero_add] at hinside
    rw [toList_document]
    exact hinside.trans List.infix_append_right
  · intro indent
    refine ⟨definition.tree, definition.parse_escaped indent, fun path => ?_⟩
    rw [← toElement_rootNode]
    exact Node.select_toElement path definition.rootNode
  · intro escaping
    exact rootNode_writtenIn (fun _ => exists_reported .lifecycle (by decide))
      (fun _ => exists_reported .fields (by decide)) (fun _ => exists_reported .menu (by decide))
  · intro hlifecycle hfields hmenu
    refine rootNode_writtenIn ?_ ?_ ?_
    · simp [hlifecycle]
    · simp [hfields]
    · simp [hmenu]

end ClassDefinition

end parts

/-- A class whose parts are all given as the format wants them. -/
def monitored : ClassDefinition where
  name := "Server"
  fields := [{ name := "status", kind := .enumeration ["on", "off"] },
    { name := "org", kind := .externalKey "Team" }]
  lifecycle := some {
    driver := "status"
    states := [{ name := "on", flags := [("read_only", true)] }, { name := "off" }]
    transitions := [{ stimulus := "stop", target := "off", actions := ["Log"] }] }
  menu := some { query := "SELECT Server" }

theorem written_or_reported_monitored :
    monitored.lifecycleIssues = [] ∧ monitored.fieldIssues = [] ∧ monitored.menuIssues = [] ∧
      monitored.WrittenIn (fun _ => False) monitored.rootNode := by
  have hlifecycle : monitored.lifecycleIssues = [] := by decide
  have hfields : monitored.fieldIssues = [] := by decide
  have hmenu : monitored.menuIssues = [] := by decide
  exact ⟨hlifecycle, hfields, hmenu, monitored.written_or_reported.2.2.2 hlifecycle hfields hmenu⟩

end Datamodel
