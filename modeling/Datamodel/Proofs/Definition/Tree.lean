import Datamodel.Proofs.Definition.Nodes
import Datamodel.Proofs.Markup.Tree

/-!
# What a reader finds in the document of a definition

The tree of a definition is said here section by section, each with the rule by which it is present,
and without any layout. Reading the escaped document gives exactly this tree, whatever the
indentation. So every attribute value and every code comes back as it was, every other text comes
back but for white space at its ends, and nothing in a value can add, hide or move an element.
-/

namespace Datamodel

open Markup (Node Indent ofText)
open Xml (Element)
open Xml.Element (ofContent)

/-! ### The tree -/

/-- An element around elements, none if there are none. -/
def enclosed (tag : String) : List Element → List Element
  | [] => []
  | content => [ofContent tag [] content]

/-- An element that holds a text, present under a condition. -/
def textIf (condition : Prop) [Decidable condition] (tag value : String) : List Element :=
  if condition then [ofText tag [] value] else []

def Properties.tree (properties : Properties) : Element :=
  ofContent "properties" []
    ((properties.entries.filter (·.2 ≠ "")).map fun (tag, value) => ofText tag [] value)

def FieldKind.values : FieldKind → List String
  | .enumeration values => values
  | _ => []

/-- The target of an external key, empty for any other kind. -/
def FieldKind.target : FieldKind → String
  | .externalKey target => target
  | _ => ""

/-- The values, if there are some, and the target, if there is one. -/
def FieldKind.content (kind : FieldKind) : List Element :=
  enclosed "values" (kind.values.zipIdx.map fun (value, place) =>
      { name := "value", attributes := [("id", toString place)], text := Text.trimmed value }) ++
    textIf (kind.target ≠ "") "target_class" kind.target

def Field.tree (field : Field) : Element :=
  ofContent "field" [("id", field.name), ("xsi:type", field.type.name)]
    ([ofText "sql" [] field.column, ofText "default_value" [] field.defaultValue,
      ofText "is_null_allowed" [] (boolText field.nullable)] ++ field.kind.content)

def State.flagTree (state : State) : Element :=
  ofContent "flags" []
    ((state.flags.filter (Markup.isTagName ·.1)).map fun (flag, value) =>
      ofText flag [] (boolText value))

def State.tree (state : State) : Element :=
  ofContent "state" [("id", state.name)] [state.flagTree, ofText "highlight" [] state.highlight]

def Transition.tree (transition : Transition) : Element :=
  ofContent "transition" [("id", transition.stimulus)]
    [ofText "target" [] transition.target,
      ofContent "actions" [] (transition.actions.map fun verb =>
        ofContent "action" [] [ofText "verb" [] verb])]

def Lifecycle.tree (lifecycle : Lifecycle) : Element :=
  ofContent "lifecycle" []
    [ofText "attribute" [] lifecycle.driver,
      ofContent "states" [] (lifecycle.states.map State.tree),
      ofContent "transitions" [] (lifecycle.transitions.map Transition.tree)]

/-- The code of a method is text, unchanged. -/
def Method.tree (method : Method) : Element :=
  ofContent "method" [("id", method.name)]
    [ofText "static" [] "false", ofText "access" [] "public", ofText "type" [] method.kind.name,
      { name := "code", text := method.code }]

def Index.tree (index : Index) : Element :=
  ofContent "index" [("id", index.name)]
    [ofContent "attributes" [] (index.fields.map fun field =>
      { name := "attribute", attributes := [("id", field)] })]

def Relation.tree (relation : Relation) : Element :=
  ofContent "relation" [("id", relation.kind.name)]
    [ofContent "neighbours" [] [ofContent "neighbour" [("id", relation.neighbour)]
      [ofText "query_down" [] relation.queryDown, ofText "query_up" [] relation.queryUp]]]

/-- A menu entry, with its query if it is of the query kind. -/
def MenuEntry.tree (menu : MenuEntry) (id : String) : Element :=
  ofContent "menu" [("id", id), ("xsi:type", menu.kind.name)]
    ([ofText "rank" [] (toString menu.rank), ofText "parent" [] menu.parent] ++
      textIf (menu.kind = .query) "oql" menu.query)

def Profile.tree (profile : Profile) (className : String) : Element :=
  ofContent "profile" [("id", profile.name)]
    [ofContent "groups" [] [ofContent "group" [("id", className)]
      [ofContent "actions" [] (profile.rights.map fun (action, right) =>
        ofText "action" [("id", "action:" ++ action)] right.name)]]]

def Branding.tree (branding : Branding) : Element :=
  ofContent "branding" []
    [ofText "main_logo" [] branding.logo, ofText "main_color" [] branding.mainColor,
      ofText "complementary_color" [] branding.complementaryColor]

namespace ClassDefinition

/-- The lifecycle that is written: one that names a field. -/
def writtenLifecycle (definition : ClassDefinition) : List Lifecycle :=
  definition.lifecycle.toList.filter (·.driver ≠ "")

/-- The branding that is written: one with a value. -/
def writtenBranding (definition : ClassDefinition) : List Branding :=
  definition.branding.toList.filter fun branding =>
    branding.logo ≠ "" ∨ branding.mainColor ≠ "" ∨ branding.complementaryColor ≠ ""

def classTree (definition : ClassDefinition) : Element :=
  ofContent "class" [("id", definition.name)]
    ([ofText "parent" [] definition.parent, definition.properties.tree,
        ofContent "fields" [] (definition.fields.map Field.tree)] ++
      (definition.writtenLifecycle.map Lifecycle.tree ++
        (enclosed "methods" (definition.methods.map Method.tree) ++
        (enclosed "indexes" (definition.indexes.map Index.tree) ++
          enclosed "relations" (definition.relations.map Relation.tree)))))

def menuTrees (definition : ClassDefinition) : List Element :=
  enclosed "menus" (definition.menu.toList.map fun menu => menu.tree (definition.name ++ "_menu"))

def profileTrees (definition : ClassDefinition) : List Element :=
  enclosed "user_rights" (enclosed "profiles" (definition.profiles.map (·.tree definition.name)))

def tree (definition : ClassDefinition) : Element :=
  ofContent "itop_design" [("xmlns:xsi", "http://www.w3.org/2001/XMLSchema-instance"),
    ("version", "3.0")] ([ofContent "classes" [] [definition.classTree]] ++
      (definition.menuTrees ++ (definition.profileTrees ++
        definition.writtenBranding.map Branding.tree)))

end ClassDefinition

/-! ### The tree of each section -/

theorem toElement_element (tag : String) (attributes : Markup.Attributes) (content : List Node) :
    (Node.element tag attributes content).toElement =
      ofContent tag attributes (content.map Node.toElement) := by
  rw [Node.toElement, Node.toElements_eq_map]

@[simp] theorem toElement_textNode (tag value : String) :
    (textNode tag value).toElement = ofText tag [] value :=
  rfl

theorem map_toElement_map {α : Type} {node : α → Node} {tree : α → Element}
    (h : ∀ item, (node item).toElement = tree item) (items : List α) :
    (items.map node).map Node.toElement = items.map tree := by
  rw [List.map_map]
  exact List.map_congr_left fun item _ => h item

theorem map_toElement_elementIf {α : Type} {node : α → Node} {tree : α → Element}
    (h : ∀ item, (node item).toElement = tree item) (tag : String) (items : List α) :
    (elementIf (!items.isEmpty) tag (items.map node)).map Node.toElement =
      enclosed tag (items.map tree) := by
  cases items with
  | nil => rfl
  | cons item items =>
    rw [elementIf_cons, List.map_singleton, toElement_element, map_toElement_map h]
    rfl

theorem isSpace_of_isBlank {c : Char} (h : Xml.isBlank c = true) : Text.isSpace c = true := by
  simp only [Xml.isBlank, Bool.or_eq_true, beq_iff_eq] at h
  obtain ((rfl | rfl) | rfl) | rfl := h
  all_goals rfl

/-- Where white space of any script was removed at the ends, there is none of a smaller class. -/
theorem trim_ends {p : Char → Bool} (hp : ∀ c, p c = true → Text.isSpace c = true) (s : List Char) :
    Text.dropEndWhile p ((Text.trim s).dropWhile p) = Text.trim s := by
  have hstart : (Text.trim s).dropWhile p = Text.trim s := by
    cases htrim : Text.trim s with
    | nil => rfl
    | cons c rest =>
      obtain ⟨back, hback⟩ : Text.trim s <+: s.dropWhile Text.isSpace := List.rdropWhile_prefix _ _
      rw [htrim, List.cons_append] at hback
      have hc : Text.isSpace c = false := by
        have hne : s.dropWhile Text.isSpace ≠ [] := by simp [← hback]
        have hhead := List.head_dropWhile_not Text.isSpace hne
        simpa [← hback] using hhead
      refine List.dropWhile_cons_of_neg fun hspace => ?_
      rw [hp c hspace] at hc
      contradiction
  have hend : Text.dropEndWhile p (Text.trim s) = Text.trim s := by
    refine List.rdropWhile_eq_self_iff.2 fun hne hspace => ?_
    exact List.rdropWhile_last_not _ _ hne (hp _ hspace)
  rw [hstart, hend]

theorem trimBlanks_trim (s : List Char) : Xml.trimBlanks (Text.trim s) = Text.trim s :=
  trim_ends (fun _ h => isSpace_of_isBlank h) s

theorem ofText_trimmed (tag : String) (attributes : Markup.Attributes) (value : String) :
    ofText tag attributes (Text.trimmed value) =
      { name := tag, attributes, text := Text.trimmed value } := by
  rw [ofText, Text.trimmed, String.toList_ofList, trimBlanks_trim]

theorem not_isEmpty (s : String) : (!s.isEmpty) = decide (s ≠ "") := by
  by_cases h : s = ""
  · rw [h]
    rfl
  · simp [h]

theorem Properties.toElement_node (properties : Properties) :
    properties.node.toElement = properties.tree := by
  rw [Properties.node, toElement_element, List.map_map, Properties.tree, Properties.nonEmpty]
  congr 2
  exact List.filter_congr fun entry _ => not_isEmpty entry.2

theorem FieldKind.map_toElement_nodes (kind : FieldKind) :
    kind.nodes.map Node.toElement = kind.content := by
  cases kind with
  | enumeration values =>
    cases values with
    | nil => rfl
    | cons value values =>
      rw [nodes, elementIf_cons, List.map_singleton, toElement_element, List.map_map]
      refine congrArg (fun content => [ofContent "values" [] content])
        (List.map_congr_left fun entry _ => ?_)
      exact ofText_trimmed "value" [("id", toString entry.2)] entry.1
  | externalKey target =>
    rw [nodes, content, FieldKind.target]
    by_cases h : target = ""
    · rw [h]
      rfl
    · rw [if_neg (by simpa using h), textIf, if_pos h]
      rfl
  | string | integer | linkedSet | tagSet | customFields => rfl

theorem Field.toElement_node (field : Field) : field.node.toElement = field.tree := by
  rw [Field.node, toElement_element, List.map_append, FieldKind.map_toElement_nodes]
  rfl

theorem State.toElement_node (state : State) : state.node.toElement = state.tree := by
  rw [State.node, toElement_element, List.map_cons, toElement_element, List.map_map]
  rfl

theorem Transition.toElement_node (transition : Transition) :
    transition.node.toElement = transition.tree := by
  rw [Transition.node, toElement_element, List.map_cons, List.map_cons, toElement_element,
    List.map_map]
  rfl

theorem Lifecycle.toElement_node (lifecycle : Lifecycle) :
    lifecycle.node.toElement = lifecycle.tree := by
  rw [Lifecycle.node, toElement_element, List.map_cons, List.map_cons, List.map_cons,
    toElement_element, toElement_element, map_toElement_map State.toElement_node,
    map_toElement_map Transition.toElement_node]
  rfl

theorem Method.toElement_node (method : Method) : method.node.toElement = method.tree :=
  rfl

theorem Index.toElement_node (index : Index) : index.node.toElement = index.tree := by
  rw [Index.node, toElement_element, List.map_singleton, toElement_element, List.map_map]
  rfl

theorem Relation.toElement_node (relation : Relation) : relation.node.toElement = relation.tree :=
  rfl

theorem MenuEntry.toElement_node (menu : MenuEntry) (id : String) :
    (menu.node id).toElement = menu.tree id := by
  rw [MenuEntry.node, toElement_element, List.map_append, MenuEntry.tree,
    MenuEntry.hasQuery, textIf]
  by_cases h : menu.kind = .query
  · rw [if_pos h, if_pos (by simpa using h)]
    rfl
  · rw [if_neg h, if_neg (by simpa using h)]
    rfl

theorem Profile.toElement_node (profile : Profile) (className : String) :
    (profile.node className).toElement = profile.tree className := by
  rw [Profile.node, toElement_element, List.map_singleton, toElement_element, List.map_singleton,
    toElement_element, List.map_singleton, toElement_element, List.map_map]
  rfl

theorem Branding.toElement_node (branding : Branding) : branding.node.toElement = branding.tree :=
  rfl

/-! ### The tree of the document -/

namespace ClassDefinition

theorem activeLifecycle_eq (definition : ClassDefinition) :
    definition.activeLifecycle = definition.lifecycle.filter (·.driver ≠ "") := by
  have hactive : Lifecycle.isActive = fun lifecycle => decide (lifecycle.driver ≠ "") := by
    funext lifecycle
    exact not_isEmpty lifecycle.driver
  rw [activeLifecycle, hactive]

theorem map_toElement_activeLifecycle (definition : ClassDefinition) :
    (definition.activeLifecycle.map Lifecycle.node).toList.map Node.toElement =
      definition.writtenLifecycle.map Lifecycle.tree := by
  rw [Option.toList_map, map_toElement_map Lifecycle.toElement_node, activeLifecycle_eq,
    Option.toList_filter]
  rfl

theorem toElement_classNode (definition : ClassDefinition) :
    definition.classNode.toElement = definition.classTree := by
  rw [classNode, toElement_element, classTree]
  simp only [List.map_append, map_toElement_activeLifecycle,
    map_toElement_elementIf Method.toElement_node, map_toElement_elementIf Index.toElement_node,
    map_toElement_elementIf Relation.toElement_node, List.append_assoc, List.map_cons, List.map_nil,
    toElement_textNode, Properties.toElement_node, toElement_element,
    map_toElement_map Field.toElement_node]

theorem map_toElement_menuNodes (definition : ClassDefinition) :
    definition.menuNodes.map Node.toElement = definition.menuTrees := by
  rw [menuNodes, menuTrees]
  cases definition.menu with
  | none => rfl
  | some menu =>
    rw [List.map_singleton, toElement_element, List.map_singleton, MenuEntry.toElement_node]
    rfl

theorem map_toElement_profileNodes (definition : ClassDefinition) :
    definition.profileNodes.map Node.toElement = definition.profileTrees := by
  rw [profileNodes, profileTrees]
  cases definition.profiles with
  | nil => rfl
  | cons profile profiles =>
    rw [elementIf_cons, List.map_singleton, toElement_element, List.map_singleton,
      toElement_element, map_toElement_map fun profile =>
        Profile.toElement_node profile definition.name]
    rfl

theorem activeBranding_eq (definition : ClassDefinition) :
    definition.activeBranding = definition.branding.filter fun branding =>
      branding.logo ≠ "" ∨ branding.mainColor ≠ "" ∨ branding.complementaryColor ≠ "" := by
  have hactive : (fun branding : Branding => !branding.isEmpty) = fun branding =>
      decide (branding.logo ≠ "" ∨ branding.mainColor ≠ "" ∨ branding.complementaryColor ≠ "") := by
    funext branding
    simp [Branding.isEmpty, not_isEmpty, Bool.or_assoc]
  rw [activeBranding, hactive]

theorem map_toElement_activeBranding (definition : ClassDefinition) :
    (definition.activeBranding.map Branding.node).toList.map Node.toElement =
      definition.writtenBranding.map Branding.tree := by
  rw [Option.toList_map, map_toElement_map Branding.toElement_node, activeBranding_eq,
    Option.toList_filter]
  rfl

/-- The document of a definition denotes the tree of the definition. -/
theorem toElement_rootNode (definition : ClassDefinition) :
    definition.rootNode.toElement = definition.tree := by
  rw [rootNode, toElement_element, tree]
  simp only [List.map_append, List.append_assoc, map_toElement_menuNodes,
    map_toElement_profileNodes, map_toElement_activeBranding, List.map_cons, List.map_nil,
    toElement_element, toElement_classNode]

end ClassDefinition

end Datamodel
