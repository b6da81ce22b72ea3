import Datamodel.Definition.Basic
import Datamodel.Markup.Node
import Datamodel.Text.Space

/-!
# The document of a definition

Each section of a definition is written by one function, which gives the nodes of that section, none
where the section is left out. The sections come in a fixed order and their entries in the order of
the definition, so nothing about a document depends on more than the definition and the style.
-/

namespace Datamodel

open Markup (Node Leaf Style)

/-- A text leaf without attributes. -/
def textNode (tag value : String) : Node :=
  .leaf (.text tag [] value)

/-- An element around nodes, only where a condition holds. -/
def elementIf (condition : Bool) (tag : String) (content : List Node) : List Node :=
  if condition then [.element tag [] content] else []

/-! ## Sections of the class -/

def Properties.node (properties : Properties) : Node :=
  .element "properties" [] (properties.nonEmpty.map fun (tag, value) => textNode tag value)

/-- What the kind of a field adds to it. -/
def FieldKind.nodes : FieldKind → List Node
  | .enumeration values =>
    elementIf (!values.isEmpty) "values" (values.zipIdx.map fun (value, place) =>
      .leaf (.text "value" [("id", toString place)] (Text.trimmed value)))
  | .externalKey target => if target.isEmpty then [] else [textNode "target_class" target]
  | _ => []

def Field.node (field : Field) : Node :=
  .element "field" [("id", field.name), ("xsi:type", field.type.name)]
    ([textNode "sql" field.column, textNode "default_value" field.defaultValue,
      textNode "is_null_allowed" (boolText field.nullable)] ++ field.kind.nodes)

/-- A state. Flags become tags, so a flag that cannot be one is left out. -/
def State.node (state : State) : Node :=
  let flags := state.flags.filter fun flag => Markup.isTagName flag.1
  .element "state" [("id", state.name)]
    [.element "flags" [] (flags.map fun (flag, value) => textNode flag (boolText value)),
      textNode "highlight" state.highlight]

def Transition.node (transition : Transition) : Node :=
  .element "transition" [("id", transition.stimulus)]
    [textNode "target" transition.target,
      .element "actions" [] (transition.actions.map fun verb =>
        .element "action" [] [textNode "verb" verb])]

def Lifecycle.node (lifecycle : Lifecycle) : Node :=
  .element "lifecycle" []
    [textNode "attribute" lifecycle.driver,
      .element "states" [] (lifecycle.states.map State.node),
      .element "transitions" [] (lifecycle.transitions.map Transition.node)]

/-- A method, its code as a literal block. -/
def Method.node (method : Method) : Node :=
  .element "method" [("id", method.name)]
    [textNode "static" "false", textNode "access" "public", textNode "type" method.kind.name,
      .leaf (.literal "code" method.code)]

def Index.node (index : Index) : Node :=
  .element "index" [("id", index.name)]
    [.element "attributes" [] (index.fields.map fun field =>
      .leaf (.empty "attribute" [("id", field)]))]

def Relation.node (relation : Relation) : Node :=
  .element "relation" [("id", relation.kind.name)]
    [.element "neighbours" []
      [.element "neighbour" [("id", relation.neighbour)]
        [textNode "query_down" relation.queryDown, textNode "query_up" relation.queryUp]]]

/-! ## Sections beside the class -/

def MenuEntry.node (menu : MenuEntry) (id : String) : Node :=
  .element "menu" [("id", id), ("xsi:type", menu.kind.name)]
    ([textNode "rank" (toString menu.rank), textNode "parent" menu.parent] ++
      if menu.hasQuery then [textNode "oql" menu.query] else [])

def Profile.node (profile : Profile) (className : String) : Node :=
  .element "profile" [("id", profile.name)]
    [.element "groups" []
      [.element "group" [("id", className)]
        [.element "actions" [] (profile.rights.map fun (action, right) =>
          .leaf (.text "action" [("id", "action:" ++ action)] right.name))]]]

def Branding.node (branding : Branding) : Node :=
  .element "branding" []
    [textNode "main_logo" branding.logo, textNode "main_color" branding.mainColor,
      textNode "complementary_color" branding.complementaryColor]

/-! ## The document -/

namespace ClassDefinition

def classNode (definition : ClassDefinition) : Node :=
  .element "class" [("id", definition.name)]
    ([textNode "parent" definition.parent, definition.properties.node,
        .element "fields" [] (definition.fields.map Field.node)] ++
      (definition.activeLifecycle.map Lifecycle.node).toList ++
      elementIf (!definition.methods.isEmpty) "methods" (definition.methods.map Method.node) ++
      elementIf (!definition.indexes.isEmpty) "indexes" (definition.indexes.map Index.node) ++
      elementIf (!definition.relations.isEmpty) "relations"
        (definition.relations.map Relation.node))

def menuNodes (definition : ClassDefinition) : List Node :=
  match definition.menu with
  | none => []
  | some menu => [.element "menus" [] [menu.node definition.menuId]]

def profileNodes (definition : ClassDefinition) : List Node :=
  elementIf (!definition.profiles.isEmpty) "user_rights"
    [.element "profiles" [] (definition.profiles.map fun profile => profile.node definition.name)]

def rootNode (definition : ClassDefinition) : Node :=
  .element "itop_design"
    [("xmlns:xsi", "http://www.w3.org/2001/XMLSchema-instance"), ("version", "3.0")]
    ([.element "classes" [] [definition.classNode]] ++ definition.menuNodes ++
      definition.profileNodes ++ (definition.activeBranding.map Branding.node).toList)

/-- The first line of every document. -/
def declaration : List Char :=
  "<?xml version=\"1.0\" encoding=\"UTF-8\"?>".toList

def documentChars (style : Style) (definition : ClassDefinition) : List Char :=
  style.line 0 declaration ++ definition.rootNode.render style 0

/-- The document of a definition. -/
def document (style : Style) (definition : ClassDefinition) : String :=
  String.ofList (definition.documentChars style)

end ClassDefinition

end Datamodel
