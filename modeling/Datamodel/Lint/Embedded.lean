import Datamodel.Definition.Basic

/-!
# Embedded values

Every text of a definition that its document holds as element text or as an attribute value, with
its location in the definition. Fixed words are not listed, and neither is what is left out of the
document.
-/

namespace Datamodel

/-- A text with its location. -/
abbrev Located := String × String

/-- The properties that are texts. -/
def Properties.embedded (properties : Properties) : List Located :=
  [("properties.category", properties.category),
    ("properties.key_type", properties.keyType),
    ("properties.db_table", properties.table),
    ("properties.db_key_field", properties.keyColumn),
    ("properties.db_final_class_field", properties.finalClassColumn),
    ("properties.naming_format", properties.namingFormat)]

def FieldKind.embedded (location : String) : FieldKind → List Located
  | .enumeration values => values.map (location ++ ".values", ·)
  | .externalKey target => [(location ++ ".target_class", target)]
  | _ => []

def Field.embedded (field : Field) : List Located :=
  let location := "fields." ++ field.name
  [(location ++ ".name", field.name), (location ++ ".sql", field.column),
    (location ++ ".default_value", field.defaultValue)] ++ field.kind.embedded location

/-- A state's texts besides its flags. -/
def State.embedded (state : State) : List Located :=
  let location := "lifecycle.states." ++ state.name
  [(location, state.name), (location ++ ".highlight", state.highlight)]

def Transition.embedded (transition : Transition) : List Located :=
  let location := "lifecycle.transitions." ++ transition.stimulus
  [(location, transition.stimulus), (location ++ ".target", transition.target)] ++
    transition.actions.map (location ++ ".actions", ·)

def Lifecycle.embedded (lifecycle : Lifecycle) : List Located :=
  ("lifecycle.attribute", lifecycle.driver) ::
    lifecycle.states.flatMap State.embedded ++ lifecycle.transitions.flatMap Transition.embedded

/-- A method's texts besides its code. -/
def Method.embedded (method : Method) : List Located :=
  [("methods." ++ method.name, method.name)]

def Index.embedded (index : Index) : List Located :=
  let location := "indexes." ++ index.name
  (location, index.name) :: index.fields.map (location ++ ".fields", ·)

def Relation.embedded (relation : Relation) : List Located :=
  let location := "relations." ++ relation.neighbour
  [(location, relation.neighbour), (location ++ ".query_down", relation.queryDown),
    (location ++ ".query_up", relation.queryUp)]

def MenuEntry.embedded (menu : MenuEntry) : List Located :=
  ("menu.parent", menu.parent) :: if menu.hasQuery then [("menu.oql", menu.query)] else []

def Profile.embedded (profile : Profile) : List Located :=
  let location := "user_rights." ++ profile.name
  (location, profile.name) :: profile.rights.map fun right => (location ++ ".rights", right.1)

def Branding.embedded (branding : Branding) : List Located :=
  [("branding.logo", branding.logo), ("branding.main_color", branding.mainColor),
    ("branding.complementary_color", branding.complementaryColor)]

/-- The embedded values of a definition. -/
def ClassDefinition.embedded (definition : ClassDefinition) : List Located :=
  [("name", definition.name), ("parent", definition.parent)] ++
    definition.properties.embedded ++
    definition.fields.flatMap Field.embedded ++
    definition.activeLifecycle.toList.flatMap Lifecycle.embedded ++
    definition.methods.flatMap Method.embedded ++
    definition.indexes.flatMap Index.embedded ++
    definition.relations.flatMap Relation.embedded ++
    definition.menu.toList.flatMap MenuEntry.embedded ++
    definition.profiles.flatMap Profile.embedded ++
    definition.activeBranding.toList.flatMap Branding.embedded

end Datamodel
