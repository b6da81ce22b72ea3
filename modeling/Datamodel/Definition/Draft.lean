import Datamodel.Definition.Basic
import Datamodel.Text.Space
import Datamodel.Toml.Shape

/-!
# Definitions as written

A draft is what a configuration file says, each setting of the right form but nothing yet checked:
the names may be anything, and a field may carry a payload that its type has no use for.
-/

namespace Datamodel

open Toml (Value SectionForm)

/-- A list of names or values as an author may write it. -/
inductive Listing where
  | items (names : List String)
  /-- The items in one string, separated by commas. -/
  | joined (text : String)
  deriving DecidableEq, Repr

/-- The items of a listing without white space around them. A blank string has none; empty items
between commas are kept. -/
def Listing.entries : Listing → List String
  | .items names => names.map Text.trimmed
  | .joined text =>
    if (Text.trim text.toList).isEmpty then []
    else (Text.splitOn ',' text.toList).map fun item => String.ofList (Text.trim item)

structure DraftField where
  name : String
  type : FieldType := .string
  nullable : Bool := true
  defaultValue : String := ""
  sql : Option String := none
  values : Option Listing := none
  target : Option String := none
  deriving DecidableEq, Repr

/-- A definition as written. -/
structure Draft where
  name : String
  parent : String := defaultParent
  properties : Properties := {}
  fields : List DraftField := []
  lifecycle : Option Lifecycle := none
  methods : List Method := []
  indexes : List Index := []
  relations : List Relation := []
  menu : Option MenuEntry := none
  profiles : List Profile := []
  branding : Option Branding := none
  deriving DecidableEq, Repr

/-! ## From values -/

/-- A listing, by an array of strings or by one string. -/
def Listing.ofValue? : Value → Option Listing
  | .string text => some (.joined text)
  | value => (value.list? Value.string?).map .items

/-- A string that may be left out. -/
def textOr (fallback : String) : Option Value → Option String :=
  Value.orDefault fallback Value.string?

def Properties.form : SectionForm where
  members := [⟨"category", []⟩, ⟨"abstract", []⟩, ⟨"key_type", []⟩, ⟨"db_table", []⟩,
    ⟨"db_key_field", []⟩, ⟨"db_final_class_field", []⟩, ⟨"is_link", []⟩, ⟨"naming_format", []⟩]
  isClosed := true

def Properties.ofValue? (value : Value) : Option Properties := do
  let [category, isAbstract, keyType, table, keyColumn, finalClassColumn, isLink, namingFormat] ←
    value.section? form | none
  let standard : Properties := {}
  return {
    category := ← textOr standard.category category
    isAbstract := ← Value.orDefault standard.isAbstract Value.bool? isAbstract
    keyType := ← textOr standard.keyType keyType
    table := ← textOr standard.table table
    keyColumn := ← textOr standard.keyColumn keyColumn
    finalClassColumn := ← textOr standard.finalClassColumn finalClassColumn
    isLink := ← Value.orDefault standard.isLink Value.bool? isLink
    namingFormat := ← textOr standard.namingFormat namingFormat }

/-- Of a field's members the last three have no default in the array form. -/
def DraftField.form : SectionForm where
  members := [⟨"name", []⟩, ⟨"type", []⟩, ⟨"nullable", []⟩, ⟨"default_value", ["default"]⟩,
    ⟨"sql", []⟩, ⟨"values", []⟩, ⟨"target_class", []⟩]
  isClosed := true
  least := 7

def DraftField.ofValue? (value : Value) : Option DraftField := do
  let [some name, type, nullable, defaultValue, sql, values, target] ←
    value.section? form | none
  return {
    name := ← name.string?
    type := ← Value.orDefault .string (Value.word? FieldType.ofName?) type
    nullable := ← Value.orDefault true Value.bool? nullable
    defaultValue := ← textOr "" defaultValue
    sql := ← Value.optional Value.string? sql
    values := ← Value.optional Listing.ofValue? values
    target := ← Value.optional Value.string? target }

def State.form : SectionForm where
  members := [⟨"name", []⟩, ⟨"flags", []⟩, ⟨"highlight", []⟩]

def State.ofValue? (value : Value) : Option State := do
  let [some name, flags, highlight] ← value.section? form | none
  return {
    name := ← name.string?
    flags := ← Value.orDefault [] (Value.map? Value.bool?) flags
    highlight := ← textOr "" highlight }

def Transition.form : SectionForm where
  members := [⟨"stimulus", []⟩, ⟨"target", []⟩, ⟨"actions", []⟩]

def Transition.ofValue? (value : Value) : Option Transition := do
  let [some stimulus, some target, actions] ← value.section? form | none
  return {
    stimulus := ← stimulus.string?
    target := ← target.string?
    actions := ← Value.orDefault [] (Value.list? Value.string?) actions }

def Lifecycle.form : SectionForm where
  members := [⟨"attribute", []⟩, ⟨"states", []⟩, ⟨"transitions", []⟩]

def Lifecycle.ofValue? (value : Value) : Option Lifecycle := do
  let [driver, states, transitions] ← value.section? form | none
  return {
    driver := ← textOr "" driver
    states := ← Value.orDefault [] (Value.list? State.ofValue?) states
    transitions := ← Value.orDefault [] (Value.list? Transition.ofValue?) transitions }

def Method.form : SectionForm where
  members := [⟨"name", []⟩, ⟨"type", []⟩, ⟨"code", []⟩]

def Method.ofValue? (value : Value) : Option Method := do
  let [some name, kind, code] ← value.section? form | none
  return {
    name := ← name.string?
    kind := ← Value.orDefault .overload (Value.word? MethodKind.ofName?) kind
    code := ← textOr "" code }

def Index.form : SectionForm where
  members := [⟨"name", []⟩, ⟨"fields", []⟩]

def Index.ofValue? (value : Value) : Option Index := do
  let [some name, some fields] ← value.section? form | none
  return {
    name := ← name.string?
    fields := (← Listing.ofValue? fields).entries }

def Relation.form : SectionForm where
  members := [⟨"type", []⟩, ⟨"neighbour_class", []⟩, ⟨"query_down", []⟩, ⟨"query_up", []⟩]

def Relation.ofValue? (value : Value) : Option Relation := do
  let [kind, some neighbour, queryDown, queryUp] ← value.section? form | none
  return {
    kind := ← Value.orDefault .impacts (Value.word? RelationKind.ofName?) kind
    neighbour := ← neighbour.string?
    queryDown := ← textOr "" queryDown
    queryUp := ← textOr "" queryUp }

def MenuEntry.form : SectionForm where
  members := [⟨"type", []⟩, ⟨"parent", []⟩, ⟨"rank", []⟩, ⟨"oql", []⟩]

def MenuEntry.ofValue? (value : Value) : Option MenuEntry := do
  let [kind, parent, rank, query] ← value.section? form | none
  return {
    kind := ← Value.orDefault .query (Value.word? MenuKind.ofName?) kind
    parent := ← textOr "" parent
    rank := ← Value.orDefault 0 Value.int64? rank
    query := ← textOr "" query }

def Profile.form : SectionForm where
  members := [⟨"name", []⟩, ⟨"rights", []⟩]

def Profile.ofValue? (value : Value) : Option Profile := do
  let [some name, rights] ← value.section? form | none
  return {
    name := ← name.string?
    rights := ← Value.orDefault [] (Value.map? (Value.word? Right.ofName?)) rights }

def Branding.form : SectionForm where
  members := [⟨"logo", []⟩, ⟨"main_color", []⟩, ⟨"complementary_color", []⟩]

def Branding.ofValue? (value : Value) : Option Branding := do
  let [logo, mainColor, complementaryColor] ← value.section? form | none
  return {
    logo := ← textOr "" logo
    mainColor := ← textOr "" mainColor
    complementaryColor := ← textOr "" complementaryColor }

namespace Draft

def form : SectionForm where
  members := [⟨"name", []⟩, ⟨"parent", []⟩, ⟨"properties", []⟩, ⟨"fields", []⟩, ⟨"lifecycle", []⟩,
    ⟨"methods", []⟩, ⟨"indexes", []⟩, ⟨"relations", []⟩, ⟨"menu", []⟩, ⟨"user_rights", []⟩,
    ⟨"branding", []⟩]
  isClosed := true

/-- The draft that the members of a document make. -/
def ofMembers? (members : List (String × Value)) : Option Draft := do
  let [some name, parent, properties, fields, lifecycle, methods, indexes, relations,
    menu, profiles, branding] ← (Value.table members).section? form | none
  return {
    name := ← name.string?
    parent := ← textOr defaultParent parent
    properties := ← Value.orDefault {} Properties.ofValue? properties
    fields := ← Value.orDefault [] (Value.list? DraftField.ofValue?) fields
    lifecycle := ← Value.optional Lifecycle.ofValue? lifecycle
    methods := ← Value.orDefault [] (Value.list? Method.ofValue?) methods
    indexes := ← Value.orDefault [] (Value.list? Index.ofValue?) indexes
    relations := ← Value.orDefault [] (Value.list? Relation.ofValue?) relations
    menu := ← Value.optional MenuEntry.ofValue? menu
    profiles := ← Value.orDefault [] (Value.list? Profile.ofValue?) profiles
    branding := ← Value.optional Branding.ofValue? branding }

end Draft

end Datamodel
