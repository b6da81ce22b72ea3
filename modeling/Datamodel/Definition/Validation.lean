import Datamodel.Definition.Draft
import Datamodel.Definition.Error
import Datamodel.Toml.Document

/-!
# From drafts to definitions

A draft becomes a definition when its class, its parent and its fields have proper names, no two
fields share one, every payload belongs to the type of its field, and every index names at least one
field and none that is empty. The first fault in the order of the text is reported; the name of a
field is checked before its payload, and all fields before the indexes.
-/

namespace Datamodel

/-- Where in a definition a check stands: the source and the sections around it. -/
structure Context where
  source : Source
  /-- The sections from the outermost to the innermost. -/
  path : List String := []

namespace Context

def push (context : Context) (segment : String) : Context :=
  { context with path := context.path ++ [segment] }

def pathText (context : Context) : String :=
  ".".intercalate context.path

/-- What a name is the name of, with the section it stands in. -/
def describe (context : Context) (kind : String) : String :=
  if context.path.isEmpty then kind else kind ++ " in '" ++ context.pathText ++ "'"

end Context

/-! ## Names -/

def isNameStart (c : Char) : Bool :=
  c.isAlpha || c == '_'

def isNameChar (c : Char) : Bool :=
  c.isAlphanum || c == '_'

/-- What keeps a text from being an identifier, if anything does. -/
def nameFault? (name : String) : Option NameFault :=
  match name.toList with
  | [] => some .empty
  | c :: s =>
    if !isNameStart c then some .badStart
    else if !s.all isNameChar then some .badCharacter
    else none

namespace Context

def checkName (context : Context) (name kind : String) : Except DefinitionError Unit :=
  match nameFault? name with
  | none => .ok ()
  | some fault =>
    .error (.invalidName context.source.file (context.describe kind) name fault
      (context.source.span? name))

def duplicate (context : Context) (name kind : String) : DefinitionError :=
  let (first, second) := context.source.spans? name
  .duplicateName context.source.file (context.describe kind) name first second

/-- The error about a payload that the type of its field has no use for. -/
def foreignPayload (context : Context) (field type : String) (payload : Payload) :
    DefinitionError :=
  .foreignPayload context.source.file field type payload (context.source.span? field)

def invalid (context : Context) (name message : String) : DefinitionError :=
  .invalid context.source.file message (context.source.span? name)

end Context

/-! ## Fields -/

/-- The kind of a field of this type, with the payload that the type has use for. -/
def FieldType.kind (values : Option Listing) (target : Option String) : FieldType → FieldKind
  | .string => .string
  | .integer => .integer
  | .enumeration => .enumeration ((values.map Listing.entries).getD [])
  | .externalKey => .externalKey (target.getD "")
  | .linkedSet => .linkedSet
  | .tagSet => .tagSet
  | .customFields => .customFields

namespace DraftField

/-- The payload that a field carries against its type, the values counting first. -/
def foreignPayload? (field : DraftField) : Option Payload :=
  if field.values.isSome && field.type != Payload.values.owner then some .values
  else if field.target.isSome && field.type != Payload.target.owner then some .target
  else none

/-- The field of a draft whose payload fits. -/
def toField (field : DraftField) : Field where
  name := field.name
  kind := field.type.kind field.values field.target
  nullable := field.nullable
  defaultValue := field.defaultValue
  sql := field.sql

/-- Checks one field, given the names of the fields before it. -/
def check (context : Context) (seen : List String) (field : DraftField) :
    Except DefinitionError Field := do
  context.checkName field.name "field"
  if seen.contains field.name then
    .error (context.duplicate field.name "field")
  else
    match field.foreignPayload? with
    | some payload => .error (context.foreignPayload field.name field.type.name payload)
    | none => .ok field.toField

def checkAll (context : Context) : (seen : List String) → List DraftField →
    Except DefinitionError (List Field)
  | _, [] => .ok []
  | seen, field :: fields => do
    let checked ← field.check context seen
    let rest ← checkAll context (field.name :: seen) fields
    .ok (checked :: rest)

end DraftField

/-! ## Indexes -/

namespace Index

def fault? (index : Index) : Option String :=
  if index.fields.isEmpty then some ("index '" ++ index.name ++ "' has no fields")
  else
    (index.fields.findIdx? (·.isEmpty)).map fun place =>
      "index '" ++ index.name ++ "' has an empty field name at position " ++ toString place

def checkAll (context : Context) : List Index → Except DefinitionError Unit
  | [] => .ok ()
  | index :: indexes =>
    match index.fault? with
    | some message => .error (context.invalid index.name message)
    | none => checkAll context indexes

end Index

/-! ## Definitions -/

/-- The definition of a draft, or its first fault. -/
def Draft.validate (draft : Draft) (source : Source) : Except DefinitionError ClassDefinition := do
  let context : Context := { source }
  context.checkName draft.name "class"
  context.checkName draft.parent "parent class"
  let fields ← DraftField.checkAll (context.push "fields") [] draft.fields
  Index.checkAll (context.push "indexes") draft.indexes
  return {
    name := draft.name
    parent := draft.parent
    properties := draft.properties
    fields
    lifecycle := draft.lifecycle
    methods := draft.methods
    indexes := draft.indexes
    relations := draft.relations
    menu := draft.menu
    profiles := draft.profiles
    branding := draft.branding }

def Source.draft? (source : Source) : Option Draft :=
  (Toml.parse? source.text.toList).bind Draft.ofMembers?

/-- The definition that a source says. A source that is no draft is refused before anything in it is
checked. -/
def Source.definition (source : Source) : Except DefinitionError ClassDefinition :=
  match source.draft? with
  | none => .error (.malformed source.file)
  | some draft => draft.validate source

end Datamodel
