import Datamodel.Definition.Field
import Datamodel.Definition.Source

/-!
# What can be wrong with a definition

Each way in which a definition is refused, with the places its report points at. The wording stands
in one function per part of the report.
-/

namespace Datamodel

inductive NameFault where
  | empty
  | badStart
  | badCharacter
  deriving DecidableEq, Repr

def NameFault.message : NameFault → String
  | .empty => "name cannot be empty"
  | .badStart => "name must start with a letter or underscore"
  | .badCharacter => "name contains invalid characters"

/-- What only one type of field may carry. -/
inductive Payload where
  | values
  | target
  deriving DecidableEq, Repr

namespace Payload

def key : Payload → String
  | .values => "values"
  | .target => "target_class"

def owner : Payload → FieldType
  | .values => .enumeration
  | .target => .externalKey

end Payload

/-- Why a definition is refused. -/
inductive DefinitionError where
  /-- The file cannot be read as text. -/
  | unreadable (path : String)
  /-- The text is not a document of the right form. -/
  | malformed (file : String)
  | foreignPayload (file field type : String) (payload : Payload) (span : Option Span)
  | invalidName (file context name : String) (fault : NameFault) (span : Option Span)
  | duplicateName (file context name : String) (first second : Option Span)
  | invalid (file message : String) (span : Option Span)
  deriving DecidableEq, Repr

namespace DefinitionError

def message : DefinitionError → String
  | .unreadable path => "failed to read '" ++ path ++ "'"
  | .malformed _ => "failed to parse class definition"
  | .foreignPayload _ field type payload _ =>
    "field '" ++ field ++ "' of type " ++ type ++ " cannot carry '" ++ payload.key ++ "'"
  | .invalidName _ context name _ _ => "invalid " ++ context ++ " name '" ++ name ++ "'"
  | .duplicateName _ context name _ _ => "duplicate " ++ context ++ " '" ++ name ++ "'"
  | .invalid _ message _ => message

def code? : DefinitionError → Option String
  | .unreadable _ => none
  | .malformed _ => some "forge::parse_error"
  | .foreignPayload .. => some "forge::schema_mismatch"
  | .invalidName .. => some "forge::invalid_identifier"
  | .duplicateName .. => some "forge::duplicate_name"
  | .invalid .. => some "forge::validation_error"

def help? : DefinitionError → Option String
  | .unreadable _ => some "pass the path of a class definition with --config"
  | .malformed _ => none
  | .foreignPayload _ _ _ payload _ =>
    some ("'" ++ payload.key ++ "' is only meaningful for " ++ payload.owner.name ++ " fields")
  | .invalidName _ _ _ fault _ =>
    some (fault.message ++
      ". Use only letters, numbers, and underscores, starting with a letter or underscore.")
  | .duplicateName _ context _ _ _ => some ("rename one of the two " ++ context ++ "s")
  | .invalid .. => none

/-- The file an error is about, unless it could not even be read. -/
def file? : DefinitionError → Option String
  | .unreadable _ => none
  | .malformed file => some file
  | .foreignPayload file .. => some file
  | .invalidName file .. => some file
  | .duplicateName file .. => some file
  | .invalid file .. => some file

/-- The places an error points at, each with what is said there. -/
def labels : DefinitionError → List (String × Span)
  | .unreadable _ => []
  | .malformed _ => []
  | .foreignPayload _ _ _ _ span => (span.map ("declared here", ·)).toList
  | .invalidName _ _ _ _ span => (span.map ("invalid identifier", ·)).toList
  | .duplicateName _ _ _ first second =>
    (first.map ("first defined here", ·)).toList ++ (second.map ("defined again here", ·)).toList
  | .invalid _ message span => (span.map (message, ·)).toList

end DefinitionError

end Datamodel
