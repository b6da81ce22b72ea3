/-!
# Fields

A field has a kind, and only two kinds carry anything more: an enumeration its values, and an
external key its target class. So a field with a payload of the wrong kind cannot be represented.
-/

namespace Datamodel

inductive FieldType where
  | string
  | integer
  | enumeration
  | externalKey
  | linkedSet
  | tagSet
  | customFields
  deriving DecidableEq, Repr

namespace FieldType

/-- The platform's name of a field type. -/
def name : FieldType → String
  | .string => "AttributeString"
  | .integer => "AttributeInteger"
  | .enumeration => "AttributeEnum"
  | .externalKey => "AttributeExternalKey"
  | .linkedSet => "AttributeLinkedSet"
  | .tagSet => "AttributeTagSet"
  | .customFields => "AttributeCustomFields"

/-- The field type of a name, the platform's or a short one. -/
def ofName? : String → Option FieldType
  | "AttributeString" | "string" => some .string
  | "AttributeInteger" | "integer" => some .integer
  | "AttributeEnum" | "enum" => some .enumeration
  | "AttributeExternalKey" | "external_key" => some .externalKey
  | "AttributeLinkedSet" | "linked_set" => some .linkedSet
  | "AttributeTagSet" | "tag_set" => some .tagSet
  | "AttributeCustomFields" | "custom_fields" => some .customFields
  | _ => none

end FieldType

/-- The kind of a field with what that kind carries. -/
inductive FieldKind where
  | string
  | integer
  | enumeration (values : List String)
  | externalKey (target : String)
  | linkedSet
  | tagSet
  | customFields
  deriving DecidableEq, Repr

def FieldKind.type : FieldKind → FieldType
  | .string => .string
  | .integer => .integer
  | .enumeration _ => .enumeration
  | .externalKey _ => .externalKey
  | .linkedSet => .linkedSet
  | .tagSet => .tagSet
  | .customFields => .customFields

structure Field where
  name : String
  kind : FieldKind := .string
  nullable : Bool := true
  defaultValue : String := ""
  /-- The column, where it differs from the name. -/
  sql : Option String := none
  deriving DecidableEq, Repr

namespace Field

def type (field : Field) : FieldType :=
  field.kind.type

/-- The column in which a field is stored. -/
def column (field : Field) : String :=
  field.sql.getD field.name

end Field

end Datamodel
