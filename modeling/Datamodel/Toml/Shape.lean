import Datamodel.Toml.Value

/-!
# Taking values apart

Settings of known form are read off a value. A section, that is a value with named members, is
written as a table, or as an array of its members in their order; members may be left out where they
have a default. An array may be longer than the section has members, and what is too much is not
looked at. Unknown keys of a table are an error in a closed section and passed over in an open one.
A date or time in the place of a section counts as a table with one unknown key.
-/

namespace Datamodel.Toml

/-- A member of a section: its key, and other keys for the same thing. -/
structure Member where
  key : String
  aliases : List String := []

def Member.matches (member : Member) (key : String) : Bool :=
  member.key == key || member.aliases.contains key

structure SectionForm where
  members : List Member
  /-- Whether unknown keys are an error. -/
  isClosed : Bool := false
  /-- How many members the array form has to have. -/
  least : Nat := 0

namespace Value

/-- The value of a member in a table, where it is there. Two keys for the same member are an
error. -/
def member? (entries : List (String × Value)) (member : Member) : Option (Option Value) :=
  match entries.filter (member.matches ·.1) with
  | [] => some none
  | [(_, value)] => some (some value)
  | _ => none

/-- What a section says of each of its members, in their order. -/
def section? (form : SectionForm) : Value → Option (List (Option Value))
  | .table entries => do
    let unknown := entries.filter fun entry => !form.members.any (·.matches entry.1)
    guard (unknown.all fun entry => !form.isClosed && entry.2.isReadable)
    form.members.mapM (member? entries)
  | .moment => if form.isClosed then none else some (form.members.map fun _ => none)
  | .array values =>
    if values.length < form.least then none
    else some ((List.range form.members.length).map fun place => values[place]?)
  | _ => none

def string? : Value → Option String
  | .string value => some value
  | _ => none

def bool? : Value → Option Bool
  | .boolean value => some value
  | _ => none

/-- An integer of 64 bits with sign. -/
def int64? : Value → Option Int
  | .integer value =>
    if -0x8000000000000000 ≤ value ∧ value < 0x8000000000000000 then some value else none
  | _ => none

def list? {α : Type} (item : Value → Option α) : Value → Option (List α)
  | .array values => values.mapM item
  | _ => none

/-- A table with values of one form under any keys. -/
def map? {α : Type} (item : Value → Option α) : Value → Option (List (String × α))
  | .table entries => entries.mapM fun entry => (item entry.2).map (entry.1, ·)
  | _ => none

/-- One of several words: a string, or a table whose only key is the word and has an empty table or
an empty array as its value. -/
def word? {α : Type} (ofName? : String → Option α) : Value → Option α
  | .string name => ofName? name
  | .table [(name, .table [])] => ofName? name
  | .table [(name, .array [])] => ofName? name
  | _ => none

/-- What a member says, or its default where it is left out. -/
def orDefault {α : Type} (fallback : α) (read : Value → Option α) : Option Value → Option α
  | none => some fallback
  | some value => read value

def optional {α : Type} (read : Value → Option α) : Option Value → Option (Option α)
  | none => some none
  | some value => (read value).map some

end Value

end Datamodel.Toml
