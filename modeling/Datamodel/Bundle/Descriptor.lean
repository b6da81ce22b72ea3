import Datamodel.Text.Space

/-!
# Module descriptors

The descriptor of a module registers it by a call whose arguments name it, among much else. The name
and the version are looked for in the text, which is not read as a program: after the opening of the
first registration, the first place counts where the key, an arrow and the opening of a quoted value
stand in a row, white space allowed around the arrow, and where the value is closed on its line.
What cannot be found is replaced by a placeholder.
-/

namespace Datamodel

/-- What follows `mark` at the front of a text. -/
def Text.afterMark? (mark s : List Char) : Option (List Char) :=
  if mark.isPrefixOf s then some (s.drop mark.length) else none

/-- A key of a registration and the text that opens its value. -/
structure RegistrationKey where
  key : List Char
  opening : List Char

def registration : List Char :=
  "SetupWebPage::AddModule(".toList

namespace RegistrationKey

/-- The key of the module's name, whose value is looked up in a dictionary. -/
def label : RegistrationKey :=
  ⟨"'label'".toList, "Dict::S('".toList⟩

def version : RegistrationKey :=
  ⟨"'version'".toList, "'".toList⟩

/-- The value up to the next quote, unless the line ends first. -/
def value? : List Char → Option (List Char)
  | [] => none
  | c :: s =>
    if c = '\'' then some []
    else if c = '\n' then none
    else (value? s).map (c :: ·)

def valueAt? (key : RegistrationKey) (s : List Char) : Option (List Char) := do
  let s ← Text.afterMark? key.key s
  let s ← Text.afterMark? "=>".toList (s.dropWhile Text.isSpace)
  let s ← Text.afterMark? key.opening (s.dropWhile Text.isSpace)
  value? s

/-- The value of the first place of a key that has one. -/
def firstValue? (key : RegistrationKey) : List Char → Option (List Char)
  | [] => none
  | c :: s => (key.valueAt? (c :: s)).or (firstValue? key s)

/-- The value of a key in the registration of a descriptor. -/
def find? (key : RegistrationKey) (source : List Char) : Option (List Char) :=
  (Text.cutAt registration source).bind fun cut => key.firstValue? cut.2

end RegistrationKey

structure ModuleDescriptor where
  name : String := "Unknown Extension"
  version : String := "Unknown Version"
  deriving DecidableEq, Repr

namespace ModuleDescriptor

def unknown : ModuleDescriptor := {}

def parse (source : List Char) : ModuleDescriptor where
  name := ((RegistrationKey.label.find? source).map String.ofList).getD unknown.name
  version := ((RegistrationKey.version.find? source).map String.ofList).getD unknown.version

end ModuleDescriptor

end Datamodel
