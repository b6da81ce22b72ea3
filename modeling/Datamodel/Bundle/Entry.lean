import Datamodel.Bundle.Descriptor

/-!
# The entries a bundle is read for

Of all the entries of a bundle two matter: its datamodel document and its module descriptor. They
are recognised by their names.
-/

namespace Datamodel

def isDatamodelEntry (name : String) : Bool :=
  ".xml".toList.isSuffixOf name.toList && Text.contains "datamodel".toList name.toList

/-- The part of an entry's name after its last slash. -/
def fileName (name : List Char) : List Char :=
  (name.reverse.takeWhile (· != '/')).reverse

/-- Whether an entry of this name is a module descriptor: its file name is `module.`, a name that is
not empty, and `.php`. -/
def isDescriptorEntry (name : String) : Bool :=
  match Text.afterMark? "module.".toList (fileName name.toList) with
  | none => false
  | some rest => ".php".toList.isSuffixOf rest && decide (".php".length < rest.length)

end Datamodel
