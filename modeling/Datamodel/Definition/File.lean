import Datamodel.Definition.Validation
import Datamodel.Storage.Access
import Datamodel.Text.Utf8

/-!
# Definition files

A definition is loaded by its path. The path as it was given is the name of the source in every
error.
-/

namespace Datamodel

structure DefinitionFile where
  path : String
  text : String
  definition : ClassDefinition
  deriving DecidableEq, Repr

/-- The definition in what was read at a path: nothing, or bytes that need not be text. -/
def DefinitionFile.ofContent (path : String) (content : Option ByteArray) :
    Except DefinitionError DefinitionFile :=
  match content.bind Text.decode? with
  | none => .error (.unreadable path)
  | some chars => do
    let source : Source := { text := String.ofList chars, file := path }
    return { path, text := source.text, definition := ← source.definition }

def DefinitionFile.load {m : Type → Type} [Monad m] (files : FileAccess m) (path : String) :
    m (Except DefinitionError DefinitionFile) :=
  return DefinitionFile.ofContent path (← files.read path)

end Datamodel
