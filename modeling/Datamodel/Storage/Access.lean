import Datamodel.Storage.Writing

/-!
# Access to files

What a program does with files, whether they are on a disk or in a storage value: reading one,
asking whether a path leads anywhere, and writing one together with the directories above it. An
output file carries the rule that says whether it may replace what is there already.
-/

namespace Datamodel

/-- The ways to reach files. -/
structure FileAccess (m : Type → Type) where
  /-- The content of a file, if there is one that can be read. -/
  read : String → m (Option ByteArray)
  /-- Whether a path leads to anything. -/
  contains : String → m Bool
  /-- Writes a file and says whether that went well. -/
  write : String → ByteArray → m Bool

def Storage.access : FileAccess (StateM Storage) where
  read path storage := (storage.read path, storage)
  contains path storage := (storage.contains path, storage)
  write path content storage := storage.write path content

/-- Whether an output file may replace what is there. -/
inductive Overwrite where
  | always
  | ifMissing
  deriving DecidableEq, Repr

/-- What became of an output file. -/
inductive WriteResult where
  | written
  /-- Something was there already and was kept. -/
  | skipped
  | failed
  deriving DecidableEq, Repr

/-- A text that is to be written to a path. -/
structure OutputFile where
  path : String
  content : String
  overwrite : Overwrite := .ifMissing
  deriving DecidableEq, Repr

namespace OutputFile

variable {m : Type → Type} [Monad m]

/-- Writes a file without asking what is there. -/
def replace (files : FileAccess m) (file : OutputFile) : m WriteResult := do
  return if ← files.write file.path file.content.toUTF8 then .written else .failed

def write (files : FileAccess m) (file : OutputFile) : m WriteResult :=
  match file.overwrite with
  | .always => file.replace files
  | .ifMissing => do
    if ← files.contains file.path then return .skipped else file.replace files

end OutputFile

end Datamodel
