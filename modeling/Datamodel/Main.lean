import Datamodel.Command.Running

/-!
# The program

Files are reached on the disk here, and nothing is decided: an action that fails means that there is
nothing to read, or that a file could not be written.
-/

namespace Datamodel

def succeeds (action : IO α) : IO Bool := do
  try
    let _ ← action
    return true
  catch _ => return false

/-- The directory that a path leads through before its last name, if any. -/
def parentPath? (path : String) : Option String :=
  let names := (Text.splitOn '/' path.toList).map String.ofList
  let above := ((names.reverse.dropWhile Storage.isStay).drop 1).reverse
  let parent := "/".intercalate above
  if parent.isEmpty then none else some parent

def diskAccess : FileAccess IO where
  read path := do
    try return some (← IO.FS.readBinFile path)
    catch _ => return none
  contains path := succeeds (IO.FS.realPath path)
  write path content := succeeds do
    match parentPath? path with
    | some parent => IO.FS.createDirAll parent
    | none => pure ()
    IO.FS.writeBinFile path content

end Datamodel

def main (args : List String) : IO UInt32 := do
  let outcome ← Datamodel.runCommandLine Datamodel.diskAccess args
  let printed := outcome.printed
  IO.eprint printed.errors
  IO.print printed.output
  return outcome.status.toUInt32
