import Datamodel.Storage.Basic

/-!
# Writing into storage

Before a file is written, the directories that its path leads through are made where they are
missing. They are made one after another and stay there when a later step fails, but none is made
where the path that leads to the last of them cannot be one. The file itself is written as a whole
or not at all: the path must not be too long, its last name has to be one that a file can have, and
no directory may stand there. Nothing that stood anywhere else is changed.
-/

namespace Datamodel.Storage

/-- Follows names from a position and makes the directories that are missing: the position they lead
to, unless a file is in the way or a name cannot be used, and the storage afterwards. -/
def enter (storage : Storage) (position : Position) : PathNames → Option Position × Storage
  | [] => (some position, storage)
  | name :: names =>
    if name = ".." then storage.enter position.tail names
    else
      match storage.node? (name :: position) with
      | some .directory => storage.enter (name :: position) names
      | some (.file _) => (none, storage)
      | none =>
        if isUsableName name then
          (storage.set (name :: position) .directory).enter (name :: position) names
        else (none, storage)

def isWritable (storage : Storage) (position : Position) (name : String) : Bool :=
  !isStay name && name != ".." && isUsableName name && !storage.isDirectory (name :: position)

/-- The names of the path that leads to the directory of a file: those before the last name that
goes anywhere. -/
def parentNames (names : PathNames) : PathNames :=
  ((names.reverse.dropWhile isStay).tail.dropWhile isStay).reverse

/-- Whether the directories of a path can be made as far as its text tells. -/
def areParents (names : PathNames) : Bool :=
  decide (pathSize names ≤ longestPath) && !names.any (·.toList.contains '\x00')

/-- Writes a file: whether it was written, and the storage afterwards. -/
def write (storage : Storage) (path : String) (content : ByteArray) : Bool × Storage :=
  let names := pathNames path
  let parents := parentNames names
  if !areParents parents then (false, storage)
  else
    match storage.enter (storage.start path) (parents.filter (!isStay ·)) with
    | (none, storage) => (false, storage)
    | (some position, storage) =>
      let name := names.getLastD ""
      if pathSize names ≤ longestPath && storage.isWritable position name then
        (true, storage.set (name :: position) (.file content))
      else (false, storage)

/-- Making directories leaves everything that was there. -/
theorem node?_enter {storage : Storage} {position other : Position} {names : PathNames}
    {node : StorageNode} (h : storage.node? other = some node) :
    (storage.enter position names).2.node? other = some node := by
  fun_induction enter storage position names with
  | case1 => exact h
  | case2 _ _ _ ih => exact ih h
  | case3 _ _ _ _ _ _ ih => exact ih h
  | case4 => exact h
  | case5 storage position name names _ missing _ ih =>
    refine ih ?_
    rw [node?_set storage (List.cons_ne_nil name position)]
    split
    · rename_i heq
      rw [heq, missing] at h
      exact absurd h (by simp)
    · exact h
  | case6 => exact h

end Datamodel.Storage
