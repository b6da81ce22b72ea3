import Datamodel.Text.Basic

/-!
# Storage

The files and directories of a file system, as a value. A position in it is the list of the names
that lead there from the root. A path is followed name by name, from the root if it begins with a
slash and else from the current directory: a step needs a directory to start from, a single dot or
an empty name stays where it is, and two dots go back, though not beyond the root. A path that is
empty or too long leads nowhere.
-/

namespace Datamodel

/-- A position: the names that lead to it from the root, the last one first. The root has none. -/
abbrev Position := List String

inductive StorageNode where
  | file (content : ByteArray)
  | directory

/-- Files and directories with their positions. Where a position is given twice, the first entry
counts. The root is always a directory. -/
structure Storage where
  entries : List (Position × StorageNode) := []
  /-- Where a path starts that does not begin with a slash. -/
  current : Position := []

namespace Storage

def node? (storage : Storage) : Position → Option StorageNode
  | [] => some .directory
  | position => storage.entries.lookup position

def set (storage : Storage) (position : Position) (node : StorageNode) : Storage :=
  { storage with entries := (position, node) :: storage.entries }

theorem node?_set (storage : Storage) {position : Position} (h : position ≠ []) (node : StorageNode)
    (other : Position) :
    (storage.set position node).node? other =
      if other = position then some node else storage.node? other := by
  cases other with
  | nil => simp [node?, h.symm]
  | cons name outer =>
    by_cases hp : name :: outer = position
    · simp [node?, set, hp]
    · simp [node?, set, hp, List.lookup_cons, beq_eq_false_iff_ne.2 hp]

def isDirectory (storage : Storage) (position : Position) : Bool :=
  match storage.node? position with
  | some .directory => true
  | _ => false

end Storage

/-! ## Paths -/

abbrev PathNames := List String

/-- The longest path, in bytes. -/
def longestPath : Nat :=
  4095

/-- The names of a path, the first of them empty where it begins with a slash. -/
def pathNames (path : String) : PathNames :=
  (Text.splitOn '/' path.toList).map String.ofList

def pathSize (names : PathNames) : Nat :=
  names.foldr (fun name size => Text.size name.toList + 1 + size) 0 - 1

/-- The longest name of a file or directory, in bytes. -/
def longestName : Nat :=
  255

def isUsableName (name : String) : Bool :=
  decide (Text.size name.toList ≤ longestName) && !name.toList.contains '\x00'

namespace Storage

/-- Whether a name stays at the directory it is looked up in. -/
def isStay (name : String) : Bool :=
  name == "" || name == "."

def start (storage : Storage) (path : String) : Position :=
  if path.toList.head? = some '/' then [] else storage.current

/-- The position that names lead to from a position. -/
def walk (storage : Storage) (position : Position) : PathNames → Option Position
  | [] => some position
  | name :: names =>
    if !storage.isDirectory position then none
    else if isStay name then storage.walk position names
    else if name = ".." then storage.walk position.tail names
    else if isUsableName name && (storage.node? (name :: position)).isSome then
      storage.walk (name :: position) names
    else none

def resolve? (storage : Storage) (path : String) : Option Position :=
  if path = "" ∨ longestPath < pathSize (pathNames path) then none
  else storage.walk (storage.start path) (pathNames path)

def contains (storage : Storage) (path : String) : Bool :=
  (storage.resolve? path).isSome

def read (storage : Storage) (path : String) : Option ByteArray := do
  match storage.node? (← storage.resolve? path) with
  | some (.file content) => some content
  | _ => none

end Storage

end Datamodel
