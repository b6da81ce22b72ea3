import Datamodel.Toml.Value

/-!
# Tables while a document is read

How a table came into being decides how it may be extended later. A table with a header of its own
is complete: dotted keys do not reach into it and it takes no second header. A table that exists
only because the header of a table inside it was seen may still get its own header, once. A table
made by a dotted key is extended by dotted keys and by headers of tables inside it, but takes no
header itself. An array of tables is extended by its own headers, and a path through it leads to its
last table. Anything written as a value, inline tables included, is closed.
-/

namespace Datamodel.Toml

/-- How a table came into being. -/
inductive Origin where
  /-- By its own header; the document itself counts among these. -/
  | header
  /-- By the header of a table inside it. -/
  | implied
  /-- By a dotted key. -/
  | dotted
  deriving DecidableEq, Repr

/-- What a key stands for while the document is read. -/
inductive Entry where
  | value (value : Value)
  | table (origin : Origin) (entries : List (String × Entry))
  /-- An array of tables; the last one is open. -/
  | tables (elements : List (List (String × Entry)))
  deriving Inhabited

/-- The entries of a table in the order in which their keys came. -/
abbrev Entries := List (String × Entry)

mutual

def Entry.toValue : Entry → Value
  | .value value => value
  | .table _ entries => .table (membersOf entries)
  | .tables elements => .array (tablesOf elements)

def membersOf : List (String × Entry) → List (String × Value)
  | [] => []
  | (key, entry) :: entries => (key, entry.toValue) :: membersOf entries

def tablesOf : List (List (String × Entry)) → List Value
  | [] => []
  | entries :: elements => .table (membersOf entries) :: tablesOf elements

end

namespace Entries

def get? (entries : Entries) (key : String) : Option Entry :=
  (entries.find? (·.1 == key)).map (·.2)

def replace (entries : Entries) (key : String) (entry : Entry) : Entries :=
  entries.map fun old => if old.1 == key then (key, entry) else old

def erase (entries : Entries) (key : String) : Entries :=
  entries.filter (·.1 != key)

/-- Follows a path from a table, creating the tables that are missing, and changes the table at its
end. `byDots` tells a dotted key from a header. -/
def reach {α : Type} (byDots : Bool) (change : Origin → Entries → Option (Entries × α)) :
    (path : List String) → Origin → Entries → Option (Entries × α)
  | [], origin, entries => change origin entries
  | key :: path, _, entries =>
    match get? entries key with
    | none => do
      let origin := if byDots then Origin.dotted else .implied
      let (inner, result) ← reach byDots change path origin []
      some (entries ++ [(key, .table origin inner)], result)
    | some (.value _) => none
    | some (.table origin inner) => do
      guard !(byDots && origin == .header)
      let (inner, result) ← reach byDots change path origin inner
      some (replace entries key (.table origin inner), result)
    | some (.tables elements) => do
      let last ← elements.getLast?
      let (last, result) ← reach byDots change path .header last
      some (replace entries key (.tables (elements.dropLast ++ [last])), result)

/-- Sets a key to a value. The key is new, and it is reached by dots exactly where its table was
made by dots. -/
def setValue (entries : Entries) (path : List String) (key : String) (value : Value) :
    Option Entries := do
  let change (origin : Origin) (entries : Entries) : Option (Entries × Unit) := do
    guard ((origin == .dotted) == !path.isEmpty)
    guard (get? entries key).isNone
    some (entries ++ [(key, .value value)], ())
  let (entries, _) ← reach true change path .header entries
  some entries

/-- Opens the table of a header: takes it out of the document with what is already known of it. -/
def takeTable (entries : Entries) (path : List String) (key : String) :
    Option (Entries × Entries) :=
  reach false (fun _ entries =>
    match get? entries key with
    | none => some (entries, [])
    | some (.table .implied inner) => some (erase entries key, inner)
    | some _ => none) path .header entries

/-- Makes sure that the array of tables of a header exists. -/
def openTables (entries : Entries) (path : List String) (key : String) : Option Entries := do
  let change (_ : Origin) (entries : Entries) : Option (Entries × Unit) :=
    match get? entries key with
    | none => some (entries ++ [(key, .tables [])], ())
    | some (.tables _) => some (entries, ())
    | some _ => none
  let (entries, _) ← reach false change path .header entries
  some entries

def putTable (entries : Entries) (path : List String) (key : String) (table : Entries) :
    Option Entries := do
  let change (_ : Origin) (entries : Entries) : Option (Entries × Unit) :=
    some (entries ++ [(key, .table .header table)], ())
  let (entries, _) ← reach false change path .header entries
  some entries

/-- Puts one more table into the array of tables of a header. -/
def pushTable (entries : Entries) (path : List String) (key : String) (table : Entries) :
    Option Entries := do
  let change (_ : Origin) (entries : Entries) : Option (Entries × Unit) :=
    match get? entries key with
    | some (.tables elements) =>
      some (replace entries key (.tables (elements ++ [table])), ())
    | _ => none
  let (entries, _) ← reach false change path .header entries
  some entries

end Entries

end Datamodel.Toml
