import Datamodel.Toml.Quoted
import Datamodel.Toml.Table

/-!
# Reading a configuration file

A document is a sequence of lines: settings, headers, blank lines and comments. Values may be nested
at most eighty deep, and at most eighty keys may be joined by dots. Arrays and inline tables may be
spread over lines, with comments and with a comma after their last item; in an inline table this
holds around the equals signs too. The reader answers the members of the document, or nothing where
the text is not one.
-/

namespace Datamodel.Toml

/-! ## Keys -/

def isKeyChar (c : Char) : Bool :=
  c.isAlphanum || c == '_' || c == '-'

def key? : List Char → Option (String × List Char)
  | '"' :: s => (basic s).map fun found => (String.ofList found.1, found.2)
  | '\'' :: s => (literal s).map fun found => (String.ofList found.1, found.2)
  | s =>
    let word := s.takeWhile isKeyChar
    if word.isEmpty then none else some (String.ofList word, s.dropWhile isKeyChar)

def dropBlanks (s : List Char) : List Char :=
  s.dropWhile isLineBlank

/-- How many keys may be joined by dots, and how deep values may be nested. -/
def maxDepth : Nat :=
  80

/-- At most `count` keys joined by dots, blanks allowed around them: the path, the last key, and
what follows. -/
def keysUpTo? : (count : Nat) → List Char → Option (List String × String × List Char)
  | 0, _ => none
  | count + 1, s => do
    let (key, s) ← key? (dropBlanks s)
    match dropBlanks s with
    | '.' :: s => do
      let (path, last, s) ← keysUpTo? count s
      some (key :: path, last, s)
    | s => some ([], key, s)

def keys? (s : List Char) : Option (List String × String × List Char) :=
  keysUpTo? maxDepth s

/-! ## Blank lines and comments -/

/-- The text after blanks, line ends and comments; a comment holds no control characters. -/
def trivia : (inComment : Bool) → List Char → Option (List Char)
  | _, [] => some []
  | _, '\n' :: s => trivia false s
  | _, '\r' :: '\n' :: s => trivia false s
  | true, c :: s => if isPlain c then trivia true s else none
  | false, '#' :: s => trivia true s
  | false, c :: s => if isLineBlank c then trivia false s else some (c :: s)

/-- The text from the next line on, where nothing but blanks and a comment is left on this one. -/
def lineEnd : (inComment : Bool) → List Char → Option (List Char)
  | _, [] => some []
  | _, '\n' :: s => some s
  | _, '\r' :: '\n' :: s => some s
  | true, c :: s => if isPlain c then lineEnd true s else none
  | false, '#' :: s => lineEnd true s
  | false, c :: s => if isLineBlank c then lineEnd false s else none

/-! ## Values -/

/-- A value that holds no others, and what follows it. -/
def scalar? (s : List Char) : Option (Value × List Char) :=
  match s with
  | '"' :: _ => (quoted? s).map fun found => (.string (String.ofList found.1), found.2)
  | '\'' :: _ => (quoted? s).map fun found => (.string (String.ofList found.1), found.2)
  | _ =>
    let (word, rest) := splitWord s
    (word? word).map fun value => (value, rest)

/-- The items of an array up to its closing bracket. Each round of `fuel` reads one item, so the
length of the text is enough. -/
def items? (item : List Char → Option (Value × List Char)) :
    (fuel : Nat) → List Char → Option (List Value × List Char)
  | 0, _ => none
  | fuel + 1, s => do
    match ← trivia false s with
    | ']' :: s => some ([], s)
    | s => do
      let (value, s) ← item s
      match ← trivia false s with
      | ']' :: s => some ([value], s)
      | ',' :: s => do
        let (values, s) ← items? item fuel s
        some (value :: values, s)
      | _ => none

/-- A setting: the path, the key, its value and what follows. `gap` reads what may stand around the
equals sign. -/
def setting? (gap : List Char → Option (List Char)) (value : List Char → Option (Value × List Char))
    (s : List Char) : Option (List String × String × Value × List Char) := do
  let (path, key, s) ← keys? s
  let '=' :: s ← gap s | none
  let (value, s) ← value (← gap s)
  some (path, key, value, s)

/-- The settings of an inline table up to its closing brace, added to those before. Each round of
`fuel` reads one setting. -/
def settings? (value : List Char → Option (Value × List Char)) :
    (fuel : Nat) → Entries → List Char → Option (Entries × List Char)
  | 0, _, _ => none
  | fuel + 1, entries, s => do
    match ← trivia false s with
    | '\x7d' :: s => some (entries, s)
    | s => do
      let (path, key, found, s) ← setting? (trivia false) value s
      let entries ← entries.setValue path key found
      match ← trivia false s with
      | '\x7d' :: s => some (entries, s)
      | ',' :: s => settings? value fuel entries s
      | _ => none

/-- A value with at most `depth` values around its innermost one, and what follows it. -/
def value? : (depth : Nat) → List Char → Option (Value × List Char)
  | 0, s => scalar? s
  | depth + 1, s =>
    match s with
    | '[' :: s =>
      (items? (value? depth) (s.length + 1) s).map fun found => (.array found.1, found.2)
    | '\x7b' :: s =>
      (settings? (value? depth) (s.length + 1) [] s).map
        fun found => (.table (membersOf found.1), found.2)
    | s => scalar? s

/-! ## The document -/

/-- The header of a table, or of one table of an array. -/
structure Header where
  path : List String
  key : String
  repeated : Bool

/-- The keys of a header after its opening brackets, and what follows its closing ones. -/
def header? : List Char → Option (Header × List Char)
  | '[' :: s => do
    let (path, key, s) ← keys? s
    let ']' :: ']' :: s := s | none
    some (⟨path, key, true⟩, s)
  | s => do
    let (path, key, s) ← keys? s
    let ']' :: s := s | none
    some (⟨path, key, false⟩, s)

/-- A document partly read: what is complete, and the table under the last header. -/
structure Building where
  done : Entries := []
  header : Option Header := none
  current : Entries := []

namespace Building

/-- Adds the current table to what is complete. -/
def close (building : Building) : Option Entries :=
  match building.header with
  | none => some building.current
  | some header =>
    if header.repeated then
      building.done.pushTable header.path header.key building.current
    else
      building.done.putTable header.path header.key building.current

def start (building : Building) (header : Header) : Option Building := do
  let done ← building.close
  if header.repeated then
    let done ← done.openTables header.path header.key
    some { done, header := some header }
  else
    let (done, current) ← done.takeTable header.path header.key
    some { done, header := some header, current }

/-- Reads lines up to the end of the text. Each round of `fuel` reads at least one character. -/
def lines (building : Building) : (fuel : Nat) → List Char → Option Entries
  | 0, _ => none
  | fuel + 1, s => do
    match ← trivia false s with
    | [] => building.close
    | '[' :: s => do
      let (header, s) ← header? s
      let s ← lineEnd false s
      (← building.start header).lines fuel s
    | s => do
      let (path, key, value, s) ← setting? (some ∘ dropBlanks) (value? maxDepth) s
      let s ← lineEnd false s
      let current ← building.current.setValue path key value
      { building with current }.lines fuel s

end Building

def dropMark : List Char → List Char
  | '\uFEFF' :: s => s
  | s => s

def parse? (source : List Char) : Option (List (String × Value)) :=
  let s := dropMark source
  (({} : Building).lines (s.length + 1) s).map membersOf

end Datamodel.Toml
