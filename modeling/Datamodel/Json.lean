/-!
# JSON text

The values that the program prints as JSON, and their two layouts: compact, and spread over lines
with an indent of two spaces. Strings escape only the quote, the backslash and the control
characters below the space.
-/

namespace Datamodel

/-- A JSON value. An object keeps its members in the order in which they are printed. -/
inductive Json where
  | bool (value : Bool)
  | str (value : String)
  | arr (values : List Json)
  | obj (members : List (String × Json))
  deriving Inhabited

namespace Json

def stringChar (c : Char) : List Char :=
  if c = '"' then ['\\', '"']
  else if c = '\\' then ['\\', '\\']
  else if c.toNat = 8 then ['\\', 'b']
  else if c = '\t' then ['\\', 't']
  else if c = '\n' then ['\\', 'n']
  else if c.toNat = 12 then ['\\', 'f']
  else if c = '\r' then ['\\', 'r']
  else if c.toNat < 32 then
    ['\\', 'u', '0', '0', Nat.digitChar (c.toNat / 16), Nat.digitChar (c.toNat % 16)]
  else [c]

def quoted (s : String) : List Char :=
  '"' :: s.toList.flatMap stringChar ++ ['"']

def joined (separator : List Char) (parts : List (List Char)) : List Char :=
  (parts.intersperse separator).flatten

mutual

/-- A value without any white space. -/
def compact : Json → List Char
  | .bool value => (if value then "true" else "false").toList
  | .str value => quoted value
  | .arr values => '[' :: joined [','] (compactAll values) ++ [']']
  | .obj members => '\x7b' :: joined [','] (compactMembers members) ++ ['\x7d']

def compactAll : List Json → List (List Char)
  | [] => []
  | value :: values => compact value :: compactAll values

def compactMembers : List (String × Json) → List (List Char)
  | [] => []
  | (key, value) :: members => (quoted key ++ ':' :: compact value) :: compactMembers members

end

/-- A line feed and the indent of `depth` levels. -/
def newline (depth : Nat) : List Char :=
  '\n' :: List.replicate (2 * depth) ' '

/-- Parts inside brackets, each on its own line; brackets without parts stay together. -/
def block (depth : Nat) (left right : Char) (parts : List (List Char)) : List Char :=
  if parts.isEmpty then [left, right]
  else
    left :: joined [','] (parts.map (newline (depth + 1) ++ ·)) ++ newline depth ++ [right]

mutual

/-- A value spread over lines, inside `depth` brackets. -/
def pretty (depth : Nat) : Json → List Char
  | .bool value => (if value then "true" else "false").toList
  | .str value => quoted value
  | .arr values => block depth '[' ']' (prettyAll (depth + 1) values)
  | .obj members => block depth '\x7b' '\x7d' (prettyMembers (depth + 1) members)

def prettyAll (depth : Nat) : List Json → List (List Char)
  | [] => []
  | value :: values => pretty depth value :: prettyAll depth values

def prettyMembers (depth : Nat) : List (String × Json) → List (List Char)
  | [] => []
  | (key, value) :: members =>
    (quoted key ++ ':' :: ' ' :: pretty depth value) :: prettyMembers depth members

end

/-- Sets a member of an object whose keys are in increasing order. -/
def insert (key : String) (value : Json) : List (String × Json) → List (String × Json)
  | [] => [(key, value)]
  | (k, v) :: members =>
    if key < k then (key, value) :: (k, v) :: members
    else if key = k then (key, value) :: members
    else (k, v) :: insert key value members

/-- Sets members one after the other, a later one replacing an earlier one of the same key. -/
def insertAll (members object : List (String × Json)) : List (String × Json) :=
  members.foldl (fun object member => insert member.1 member.2 object) object

end Json

end Datamodel
