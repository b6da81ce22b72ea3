/-!
# Values of a configuration file

What a TOML document says once it is read. Tables keep their members in the order of appearance. Of
a float only its range matters here, and of a date or time only that it is one: no setting takes
either. An integer is read no sooner than it is needed, so that a misspelt one is a value like
others where nobody looks at it.
-/

namespace Datamodel.Toml

inductive Value where
  | string (value : String)
  | integer (value : Int)
  /-- A word in the form of an integer that stands for none. -/
  | misspelt
  /-- A float, which may be too large to be represented. -/
  | float (fits : Bool)
  | boolean (value : Bool)
  /-- A date, a time of day or both. -/
  | moment
  | array (values : List Value)
  | table (members : List (String × Value))
  deriving Inhabited

namespace Value

mutual

/-- Whether a value can be passed over: its integers are spelt right and have at most 128 bits,
signed or not, and its floats are in range. -/
def isReadable : Value → Bool
  | .misspelt => false
  | .integer value =>
    decide (-0x80000000000000000000000000000000 ≤ value) &&
      decide (value < 0x100000000000000000000000000000000)
  | .float fits => fits
  | .array values => areReadable values
  | .table members => membersReadable members
  | _ => true

def areReadable : List Value → Bool
  | [] => true
  | value :: values => isReadable value && areReadable values

def membersReadable : List (String × Value) → Bool
  | [] => true
  | (_, value) :: members => isReadable value && membersReadable members

end

end Value

end Datamodel.Toml
