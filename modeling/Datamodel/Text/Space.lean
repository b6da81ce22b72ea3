import Datamodel.Text.Basic

/-!
# White space of any script

The characters with the Unicode property `White_Space`, and the removal of them from both ends of a
text.
-/

namespace Datamodel.Text

def isSpace (c : Char) : Bool :=
  let n := c.toNat
  (9 ≤ n && n ≤ 13) || n == 0x20 || n == 0x85 || n == 0xA0 || n == 0x1680 ||
    (0x2000 ≤ n && n ≤ 0x200A) || n == 0x2028 || n == 0x2029 || n == 0x202F || n == 0x205F ||
    n == 0x3000

/-- The text without white space at its ends. -/
def trim (s : List Char) : List Char :=
  dropEndWhile isSpace (s.dropWhile isSpace)

def trimmed (s : String) : String :=
  String.ofList (trim s.toList)

end Datamodel.Text
