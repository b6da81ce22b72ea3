/-!
# Indentation

The white space in front of a line, a fixed amount for each element that is open around it.
-/

namespace Datamodel.Markup

/-- The indentation of one nesting level. -/
inductive Indent where
  /-- So many spaces, fewer than 256. -/
  | spaces (width : UInt8)
  | tab
  deriving DecidableEq, Repr

/-- The layout the platform ships its own documents in. -/
def Indent.standard : Indent :=
  .spaces 2

/-- The white space in front of a line inside `depth` elements. -/
def Indent.margin : Indent → Nat → List Char
  | .spaces width, depth => List.replicate (depth * width.toNat) ' '
  | .tab, depth => List.replicate depth '\t'

theorem Indent.margin_zero (indent : Indent) : indent.margin 0 = [] := by
  cases indent with
  | spaces width => rw [margin, Nat.zero_mul, List.replicate_zero]
  | tab => rfl

end Datamodel.Markup
