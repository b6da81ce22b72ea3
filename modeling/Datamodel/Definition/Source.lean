import Datamodel.Text.Basic

/-!
# Places in the source of a definition

An error about a name points at the name in the text the author wrote. A name is looked for between
double quotes first, then between single quotes, then bare, each time anywhere in the text; the
quotes do not belong to the place. Offsets and lengths are counted in bytes.
-/

namespace Datamodel

/-- A range of bytes of a source. -/
structure Span where
  offset : Nat
  length : Nat
  deriving DecidableEq, Repr

def Span.stop (span : Span) : Nat :=
  span.offset + span.length

structure Source where
  text : String
  file : String
  deriving DecidableEq, Repr

/-- The text from a byte offset on, where a character starts there. -/
def Text.dropSize? : Nat → List Char → Option (List Char)
  | 0, s => some s
  | _ + 1, [] => none
  | n + 1, c :: s => if c.utf8Size ≤ n + 1 then dropSize? (n + 1 - c.utf8Size) s else none

/-- The byte offset of the first occurrence of `part`. -/
def Text.offsetOf? (part s : List Char) : Option Nat :=
  (Text.cutAt part s).map fun cut => Text.size cut.1

namespace Span

/-- The first place of a name in a text that starts at byte `start` of its source. -/
def find? (name text : List Char) (start : Nat) : Option Span :=
  let quotedBy (quote : Char) : Option Span :=
    (Text.offsetOf? (quote :: name ++ [quote]) text).map fun offset =>
      ⟨start + offset + 1, Text.size name⟩
  let bare : Option Span :=
    (Text.offsetOf? name text).map fun offset => ⟨start + offset, Text.size name⟩
  (quotedBy '"').or ((quotedBy '\'').or bare)

end Span

namespace Source

/-- The first place of a name from byte `start` on. An empty name has none. -/
def spanFrom? (source : Source) (name : String) (start : Nat) : Option Span :=
  if name.isEmpty ∨ start ≥ Text.size source.text.toList then none
  else do
    let text ← Text.dropSize? start source.text.toList
    Span.find? name.toList text start

def span? (source : Source) (name : String) : Option Span :=
  source.spanFrom? name 0

/-- The first place of a name and the next one after it. -/
def spans? (source : Source) (name : String) : Option Span × Option Span :=
  let first := source.span? name
  (first, first.bind fun span => source.spanFrom? name span.stop)

end Source

end Datamodel
