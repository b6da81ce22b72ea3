import Datamodel.Markup.Node

/-!
# Writing a document step by step

A builder holds the text written so far and the tags of the elements still open, innermost first.
Every line is indented by the number of open elements. Closing with nothing open changes nothing,
and the finished document closes whatever is still open.
-/

namespace Datamodel.Markup

/-- A document being written. -/
structure Builder where
  style : Style := {}
  written : List Char := []
  /-- The tags of the open elements, innermost first. -/
  opened : List String := []

namespace Builder

/-- Writes one line at the current depth. -/
def line (b : Builder) (content : List Char) : Builder :=
  { b with written := b.written ++ b.style.line b.opened.length content }

/-- Writes a start tag; what follows is its content. -/
def openElement (b : Builder) (tag : String) (attributes : Attributes) : Builder :=
  { b.line (b.style.startTag tag attributes) with opened := tag :: b.opened }

/-- Closes the innermost open element, if there is one. -/
def closeElement (b : Builder) : Builder :=
  match b.opened with
  | [] => b
  | tag :: opened => { b with opened }.line (Style.endTag tag)

def leaf (b : Builder) (row : Leaf) : Builder :=
  b.line (b.style.leaf row)

/-- Writes an element around what `content` writes. -/
def element (b : Builder) (tag : String) (attributes : Attributes)
    (content : Builder → Builder) : Builder :=
  (content (b.openElement tag attributes)).closeElement

def when (b : Builder) (condition : Bool) (content : Builder → Builder) : Builder :=
  if condition then content b else b

def each {α : Type} (b : Builder) (items : List α) (content : Builder → α → Builder) : Builder :=
  items.foldl content b

/-- The end tags that the open elements still need, innermost first. -/
def pending (style : Style) : List String → List Char
  | [] => []
  | tag :: opened => style.line opened.length (Style.endTag tag) ++ pending style opened

def build (b : Builder) : String :=
  String.ofList (b.written ++ pending b.style b.opened)

end Builder

end Datamodel.Markup
