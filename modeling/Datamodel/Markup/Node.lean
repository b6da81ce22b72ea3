import Datamodel.Markup.Escaping
import Datamodel.Markup.Indent

/-!
# What a document is written from

A document to be written is a tree of nodes. A leaf takes one line; an element takes a line for its
start tag, the lines of its content one level deeper, and a line for its end tag. The functions that
write single lines are kept apart from the tree, because the step-by-step builder writes with the
same ones.
-/

namespace Datamodel.Markup

/-- How a document is laid out and how values are embedded in it. -/
structure Style where
  escaping : Escaping := .markup
  indent : Indent := .standard
  deriving DecidableEq, Repr

/-- The names and values written in a start tag, in order. -/
abbrev Attributes := List (String × String)

/-- Whether a text can be written as the tag of an element: a letter or an underscore, then letters,
digits, underscores, hyphens and dots, all of them ASCII. -/
def isTagName (name : String) : Bool :=
  match name.toList with
  | [] => false
  | c :: s =>
    (c.isAlpha || c == '_') && s.all fun c => c.isAlphanum || c == '_' || c == '-' || c == '.'

/-- What takes a single line. -/
inductive Leaf where
  /-- An element that holds only text. -/
  | text (tag : String) (attributes : Attributes) (value : String)
  /-- An element that holds a literal block. -/
  | literal (tag : String) (value : String)
  /-- An element without content. -/
  | empty (tag : String) (attributes : Attributes)
  deriving DecidableEq, Repr

/-- A tree of what is to be written. -/
inductive Node where
  | leaf (row : Leaf)
  | element (tag : String) (attributes : Attributes) (content : List Node)

namespace Style

/-- A line of the document inside `depth` elements. -/
def line (style : Style) (depth : Nat) (content : List Char) : List Char :=
  style.indent.margin depth ++ content ++ ['\n']

/-- One attribute, with the space in front of it. -/
def attributeText (style : Style) (named : String × String) : List Char :=
  ' ' :: named.1.toList ++ "=\"".toList ++ style.escaping.inAttribute named.2.toList ++ ['"']

/-- A start tag up to its closing bracket. -/
def tagHead (style : Style) (tag : String) (attributes : Attributes) : List Char :=
  '<' :: tag.toList ++ attributes.flatMap style.attributeText

def startTag (style : Style) (tag : String) (attributes : Attributes) : List Char :=
  style.tagHead tag attributes ++ ['>']

def endTag (tag : String) : List Char :=
  "</".toList ++ tag.toList ++ ['>']

/-- The line of a leaf, without margin and line feed. -/
def leaf (style : Style) : Leaf → List Char
  | .text tag attributes value =>
    style.startTag tag attributes ++ style.escaping.inText value.toList ++ endTag tag
  | .literal tag value =>
    style.startTag tag [] ++ style.escaping.inLiteral value.toList ++ endTag tag
  | .empty tag attributes =>
    style.tagHead tag attributes ++ "/>".toList

end Style

namespace Node

mutual

/-- The lines of a node inside `depth` elements. -/
def render (style : Style) (depth : Nat) : Node → List Char
  | .leaf row => style.line depth (style.leaf row)
  | .element tag attributes content =>
    style.line depth (style.startTag tag attributes) ++ renderAll style (depth + 1) content ++
      style.line depth (Style.endTag tag)

def renderAll (style : Style) (depth : Nat) : List Node → List Char
  | [] => []
  | node :: nodes => render style depth node ++ renderAll style depth nodes

end

theorem renderAll_append (style : Style) (depth : Nat) (front back : List Node) :
    renderAll style depth (front ++ back) =
      renderAll style depth front ++ renderAll style depth back := by
  induction front with
  | nil => simp [renderAll]
  | cons node front ih => simp [renderAll, ih]

end Node

end Datamodel.Markup
