import Datamodel.Text.Basic

/-!
# Embedding values in a document

A value goes into a document as element text, as an attribute value or inside a literal block. Under
`Escaping.markup` the characters that markup reserves are replaced by references, and a literal
block is split wherever its closing mark occurs in the value, so a reader gets the value back. Under
`Escaping.verbatim` every value is written as it is, whatever that does to the document.
-/

namespace Datamodel

inductive Escaping where
  | markup
  | verbatim
  deriving DecidableEq, Repr

namespace Escaping

/-- Element text reserves the ampersand and both angle brackets. -/
def textChar : Char → List Char
  | '&' => "&amp;".toList
  | '<' => "&lt;".toList
  | '>' => "&gt;".toList
  | c => [c]

/-- An attribute value reserves both quotes as well. -/
def attributeChar : Char → List Char
  | '\'' => "&apos;".toList
  | '"' => "&quot;".toList
  | c => textChar c

def inText : Escaping → List Char → List Char
  | .markup, value => value.flatMap textChar
  | .verbatim, value => value

def inAttribute : Escaping → List Char → List Char
  | .markup, value => value.flatMap attributeChar
  | .verbatim, value => value

def literalOpen : List Char :=
  "<![CDATA[".toList

def literalClose : List Char :=
  "]]>".toList

/-- The value with every closing mark cut after its brackets: the block is closed there and another
one opened, so the mark never stands inside one block. -/
def splitClose : List Char → List Char
  | ']' :: ']' :: '>' :: s => "]]".toList ++ literalClose ++ literalOpen ++ '>' :: splitClose s
  | c :: s => c :: splitClose s
  | [] => []

/-- What stands between the marks of a literal block. -/
def literalBody : Escaping → List Char → List Char
  | .markup, value => splitClose value
  | .verbatim, value => value

def inLiteral (escaping : Escaping) (value : List Char) : List Char :=
  literalOpen ++ escaping.literalBody value ++ literalClose

end Escaping

end Datamodel
