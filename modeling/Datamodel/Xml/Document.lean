import Datamodel.Xml.Element
import Datamodel.Xml.Token

/-!
# From tokens to the element tree

Reading a document is a walk over its tokens with the elements that are still open, innermost first,
and the root once it is complete. A document has exactly one root, all its text stands inside it,
and every element is closed. Literal blocks outside the root are passed over, and so are comments,
instructions and declarations anywhere.
-/

namespace Datamodel.Xml

inductive SyntaxCause where
  | markup (cause : MarkupError)
  | attributes (cause : AttributeError)
  | reference (cause : ReferenceError)
  | secondRoot
  | strayEnd
  | strayText
  | neverClosed (name : String)
  | noRoot
  deriving DecidableEq, Repr

def SyntaxCause.message : SyntaxCause → String
  | .markup cause => cause.message
  | .attributes cause => cause.message
  | .reference cause => cause.message
  | .secondRoot => "more than one root element"
  | .strayEnd => "unexpected end tag"
  | .strayText => "text outside the root element"
  | .neverClosed name => "element <" ++ name ++ "> is never closed"
  | .noRoot => "document has no root element"

/-- A fault and its byte offset in the source. -/
structure SyntaxError where
  offset : Nat
  cause : SyntaxCause
  deriving DecidableEq, Repr

def Element.ofTag (content : List Char) : Except SyntaxCause Element :=
  match tagAttributes content with
  | .error cause => .error (.attributes cause)
  | .ok attributes => .ok { name := String.ofList (tagName content), attributes }

/-- A document partly read. -/
structure Reading where
  /-- The elements that are still open, innermost first. -/
  opened : List Element := []
  /-- The root, once it is closed. -/
  root : Option Element := none

namespace Reading

/-- Puts a complete element into the innermost open one, or makes it the root. -/
def place (reading : Reading) (element : Element) : Reading :=
  match reading.opened with
  | [] => { reading with root := some element }
  | parent :: opened => { reading with opened := parent.addChild element :: opened }

/-- Whether a further element would be a second root. -/
def isComplete (reading : Reading) : Bool :=
  reading.opened.isEmpty && reading.root.isSome

def addText (reading : Reading) (text : List Char) : Option Reading :=
  match reading.opened with
  | [] => none
  | element :: opened => some { reading with opened := element.addText text :: opened }

def step (reading : Reading) : Token → Except SyntaxCause Reading
  | .open content =>
    if reading.isComplete then .error .secondRoot
    else do
      let element ← Element.ofTag content
      .ok { reading with opened := element :: reading.opened }
  | .empty content => do
    let element ← Element.ofTag content
    if reading.isComplete then .error .secondRoot else .ok (reading.place element)
  | .close =>
    match reading.opened with
    | [] => .error .strayEnd
    | element :: opened => .ok ({ reading with opened }.place element)
  | .text raw =>
    match resolve raw with
    | .error cause => .error (.reference cause)
    | .ok text =>
      match reading.addText text with
      | some reading => .ok reading
      | none => .error .strayText
  | .literal content => .ok ((reading.addText content).getD reading)
  | .aside => .ok reading

/-- Takes up tokens in order, up to the first fault. -/
def steps (reading : Reading) : List Placed → Except SyntaxError Reading
  | [] => .ok reading
  | token :: tokens =>
    match reading.step token.token with
    | .error cause => .error ⟨token.place, cause⟩
    | .ok reading => reading.steps tokens

/-- The root of a document of `total` bytes, once all its tokens are taken up. -/
def finish (reading : Reading) (total : Nat) : Except SyntaxError Element :=
  match reading.opened, reading.root with
  | element :: _, _ => .error ⟨total, .neverClosed element.name⟩
  | [], none => .error ⟨0, .noRoot⟩
  | [], some root => .ok root

end Reading

/-- The root element of a document. -/
def parse (source : List Char) : Except SyntaxError Element := do
  let found := tokens source
  let reading ← ({} : Reading).steps found.placed
  match found.fault with
  | some (offset, cause) => .error ⟨offset, .markup cause⟩
  | none => reading.finish (Text.size source)

end Datamodel.Xml
