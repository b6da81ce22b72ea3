/-!
# The element tree

An element holds its children in groups by name, in the order in which the names first appear. A
name seen once is held as a single element, a repeated one as a list; readers of the tree go through
`Element.named` and `Element.select`, which do not show the difference.
-/

namespace Datamodel.Xml

inductive Siblings (α : Type) where
  | one (element : α)
  | many (elements : List α)
  deriving DecidableEq, Repr

namespace Siblings

variable {α : Type}

def toList : Siblings α → List α
  | one element => [element]
  | many elements => elements

/-- Adds a member at the end; a second member turns a single element into a list. -/
def push (element : α) : Siblings α → Siblings α
  | one first => many [first, element]
  | many elements => many (elements ++ [element])

end Siblings

structure Element where
  /-- The name as written, with any prefix. -/
  name : String
  /-- The attributes in document order, names with any prefix. -/
  attributes : List (String × String) := []
  /-- The text and the literal blocks directly inside, joined. -/
  text : String := ""
  /-- The children by name, in the order of first appearance. -/
  children : List (String × Siblings Element) := []
  deriving Inhabited

/-- The part of a name after its last colon. -/
def localName (name : String) : String :=
  String.ofList (name.toList.reverse.takeWhile (· != ':')).reverse

namespace Element

/-- The value of an attribute by its full name. -/
def attribute? (element : Element) (name : String) : Option String :=
  (element.attributes.find? (·.1 == name)).map (·.2)

/-- The value of the first attribute with this local name. -/
def localAttribute? (element : Element) (name : String) : Option String :=
  (element.attributes.find? (localName ·.1 == name)).map (·.2)

/-- The identifier, empty where there is none. -/
def id (element : Element) : String :=
  (element.attribute? "id").getD ""

/-- The declared type: `xsi:type`, or else any attribute with the local name `type`. -/
def kind (element : Element) : String :=
  ((element.attribute? "xsi:type").or (element.localAttribute? "type")).getD ""

def group? (element : Element) (name : String) : Option (Siblings Element) :=
  (element.children.find? (·.1 == name)).map (·.2)

def named (element : Element) (name : String) : List Element :=
  match element.group? name with
  | some group => group.toList
  | none => []

/-- Every element reached by following the names of a path, fanning out at every step. -/
def select (path : List String) (element : Element) : List Element :=
  path.foldl (fun reached name => reached.flatMap (·.named name)) [element]

/-- Whether an element has neither attributes nor children. -/
def isLeaf (element : Element) : Bool :=
  element.attributes.isEmpty && element.children.isEmpty

/-- Adds a child to its group, which comes last when it is new. -/
def insertChild (child : Element) :
    List (String × Siblings Element) → List (String × Siblings Element)
  | [] => [(child.name, .one child)]
  | (name, group) :: groups =>
    if name = child.name then (name, group.push child) :: groups
    else (name, group) :: insertChild child groups

def addChild (element child : Element) : Element :=
  { element with children := insertChild child element.children }

def addText (element : Element) (text : List Char) : Element :=
  { element with text := element.text ++ String.ofList text }

end Element

end Datamodel.Xml
