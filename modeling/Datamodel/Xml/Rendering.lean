import Datamodel.Json
import Datamodel.Xml.Element

/-!
# An element as JSON

A leaf is its text. Any other element is an object: attributes under their names with an `@` in
front, children under their names, repeated ones as an array, and text, if there is any, under
`#text`. Keys are in increasing order. Children replace attributes of the same key, and text
replaces both.
-/

namespace Datamodel.Xml

mutual

def Element.toJson : Element → Json
  | ⟨_, attributes, text, children⟩ =>
    if attributes.isEmpty && children.isEmpty then .str text
    else
      let named := attributes.map fun (name, value) => ("@" ++ name, Json.str value)
      let textual := if text.isEmpty then [] else [("#text", Json.str text)]
      .obj (Json.insertAll textual (Json.insertAll (groupsJson children) (Json.insertAll named [])))

def groupsJson : List (String × Siblings Element) → List (String × Json)
  | [] => []
  | (name, .one element) :: groups => (name, element.toJson) :: groupsJson groups
  | (name, .many elements) :: groups => (name, .arr (elementsJson elements)) :: groupsJson groups

def elementsJson : List Element → List Json
  | [] => []
  | element :: elements => element.toJson :: elementsJson elements

end

end Datamodel.Xml
