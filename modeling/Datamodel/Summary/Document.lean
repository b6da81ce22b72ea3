import Datamodel.Bundle.Descriptor
import Datamodel.Summary.Basic
import Datamodel.Xml.Rendering

/-!
# The summary of a document

Every section of a summary is read off the element tree by following a path of names, so it does not
matter how often a container on the way is repeated. A document with another root than a design has
nothing to summarise.
-/

namespace Datamodel

open Xml (Element Siblings)

def fieldSummaries (element : Element) : List FieldSummary :=
  (element.select ["fields", "field"]).map fun field => ⟨field.id, field.kind⟩

def classSummaries (root : Element) : List ClassSummary :=
  (root.select ["classes", "class"]).map fun element => ⟨element.id, fieldSummaries element⟩

def menuSummaries (root : Element) : List MenuSummary :=
  (root.select ["menus", "menu"]).map fun menu => ⟨menu.id, menu.kind⟩

/-- What an action's identifier starts with. -/
def actionMark : List Char :=
  "action:".toList

def actionRight (element : Element) : ActionRight where
  action := String.ofList ((Text.afterMark? actionMark element.id.toList).getD element.id.toList)
  allowed := Text.trimmed element.text == "allow"

def profileRights (element : Element) : ProfileRights where
  profile := element.id
  rights := (element.select ["groups", "group", "actions", "action"]).map actionRight

def profileSummaries (root : Element) : List ProfileRights :=
  (root.select ["user_rights", "profiles", "profile"]).map profileRights

/-- A parameter: a single leaf is its text, anything else is JSON. -/
def parameterValue : Siblings Element → String
  | .one element =>
    if element.isLeaf then Text.trimmed element.text else String.ofList element.toJson.compact
  | .many elements => String.ofList (Json.arr (Xml.elementsJson elements)).compact

def parameterSummaries (root : Element) : List ModuleParameter :=
  (root.select ["module_parameters", "parameters"]).flatMap fun element =>
    element.children.map fun (name, group) => ⟨name, parameterValue group⟩

def designSummaries (root : Element) : List ModuleDesign :=
  (root.select ["module_designs", "module_design"]).map fun design =>
    ⟨design.id, "Module design details"⟩

/-- The summary of a document with this root, under the name and version of its module. -/
def Summary.ofDocument (root : Element) (descriptor : ModuleDescriptor) : Summary :=
  if root.name = "itop_design" then
    { name := descriptor.name
      version := descriptor.version
      classes := classSummaries root
      menus := menuSummaries root
      profiles := profileSummaries root
      parameters := parameterSummaries root
      designs := designSummaries root }
  else
    { name := descriptor.name, version := descriptor.version }

end Datamodel
