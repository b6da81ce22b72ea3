import Datamodel.Definition.Field
import Datamodel.Definition.Properties
import Datamodel.Definition.Sections

/-!
# Class definitions

What an author says of one class. Every list is kept in the order in which it was written and is
never sorted, so a definition determines its document.
-/

namespace Datamodel

/-- The parent of a class that names none. -/
def defaultParent : String :=
  "cmdbAbstractObject"

structure ClassDefinition where
  name : String
  parent : String := defaultParent
  properties : Properties := {}
  fields : List Field := []
  lifecycle : Option Lifecycle := none
  methods : List Method := []
  indexes : List Index := []
  relations : List Relation := []
  menu : Option MenuEntry := none
  profiles : List Profile := []
  branding : Option Branding := none
  deriving DecidableEq, Repr

namespace ClassDefinition

def field? (definition : ClassDefinition) (name : String) : Option Field :=
  definition.fields.find? (·.name == name)

/-- The lifecycle, where it names the field that drives it; any other is not written. -/
def activeLifecycle (definition : ClassDefinition) : Option Lifecycle :=
  definition.lifecycle.filter (·.isActive)

/-- The branding, where at least one of its values is given. -/
def activeBranding (definition : ClassDefinition) : Option Branding :=
  definition.branding.filter (!·.isEmpty)

def menuId (definition : ClassDefinition) : String :=
  definition.name ++ "_menu"

end ClassDefinition

end Datamodel
