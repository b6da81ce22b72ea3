import Datamodel.Lint.Linter
import Datamodel.Report.Basic

/-!
# The report on a definition

All issues first, then whether the definition is valid, and for a valid one an overview of what it
declares. Sections that it does not have are left out of the overview.
-/

namespace Datamodel

/-- The text of an issue in a report, its location on a line of its own. -/
def Issue.text (issue : Issue) : String :=
  issue.message ++ "\n  --> " ++ issue.location

def Issue.line (issue : Issue) : ReportLine :=
  match issue.severity with
  | .error => .error issue.text
  | .warning => .warning issue.text
  | .info => .plain ("info: " ++ issue.text)

def counted (count : Nat) (noun : String) : String :=
  toString count ++ " " ++ noun ++ plural count

def countOf (severity : Severity) (issues : List Issue) : Nat :=
  issues.countP (·.severity == severity)

def Lifecycle.overview (lifecycle : Lifecycle) : ReportLine :=
  .entry "lifecycle" (lifecycle.driver ++ " (" ++ counted lifecycle.states.length "state" ++ ", " ++
    counted lifecycle.transitions.length "transition" ++ ")")

def countLine (name : String) (count : Nat) : Report :=
  if count = 0 then [] else [.entry name (toString count)]

namespace ClassDefinition

/-- What a definition declares. -/
def overview (definition : ClassDefinition) : Report :=
  [.heading definition.name, .entry "parent" definition.parent] ++
  (definition.activeLifecycle.map Lifecycle.overview).toList ++
  countLine "methods" definition.methods.length ++
  countLine "indexes" definition.indexes.length ++
  countLine "relations" definition.relations.length ++
  (definition.menu.map fun menu => .entry "menu" menu.kind.name).toList ++
  (if definition.profiles.isEmpty then []
    else [.entry "profiles" (commaJoined (definition.profiles.map (·.name)))]) ++
  [.blank, .plain ("  " ++ counted definition.fields.length "field" ++ ":")] ++
  definition.fields.map fun field => .item (field.name ++ " (" ++ field.type.name ++ ")")

/-- The issues of a definition whose document is to be escaped. -/
def checkIssues (definition : ClassDefinition) : List Issue :=
  definition.lint .markup

def isValid (definition : ClassDefinition) : Bool :=
  !hasErrors definition.checkIssues

def checkReport (definition : ClassDefinition) (path : String) : Report :=
  let issues := definition.checkIssues
  issues.map Issue.line ++ (if issues.isEmpty then [] else [.blank]) ++
    if definition.isValid then
      .plain ("✓ " ++ path ++ " is valid") :: .blank :: definition.overview
    else [.plain ("✗ " ++ path ++ " has " ++ counted (countOf .error issues) "error")]

end ClassDefinition

end Datamodel
