import Datamodel.Lint.Embedded
import Datamodel.Lint.Issue
import Datamodel.Markup.Node
import Datamodel.Text.Space

/-!
# The lints

A lint looks at a definition and reports issues; it never keeps the document from being written. The
lifecycle lint compares the lifecycle with the fields and with its own states, the fields lint looks
at values and target classes, the menu lint at the query of the menu, and the markup lint at values
that have to be escaped.
-/

namespace Datamodel

/-! ## Lifecycle -/

/-- The flags of a state that cannot be written. -/
def State.issues (state : State) : List Issue :=
  (state.flags.filter fun flag => !Markup.isTagName flag.1).map fun flag =>
    .unwritableFlag flag.1 state.name

/-- The transitions that lead to no declared state. -/
def Lifecycle.targetIssues (lifecycle : Lifecycle) : List Issue :=
  (lifecycle.transitions.filter fun transition => !lifecycle.declares transition.target).map
    fun transition => .undeclaredTarget transition.stimulus transition.target

def ClassDefinition.lifecycleIssues (definition : ClassDefinition) : List Issue :=
  match definition.lifecycle with
  | none => []
  | some lifecycle =>
    if lifecycle.isActive then
      (if (definition.field? lifecycle.driver).isSome then []
        else [.foreignDriver lifecycle.driver definition.name]) ++
      lifecycle.states.flatMap State.issues ++ lifecycle.targetIssues
    else if lifecycle.states.isEmpty && lifecycle.transitions.isEmpty then []
    else [.omittedLifecycle]

/-! ## Fields -/

/-- The issues with the values of an enumeration that has some. -/
def Field.valueIssues (field : Field) (values : List String) : List Issue :=
  let blanks := values.zipIdx.filter fun entry => (Text.trimmed entry.1).isEmpty
  let chosen := Text.trimmed field.defaultValue
  blanks.map (fun entry => .emptyValue field.name entry.2) ++
    if chosen.isEmpty || values.any fun value => Text.trimmed value == chosen then []
    else [.foreignDefault field.name chosen]

def Field.issues (field : Field) : List Issue :=
  match field.kind with
  | .enumeration values =>
    if values.isEmpty then [.noValues field.name] else field.valueIssues values
  | .externalKey target => if target.isEmpty then [.noTarget field.name] else []
  | _ => []

def ClassDefinition.fieldIssues (definition : ClassDefinition) : List Issue :=
  definition.fields.flatMap Field.issues

/-! ## Menu -/

def ClassDefinition.menuIssues (definition : ClassDefinition) : List Issue :=
  match definition.menu with
  | none => []
  | some menu =>
    if menu.hasQuery then
      if (Text.trimmed menu.query).isEmpty then [.emptyQuery menu.kind definition.menuId] else []
    else if menu.query.isEmpty then []
    else [.unusedQuery menu.kind]

/-! ## Markup -/

/-- Whether the markup lint takes a character for reserved. -/
def isReserved (c : Char) : Bool :=
  c == '&' || c == '<' || c == '>' || c == '"'

def ClassDefinition.markupIssues (escaping : Escaping) (definition : ClassDefinition) :
    List Issue :=
  ((definition.embedded.filter fun located => located.2.toList.any isReserved).map
      fun located => .reserved escaping located.1) ++
    (definition.methods.filter fun method =>
        Text.contains Escaping.literalClose method.code.toList).map
      fun method => .closingMark escaping method.name

/-! ## The linter -/

/-- What a lint reports on a definition that is to be written with this escaping. -/
def Lint.issues (escaping : Escaping) (definition : ClassDefinition) : Lint → List Issue
  | .lifecycle => definition.lifecycleIssues
  | .fields => definition.fieldIssues
  | .menu => definition.menuIssues
  | .markup => definition.markupIssues escaping

/-- The lints that are run where nothing else is asked for. -/
def Lint.standard : List Lint :=
  [.lifecycle, .fields, .menu, .markup]

/-- What several lints report: the most serious issues first, and issues of one severity in the
order in which they were found. -/
def Lint.run (lints : List Lint) (escaping : Escaping) (definition : ClassDefinition) :
    List Issue :=
  let found := lints.flatMap (Lint.issues escaping definition)
  let ofSeverity (severity : Severity) := found.filter (·.severity == severity)
  ofSeverity .error ++ ofSeverity .warning ++ ofSeverity .info

def ClassDefinition.lint (escaping : Escaping) (definition : ClassDefinition) : List Issue :=
  Lint.run Lint.standard escaping definition

def hasErrors (issues : List Issue) : Bool :=
  issues.any (·.severity == .error)

end Datamodel
