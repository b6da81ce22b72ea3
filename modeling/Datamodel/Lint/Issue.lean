import Datamodel.Definition.Sections
import Datamodel.Markup.Escaping

/-!
# Issues

What the lints report. Each issue knows how serious it is, what it says and which part of the
definition it is about.
-/

namespace Datamodel

/-- How serious an issue is, the most serious first. -/
inductive Severity where
  /-- The document is refused or malformed. -/
  | error
  /-- The document is probably not what was meant. -/
  | warning
  /-- A remark on how the definition is written. -/
  | info
  deriving DecidableEq, Repr

namespace Severity

def name : Severity → String
  | .error => "error"
  | .warning => "warning"
  | .info => "info"

end Severity

inductive Lint where
  | lifecycle
  | fields
  | menu
  | markup
  deriving DecidableEq, Repr

def Lint.name : Lint → String
  | .lifecycle => "lifecycle"
  | .fields => "fields"
  | .menu => "menu"
  | .markup => "markup"

inductive Issue where
  /-- A lifecycle with states or transitions that is left out. -/
  | omittedLifecycle
  /-- A lifecycle driven by something that is no field of the class, though it may be inherited. -/
  | foreignDriver (driver className : String)
  /-- A flag that cannot be written as a tag. -/
  | unwritableFlag (flag state : String)
  | undeclaredTarget (stimulus target : String)
  | noValues (field : String)
  | emptyValue (field : String) (place : Nat)
  | foreignDefault (field value : String)
  | noTarget (field : String)
  | emptyQuery (kind : MenuKind) (menu : String)
  | unusedQuery (kind : MenuKind)
  /-- A value with characters that markup reserves. -/
  | reserved (escaping : Escaping) (location : String)
  /-- A method whose code holds the closing mark of a literal block. -/
  | closingMark (escaping : Escaping) (method : String)
  deriving DecidableEq, Repr

namespace Issue

def lint : Issue → Lint
  | .omittedLifecycle | .foreignDriver .. | .unwritableFlag .. | .undeclaredTarget .. => .lifecycle
  | .noValues .. | .emptyValue .. | .foreignDefault .. | .noTarget .. => .fields
  | .emptyQuery .. | .unusedQuery .. => .menu
  | .reserved .. | .closingMark .. => .markup

/-- The severity of a value that escaping changes: without escaping it spoils the document. -/
def embeddingSeverity : Escaping → Severity
  | .markup => .info
  | .verbatim => .warning

def severity : Issue → Severity
  | .omittedLifecycle => .warning
  | .foreignDriver .. => .warning
  | .unwritableFlag .. => .error
  | .undeclaredTarget .. => .error
  | .noValues .. => .warning
  | .emptyValue .. => .warning
  | .foreignDefault .. => .warning
  | .noTarget .. => .error
  | .emptyQuery .. => .warning
  | .unusedQuery .. => .info
  | .reserved escaping _ => embeddingSeverity escaping
  | .closingMark escaping _ => embeddingSeverity escaping

def embeddingText : Escaping → String
  | .markup => " is escaped"
  | .verbatim => " is embedded unescaped and corrupts the document"

def message : Issue → String
  | .omittedLifecycle =>
    "lifecycle has states or transitions but no attribute; the section is omitted"
  | .foreignDriver driver className =>
    "lifecycle attribute '" ++ driver ++ "' is not a field of '" ++ className ++ "'"
  | .unwritableFlag flag state =>
    "flag '" ++ flag ++ "' of state '" ++ state ++ "' is not a valid tag name"
  | .undeclaredTarget stimulus target =>
    "transition '" ++ stimulus ++ "' targets undeclared state '" ++ target ++ "'"
  | .noValues field => "enum field '" ++ field ++ "' has no values"
  | .emptyValue field place =>
    "enum field '" ++ field ++ "' has an empty value at position " ++ toString place
  | .foreignDefault field value =>
    "default value '" ++ value ++ "' of '" ++ field ++ "' is not one of its values"
  | .noTarget field => "external key '" ++ field ++ "' has no target class"
  | .emptyQuery kind menu => kind.name ++ " '" ++ menu ++ "' has an empty query"
  | .unusedQuery kind => "query is ignored for " ++ kind.name ++ " entries"
  | .reserved escaping _ => "value with reserved characters" ++ embeddingText escaping
  | .closingMark escaping _ => "code containing ']]>'" ++ embeddingText escaping

/-- The part of the definition that an issue is about. -/
def location : Issue → String
  | .omittedLifecycle => "lifecycle"
  | .foreignDriver .. => "lifecycle.attribute"
  | .unwritableFlag _ state => "lifecycle.states." ++ state ++ ".flags"
  | .undeclaredTarget stimulus _ => "lifecycle.transitions." ++ stimulus
  | .noValues field => "fields." ++ field
  | .emptyValue field _ => "fields." ++ field ++ ".values"
  | .foreignDefault field _ => "fields." ++ field ++ ".default_value"
  | .noTarget field => "fields." ++ field
  | .emptyQuery .. => "menu.oql"
  | .unusedQuery .. => "menu.oql"
  | .reserved _ location => location
  | .closingMark _ method => "methods." ++ method ++ ".code"

def display (issue : Issue) : String :=
  issue.severity.name ++ ": " ++ issue.message ++ " (at " ++ issue.location ++ ")"

end Issue

end Datamodel
