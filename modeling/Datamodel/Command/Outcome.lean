import Datamodel.Bundle.Analysis
import Datamodel.Command.Arguments
import Datamodel.Definition.Error
import Datamodel.Generation
import Datamodel.Report.Basic

/-!
# Outcomes

How a call of the program ends, what it prints then and the status it exits with: 0 if all went
well, 1 if a definition is not valid or something failed, and 2 if the command line was wrong.
-/

namespace Datamodel

/-- Why a command could not be carried out. -/
inductive Failure where
  | definition (error : DefinitionError)
  | generation (error : GenerationError)
  | bundle (error : BundleError)
  | unreadable (path : String)
  deriving DecidableEq, Repr

namespace Failure

def message : Failure → String
  | .definition error => error.message
  | .generation error => error.message
  | .bundle error => error.message
  | .unreadable path => "Failed to read " ++ path

def help? : Failure → Option String
  | .definition error => error.help?
  | .bundle error => error.help?
  | .generation _ | .unreadable _ => none

def text (failure : Failure) : String :=
  "error: " ++ failure.message ++ "\n" ++
    match failure.help? with
    | none => ""
    | some help => "help: " ++ help ++ "\n"

end Failure

/-- How a call of the program ends. -/
inductive Outcome where
  /-- The command line asks for no command, or is wrong. -/
  | stopped (stop : Stop)
  | failed (failure : Failure)
  /-- The command was carried out; `log` tells what was done on the way. -/
  | finished (passed : Bool) (printed : Printed) (log : List String)
  deriving DecidableEq, Repr

namespace Outcome

def versionLine : String :=
  "forge 0.3.0\n"

def usage : String :=
  "Usage: forge [-v] generate [-c FILE] [-o FILE [--force]] [--verbatim]\n" ++
  "       forge [-v] check [-c FILE]\n" ++
  "       forge [-v] analyze BUNDLE [--json]\n"

def status : Outcome → UInt8
  | .stopped .misuse => 2
  | .stopped _ => 0
  | .failed _ => 1
  | .finished passed _ _ => if passed then 0 else 1

/-- What the program prints. The log comes before all other text on standard error. -/
def printed : Outcome → Printed
  | .stopped .misuse => { errors := usage }
  | .stopped .help => { output := usage }
  | .stopped .version => { output := versionLine }
  | .failed failure => { errors := failure.text }
  | .finished _ printed log =>
    { printed with errors := String.join (log.map fun line => "debug: " ++ line ++ "\n") ++
      printed.errors }

end Outcome

end Datamodel
