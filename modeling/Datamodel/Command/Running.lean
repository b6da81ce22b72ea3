import Datamodel.Command.Outcome
import Datamodel.Command.Request
import Datamodel.Definition.File
import Datamodel.Report.Analysis
import Datamodel.Report.Generation

/-!
# Carrying out requests

A request reads one file, and generating may write another. All else is decided by what the file
holds, so a command does the same on a disk and on a storage value.
-/

namespace Datamodel

/-- The lines that tell of a step, where they are asked for. -/
def logLines (verbose : Bool) (lines : List String) : List String :=
  if verbose then lines else []

def checkOutcome (verbose : Bool) (file : DefinitionFile) : Outcome :=
  let definition := file.definition
  let log := ["linted " ++ definition.name ++ ": " ++
    counted definition.checkIssues.length "issue"]
  .finished definition.isValid (definition.checkReport file.path).print (logLines verbose log)

def generationOutcome (verbose : Bool) : Except GenerationError Generation → Outcome
  | .error error => .failed (.generation error)
  | .ok generation =>
    let log := ["generated the document of " ++ generation.className]
    .finished true generation.report.print (logLines verbose log)

def Summary.print (summary : Summary) (bundle : String) (json : Bool) : Printed :=
  if json then { output := String.ofList (summary.toJson.pretty 0) ++ "\n" }
  else (summary.report bundle).print

def analysisOutcome (verbose json : Bool) (bundle : String) : Option ByteArray → Outcome
  | none => .failed (.unreadable bundle)
  | some data =>
    match analyze data with
    | .error error => .failed (.bundle error)
    | .ok summary =>
      .finished true (summary.print bundle json) (logLines verbose ["read the bundle " ++ bundle])

variable {m : Type → Type} [Monad m]

def Request.run (files : FileAccess m) (request : Request) : m Outcome :=
  match request.command with
  | .check config => do
    match ← DefinitionFile.load files config with
    | .error error => return .failed (.definition error)
    | .ok file => return checkOutcome request.verbose file
  | .generate config options => do
    match ← DefinitionFile.load files config with
    | .error error => return .failed (.definition error)
    | .ok file =>
      return generationOutcome request.verbose (← file.definition.generate files options)
  | .analyze bundle json =>
    return analysisOutcome request.verbose json bundle (← files.read bundle)

def runCommandLine (files : FileAccess m) (texts : List String) : m Outcome :=
  match Request.parse texts with
  | .error stop => return .stopped stop
  | .ok request => request.run files

end Datamodel
