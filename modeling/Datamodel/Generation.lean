import Datamodel.Definition.Document
import Datamodel.Lint.Linter
import Datamodel.Storage.Access

/-!
# Generating a document

The document of a definition is printed or written to a file. What the lints report never keeps it
from being generated; errors and warnings are reported beside it and remarks are not. A file that
exists is only replaced where that is asked for.
-/

namespace Datamodel

structure GenerationOptions where
  /-- The file to write; without one the document is printed. -/
  output : Option String := none
  /-- Whether a file that exists may be replaced. -/
  force : Bool := false
  escaping : Escaping := .markup
  deriving DecidableEq, Repr

inductive GenerationError where
  | occupied (path : String)
  | unwritable (path : String)
  deriving DecidableEq, Repr

def GenerationError.message : GenerationError → String
  | .occupied path => path ++ " already exists (pass --force to overwrite it)"
  | .unwritable path => "Failed to write " ++ path

inductive Destination where
  | printed (document : String)
  | written (path : String)
  deriving DecidableEq, Repr

/-- A generated document, with the issues that are reported beside it. -/
structure Generation where
  className : String
  issues : List Issue
  destination : Destination
  deriving DecidableEq, Repr

namespace ClassDefinition

def standardDocument (escaping : Escaping) (definition : ClassDefinition) : String :=
  definition.document { escaping }

def generationIssues (escaping : Escaping) (definition : ClassDefinition) : List Issue :=
  (definition.lint escaping).filter (·.severity != .info)

def outputFile (definition : ClassDefinition) (options : GenerationOptions) (path : String) :
    OutputFile where
  path
  content := definition.standardDocument options.escaping
  overwrite := if options.force then .always else .ifMissing

def generate {m : Type → Type} [Monad m] (files : FileAccess m) (options : GenerationOptions)
    (definition : ClassDefinition) : m (Except GenerationError Generation) :=
  let done (destination : Destination) : Generation :=
    { className := definition.name
      issues := definition.generationIssues options.escaping
      destination }
  match options.output with
  | none => return .ok (done (.printed (definition.standardDocument options.escaping)))
  | some path => do
    match ← (definition.outputFile options path).write files with
    | .written => return .ok (done (.written path))
    | .skipped => return .error (.occupied path)
    | .failed => return .error (.unwritable path)

end ClassDefinition

end Datamodel
