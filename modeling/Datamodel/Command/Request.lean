import Datamodel.Command.Arguments
import Datamodel.Generation

/-!
# Requests

The commands of the program and how each of them is called. A definition is looked for in the
current directory unless its path is given, and replacing a file may only be asked for together with
the file that is to be written.
-/

namespace Datamodel

inductive Command where
  | generate (config : String) (options : GenerationOptions)
  | check (config : String)
  | analyze (bundle : String) (json : Bool)
  deriving DecidableEq, Repr

structure Request where
  command : Command
  /-- Whether to tell what is done on the way. -/
  verbose : Bool := false
  deriving DecidableEq, Repr

def defaultConfig : String :=
  "class.toml"

namespace CommandOption

def verbose : CommandOption := { name := "verbose", letter := 'v' }

/-- The path of a definition. -/
def config : CommandOption := { name := "config", letter := 'c', takesValue := true }

def output : CommandOption := { name := "output", letter := 'o', takesValue := true }

def force : CommandOption := { name := "force" }

/-- Whether values are written as they are. -/
def verbatim : CommandOption := { name := "verbatim" }

def json : CommandOption := { name := "json" }

end CommandOption

/-- How a command is called. -/
structure CommandForm where
  name : String
  options : List CommandOption
  /-- The number of plain words at most. -/
  words : Nat := 0
  /-- The command that arguments make, unless something is missing from them. -/
  command? : Arguments → Option Command

namespace CommandForm

def configOf (arguments : Arguments) : String :=
  (arguments.value? CommandOption.config.name).getD defaultConfig

def generate : CommandForm where
  name := "generate"
  options := [.config, .output, .force, .verbatim]
  command? arguments :=
    let output := arguments.value? CommandOption.output.name
    let force := arguments.has CommandOption.force.name
    if force && output.isNone then none
    else
      let escaping := if arguments.has CommandOption.verbatim.name then .verbatim else .markup
      some (.generate (configOf arguments) { output, force, escaping })

def check : CommandForm where
  name := "check"
  options := [.config]
  command? arguments := some (.check (configOf arguments))

def analyze : CommandForm where
  name := "analyze"
  options := [.json]
  words := 1
  command? arguments :=
    arguments.words.head?.map fun bundle => .analyze bundle (arguments.has CommandOption.json.name)

def all : List CommandForm :=
  [generate, check, analyze]

def ofName? (name : String) : Option CommandForm :=
  all.find? (·.name == name)

/-- The request that the words after a command's name make. -/
def request (form : CommandForm) (verbose : Bool) (texts : List String) : Except Stop Request := do
  let arguments ← ({} : Arguments).read (form.options ++ [.verbose, .help]) form.words none texts
  match form.command? arguments with
  | none => .error .misuse
  | some command =>
    return { command, verbose := verbose || arguments.has CommandOption.verbose.name }

end CommandForm

namespace Request

/-- What the words after a call for help ask for. -/
def helpStop : List String → Stop
  | [] => .help
  | [name] => if name = "help" ∨ (CommandForm.ofName? name).isSome then .help else .misuse
  | _ => .misuse

/-- The options before the name of a command. -/
def globalOptions : List CommandOption :=
  [.verbose, .version, .help]

/-- The request that a command line makes, after the options in `arguments`. -/
def parseAfter (arguments : Arguments) : List String → Except Stop Request
  | [] => .error .misuse
  | text :: texts =>
    match Word.ofString text with
    | .endOfOptions => .error .misuse
    | .option name value => do
      parseAfter (← arguments.addNamed globalOptions name value).1 texts
    | .letters letters => do
      parseAfter (← arguments.addLetters globalOptions letters).1 texts
    | .plain name =>
      if name = "help" then .error (helpStop texts)
      else
        match CommandForm.ofName? name with
        | none => .error .misuse
        | some form => form.request (arguments.has CommandOption.verbose.name) texts

def parse (texts : List String) : Except Stop Request :=
  parseAfter {} texts

end Request

end Datamodel
