import Datamodel.Text.Basic

/-!
# Arguments

How the words of a command line are told apart. A word that starts with two dashes names an option,
perhaps with a value after an equals sign; one that starts with a single dash is a row of option
letters, of which the last may be followed by its value; a dash alone and everything else is a plain
word. After two dashes alone every word is a plain one. An option that takes a value and has none
attached takes the next word, which has to be a plain one. No option may be given twice, no value
may be empty, and there may be no more plain words than are expected. Words are taken from left to
right, so a request for help counts only if nothing before it was wrong.
-/

namespace Datamodel

structure CommandOption where
  name : String
  letter : Option Char := none
  takesValue : Bool := false
  deriving DecidableEq, Repr

namespace CommandOption

def help : CommandOption := { name := "help", letter := 'h' }

def version : CommandOption := { name := "version", letter := 'V' }

end CommandOption

/-- What a word of a command line is. -/
inductive Word where
  /-- The mark after which all words are plain. -/
  | endOfOptions
  | option (name : String) (value : Option String)
  | letters (letters : List Char)
  | plain (text : String)
  deriving DecidableEq, Repr

def Word.ofString (text : String) : Word :=
  match text.toList with
  | ['-', '-'] => .endOfOptions
  | '-' :: '-' :: rest =>
    match Text.cutAt ['='] rest with
    | none => .option (String.ofList rest) none
    | some (name, value) => .option (String.ofList name) (some (String.ofList value))
  | '-' :: c :: rest => .letters (c :: rest)
  | _ => .plain text

/-- Why the reading of a command line ends early. -/
inductive Stop where
  | help
  | version
  | misuse
  deriving DecidableEq, Repr

/-- What has been read of a command line. -/
structure Arguments where
  /-- The options without a value. -/
  flags : List String := []
  /-- The options with a value. -/
  values : List (String × String) := []
  words : List String := []
  deriving DecidableEq, Repr

namespace Arguments

def has (arguments : Arguments) (name : String) : Bool :=
  arguments.flags.contains name

def value? (arguments : Arguments) (name : String) : Option String :=
  arguments.values.lookup name

def addFlag (arguments : Arguments) (option : CommandOption) : Except Stop Arguments :=
  if option = .help then .error .help
  else if option = .version then .error .version
  else if arguments.has option.name then .error .misuse
  else .ok { arguments with flags := option.name :: arguments.flags }

def addValue (arguments : Arguments) (option : CommandOption) (value : String) :
    Except Stop Arguments :=
  if value.isEmpty || (arguments.value? option.name).isSome then .error .misuse
  else .ok { arguments with values := (option.name, value) :: arguments.values }

/-- Takes up a plain word where at most `limit` are expected. -/
def addWord (limit : Nat) (arguments : Arguments) (word : String) : Except Stop Arguments :=
  if word.isEmpty || decide (limit ≤ arguments.words.length) then .error .misuse
  else .ok { arguments with words := arguments.words ++ [word] }

/-- Takes up an option that was named, with the value attached to it: what is known then, and the
option if it waits for its value. -/
def addNamed (options : List CommandOption) (arguments : Arguments) (name : String)
    (value : Option String) : Except Stop (Arguments × Option CommandOption) :=
  match options.find? (·.name == name), value with
  | none, _ => .error .misuse
  | some option, none =>
    if option.takesValue then .ok (arguments, some option)
    else (arguments.addFlag option).map (·, none)
  | some option, some value =>
    if option.takesValue then (arguments.addValue option value).map (·, none)
    else .error .misuse

/-- Takes up a row of option letters: what is known then, and the option that waits for its
value. -/
def addLetters (options : List CommandOption) (arguments : Arguments) :
    List Char → Except Stop (Arguments × Option CommandOption)
  | [] => .ok (arguments, none)
  | c :: rest =>
    match options.find? (·.letter == some c) with
    | none => .error .misuse
    | some option =>
      if option.takesValue then
        match rest with
        | [] => .ok (arguments, some option)
        | '=' :: value => (arguments.addValue option (String.ofList value)).map (·, none)
        | value => (arguments.addValue option (String.ofList value)).map (·, none)
      else do (← arguments.addFlag option).addLetters options rest

/-- Takes up a word for an option that waits for its value. -/
def addWaiting (arguments : Arguments) (option : CommandOption) (text : String) :
    Except Stop Arguments :=
  match Word.ofString text with
  | .plain value => arguments.addValue option value
  | _ => .error .misuse

/-- Takes up the words of a command line. A command of `limit` plain words has these options, and
`waiting` is the option whose value comes next. -/
def read (options : List CommandOption) (limit : Nat) (arguments : Arguments)
    (waiting : Option CommandOption) : List String → Except Stop Arguments
  | [] => if waiting.isSome then .error .misuse else .ok arguments
  | text :: texts =>
    match waiting with
    | some option => do
      (← arguments.addWaiting option text).read options limit none texts
    | none =>
      match Word.ofString text with
      | .endOfOptions => texts.foldlM (addWord limit) arguments
      | .option name value => do
        let (arguments, waiting) ← arguments.addNamed options name value
        arguments.read options limit waiting texts
      | .letters letters => do
        let (arguments, waiting) ← arguments.addLetters options letters
        arguments.read options limit waiting texts
      | .plain word => do
        (← arguments.addWord limit word).read options limit none texts

end Arguments

end Datamodel
