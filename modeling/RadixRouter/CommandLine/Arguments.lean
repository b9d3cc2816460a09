/-
# Command-line arguments

The program has two commands, each with its own options; the options on reporting may stand
before or after the command, and what stands after it wins.  A long option takes its value
from the next argument or after `=`, a short one also from the same argument.
-/

namespace RadixRouter.CommandLine

/-- What to do. -/
inductive Command where
  /-- Register every route of some tables and list what is refused. -/
  | validate (files : List String) (format : String)
  /-- Show how a request resolves against a table. -/
  | resolve (file method path format : String)
deriving DecidableEq

/-- A command and how to report on it. -/
structure Invocation where
  logLevel : String
  logFormat : String
  command : Command
deriving DecidableEq

/-- What a list of arguments asks for. -/
inductive Request where
  | run (invocation : Invocation)
  | help
  | version
  /-- The arguments make no sense. -/
  | misuse
deriving DecidableEq

/-- How many values an option takes: one, or all up to the next option. -/
inductive Arity where
  | one | many
deriving DecidableEq

/-- An option: its long name, its letter if it has one, and how many values it takes. -/
structure OptionSpec where
  long : String
  letter : Option Char
  arity : Arity

/-- The options on reporting. -/
def reportOptions : List OptionSpec :=
  [⟨"log-level", none, .one⟩, ⟨"log-format", none, .one⟩]

/-- The options of `validate`. -/
def validateOptions : List OptionSpec :=
  [⟨"routes", some 'r', .many⟩, ⟨"format", none, .one⟩] ++ reportOptions

/-- The options of `resolve`. -/
def resolveOptions : List OptionSpec :=
  [⟨"routes", some 'r', .one⟩, ⟨"method", some 'm', .one⟩, ⟨"path", some 'p', .one⟩,
    ⟨"format", none, .one⟩] ++ reportOptions

/-- One argument as an option: its long name or letter, and the value written with it. -/
inductive Shape where
  | long (name : String) (value : Option String)
  | short (letter : Char) (value : Option String)
  /-- `--`: no options from here on. -/
  | stop
  | word (text : String)

/-- Reads the shape of an argument.  A lone dash is a word. -/
def shapeOf (argument : String) : Shape :=
  match argument.toList with
  | ['-', '-'] => .stop
  | '-' :: '-' :: rest =>
    let name := rest.takeWhile (· ≠ '=')
    let value := match rest.dropWhile (· ≠ '=') with
      | [] => none
      | _ :: value => some (String.ofList value)
    .long (String.ofList name) value
  | '-' :: letter :: rest =>
    let value := match rest with
      | [] => none
      | '=' :: value => some (String.ofList value)
      | value => some (String.ofList value)
    .short letter value
  | _ => .word argument

/-- Whether an argument can be the value of the option before it. -/
def isWord (argument : String) : Bool :=
  match shapeOf argument with
  | .word _ => true
  | _ => false

/-- Values by long option name, in the order given. -/
abbrev Given := List (String × List String)

/-- The values an option was given, all together. -/
def valuesOf (given : Given) (name : String) : List String :=
  given.flatMap fun (other, values) => if other = name then values else []

/-- The value an option was given, or else a default. -/
def valueOr (given : Given) (name absent : String) : String :=
  ((valuesOf given name).head?).getD absent

/-- How reading options on one level ends. -/
inductive Reading where
  /-- At the first word that is no value, with the arguments after it. -/
  | word (text : String) (rest : List String) (given : Given)
  | done (given : Given)
  | help
  | version
  | misuse

/-- An option that takes one value must not be given twice on one level. -/
def mayGive (spec : OptionSpec) (given : Given) : Bool :=
  spec.arity = .many || given.all fun (name, _) => name ≠ spec.long

/-- Reads options up to the first word that is no value.  `open?` is an option whose values
are still being read; the flag says whether it has one already. -/
def readOptions (options : List OptionSpec) (versioned : Bool) :
    (open? : Option (OptionSpec × Bool)) → (given : Given) → List String → Reading
  | some (_, false), _, [] => .misuse
  | _, given, [] => .done given
  | open?, given, argument :: rest =>
    match open?, isWord argument with
    | some (spec, _), true =>
      let given := given ++ [(spec.long, [argument])]
      let open? := if spec.arity = .many then some (spec, true) else none
      readOptions options versioned open? given rest
    | some (_, false), false => .misuse
    | _, _ =>
      let take (spec : Option OptionSpec) (value : Option String) : Reading :=
        match spec, value with
        | none, _ => .misuse
        | some spec, some value =>
          if mayGive spec given then
            readOptions options versioned none (given ++ [(spec.long, [value])]) rest
          else .misuse
        | some spec, none =>
          if mayGive spec given then readOptions options versioned (some (spec, false)) given rest
          else .misuse
      match shapeOf argument with
      | .word text => .word text rest given
      | .stop => if rest.isEmpty then .done given else .misuse
      | .long "help" none => .help
      | .long "version" none => if versioned then .version else .misuse
      | .long name value => take (options.find? (·.long = name)) value
      | .short 'h' _ => .help
      | .short 'V' _ => if versioned then .version else .misuse
      | .short letter value => take (options.find? (·.letter = some letter)) value

/-- The command that the options after its name make up. -/
def commandOf? (name : String) (given : Given) : Option Command :=
  let format := valueOr given "format" "text"
  if name = "validate" then
    match valuesOf given "routes" with
    | [] => none
    | files => some (.validate files format)
  else
    match valuesOf given "routes", valuesOf given "path" with
    | file :: _, path :: _ => some (.resolve file (valueOr given "method" "GET") path format)
    | _, _ => none

/-- The request after the name of a command. -/
def requestOf (name : String) (options : List OptionSpec) (before : Given)
    (arguments : List String) : Request :=
  match readOptions options false none [] arguments with
  | .done given =>
    match commandOf? name given with
    | some command =>
      let report (option absent : String) : String :=
        valueOr given option (valueOr before option absent)
      .run ⟨report "log-level" "warn", report "log-format" "pretty", command⟩
    | none => .misuse
  | .help => .help
  | _ => .misuse

/-- What a list of arguments asks for. -/
def parse (arguments : List String) : Request :=
  match readOptions reportOptions true none [] arguments with
  | .word "validate" rest given => requestOf "validate" validateOptions given rest
  | .word "resolve" rest given => requestOf "resolve" resolveOptions given rest
  | .word "help" rest _ =>
    if rest.all ["validate", "resolve", "help"].contains && rest.length ≤ 1 then .help else .misuse
  | .help => .help
  | .version => .version
  | _ => .misuse

end RadixRouter.CommandLine
