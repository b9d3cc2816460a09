/-
# The program

What the program writes for its arguments and the files they name, given a test for methods and
with no reference to the world outside: the exit code, the text on standard output, the events, and
the text on standard error after them.
-/

import RadixRouter.CommandLine.Arguments
import RadixRouter.CommandLine.Files
import RadixRouter.Resolution
import RadixRouter.Telemetry

namespace RadixRouter.CommandLine

/-- What a run of the program writes. -/
structure Transcript where
  exit : Nat
  output : String
  /-- Parts of the log level that make no sense, a line for each. -/
  warnings : List String
  events : List Event
  diagnostics : String

/-- The version of the program. -/
def version : String := "0.3.0"

/-- Reads the table in a file. -/
def load (files : Files) (file : String) : Except TableError RouteTable :=
  match files file with
  | .ok source => RouteTable.ofText source
  | .error trouble => .error (.unreadable trouble.text)

/-- What was found in one file. -/
structure Finding where
  file : String
  routes : Nat
  errors : List TableError

/-- Whether nothing is wrong with a file. -/
def Finding.valid (finding : Finding) : Bool := finding.errors.isEmpty

/-- Checks one file. -/
def inspect (isMethod : String → Bool) (files : Files) (file : String) : Finding × List Event :=
  match load files file with
  | .error error => (⟨file, 0, [error]⟩, [])
  | .ok table =>
    let (errors, events) := table.check isMethod
    (⟨file, table.routes.length, errors⟩, events)

/-- An error as a result, its members in the order of their names. -/
def errorJson (error : TableError) : Json :=
  .obj ([("code", .str error.code)] ++
    (error.location?.toList.map fun location => ("location", .str location)) ++
    [("message", .str error.message)])

/-- A finding as a result, its members in the order of their names. -/
def Finding.toJson (finding : Finding) : Json :=
  .obj
    [("errors", .arr (finding.errors.map errorJson)), ("file", .str finding.file),
      ("routes", .nat finding.routes), ("valid", .bool finding.valid)]

/-- All findings and their numbers as a result. -/
def findingsJson (findings : List Finding) : Json :=
  let valid := findings.countP Finding.valid
  .obj
    [("results", .arr (findings.map Finding.toJson)),
      ("summary", .obj
        [("invalid", .nat (findings.length - valid)), ("total", .nat findings.length),
          ("valid", .nat valid)])]

/-- An error as a line. -/
def errorLine (error : TableError) : String :=
  let place := match error.location? with
    | some location => " [" ++ location ++ "]"
    | none => ""
  "  " ++ error.code ++ place ++ ": " ++ error.message ++ "\n"

/-- A finding as lines. -/
def Finding.describe (finding : Finding) : String :=
  let headline :=
    if finding.valid then
      "✓ " ++ finding.file ++ " is valid (" ++ toString finding.routes ++ " route(s))\n"
    else
      "✗ " ++ finding.file ++ " has " ++ toString finding.errors.length ++ " error(s)\n"
  headline ++ String.join (finding.errors.map errorLine)

/-- All findings and their numbers as lines. -/
def describeFindings (findings : List Finding) : String :=
  let valid := findings.countP Finding.valid
  String.join (findings.map Finding.describe) ++ "\n" ++
    "validated " ++ toString findings.length ++ " route table(s): " ++ toString valid ++
    " valid, " ++ toString (findings.length - valid) ++ " invalid\n"

/-- Runs `validate`. -/
def runValidate (isMethod : String → Bool) (files : Files) (names : List String)
    (format : String) : Transcript :=
  let inspected := names.map (inspect isMethod files)
  let findings := inspected.map (·.1)
  let events := inspected.flatMap (·.2)
  let exit := if findings.all Finding.valid then 0 else 1
  if format = "json" then ⟨exit, (findingsJson findings).pretty ++ "\n", [], events, ""⟩
  else ⟨exit, "", [], events, describeFindings findings⟩

/-- The report of a failure: what was being done, and the chain of causes. -/
def failure (doing : String) (error : TableError) : String :=
  "error: " ++ ": ".intercalate (doing :: error.chain) ++ "\n"

/-- Runs `resolve`. -/
def runResolve (isMethod : String → Bool) (files : Files) (file method path format : String) :
    Transcript :=
  match load files file with
  | .error error => ⟨1, "", [], [], failure ("failed to load " ++ file) error⟩
  | .ok table =>
    match table.build isMethod with
    | (.error error, events) =>
      ⟨1, "", [], events, failure ("failed to register routes from " ++ file) error⟩
    | (.ok router, events) =>
      let explained := router.explain (RouteTable.upperAscii method) path
      let text :=
        if format = "json" then explained.answer.toJson.pretty else explained.answer.describe
      ⟨0, text ++ "\n", [], events ++ explained.events, ""⟩

/-- How the program is used. -/
def usage : String :=
  "Usage: trellis [--log-level LEVEL] [--log-format FORMAT] COMMAND\n\n" ++
    "Commands:\n" ++
    "  validate -r FILE... [--format text|json]\n" ++
    "  resolve -r FILE -p PATH [-m METHOD] [--format text|json]\n"

/-- The files that a request wants to read. -/
def filesOf : Request → List String
  | .run ⟨_, _, .validate files _⟩ => files
  | .run ⟨_, _, .resolve file _ _ _⟩ => [file]
  | _ => []

/-- Runs a command, without filtering its events. -/
def runCommand (isMethod : String → Bool) (files : Files) : Command → Transcript
  | .validate names format => runValidate isMethod files names format
  | .resolve file method path format => runResolve isMethod files file method path format

/-- The way a request wants its events written. -/
def formatOf : Request → LogFormat
  | .run invocation => LogFormat.ofName invocation.logFormat
  | _ => .pretty

/-- Runs a request. -/
def run (isMethod : String → Bool) (files : Files) : Request → Transcript
  | .help => ⟨0, usage, [], [], ""⟩
  | .version => ⟨0, "trellis " ++ version ++ "\n", [], [], ""⟩
  | .misuse => ⟨2, "", [], [], usage⟩
  | .run invocation =>
    let config : TelemetryConfig :=
      { logLevel := invocation.logLevel, logFormat := LogFormat.ofName invocation.logFormat }
    let (filter, reports) := LogFilter.ofText config.logLevel
    let transcript := runCommand isMethod files invocation.command
    let events := Event.startup config.serviceName version :: transcript.events
    { transcript with warnings := reports, events := events.filter filter.passes }

/-- All that a run writes on standard error. -/
def Transcript.errorText (transcript : Transcript) (format : LogFormat) (time : String) :
    String :=
  String.join (transcript.warnings.map (· ++ "\n")) ++
    String.join (transcript.events.map (Event.render format time)) ++ transcript.diagnostics

end RadixRouter.CommandLine
