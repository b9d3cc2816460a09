/-
# Reporting events

Events that pass a filter are written as lines, either readable or as one JSON object per
line.  The readable form shows the fields after the message and leaves an empty line.
-/

import RadixRouter.Document.Json
import RadixRouter.Event
import RadixRouter.Text.SimpleCase

namespace RadixRouter

/-- The two ways of writing events. -/
inductive LogFormat where
  | json | pretty
deriving DecidableEq

namespace LogFormat

/-- The format with a name, in any case. -/
def parse? (s : String) : Option LogFormat :=
  let folded := s.toList.map SimpleCase.lower
  if folded = "json".toList then some .json
  else if folded = "pretty".toList then some .pretty
  else none

/-- The name of a format. -/
def name : LogFormat → String
  | .json => "json"
  | .pretty => "pretty"

/-- The format to use for a requested name; the readable one where the name means nothing. -/
def ofName (s : String) : LogFormat := (parse? s).getD .pretty

end LogFormat

/-- How a program reports. -/
structure TelemetryConfig where
  serviceName : String := "trellis"
  logLevel : String := "warn"
  logFormat : LogFormat := .pretty

/-- Which events of some parts of the program are written: those whose target starts with
`target` and whose level has at least a rank. -/
structure LogDirective where
  target : String
  rank : Nat
deriving DecidableEq

/-- Which events are written.  Of the directives that an event's target starts with, the one
with the longest target decides, and of equally long ones the last. -/
structure LogFilter where
  directives : List LogDirective
deriving DecidableEq

namespace LogDirective

/-- The rank above that of all events. -/
def silent : Nat := Level.error.rank + 1

/-- The least rank that a level lets pass, given by its name or by a number from 0 for none
to 5 for all. -/
def rank? (s : String) : Option Nat :=
  let digits := match s.toList with
    | '+' :: digits => digits
    | digits => digits
  if !digits.isEmpty && digits.all Char.isDigit then
    match digits.dropWhile (· = '0') with
    | [] => some silent
    | ['1'] => some Level.error.rank
    | ['2'] => some Level.warn.rank
    | ['3'] => some Level.info.rank
    | ['4'] => some Level.debug.rank
    | ['5'] => some 0
    | _ => none
  else
    match String.ofList (s.toList.map Char.toLower) with
    | "off" => some silent
    | "error" => some Level.error.rank
    | "warn" => some Level.warn.rank
    | "info" => some Level.info.rank
    | "debug" => some Level.debug.rank
    | "trace" => some 0
    | _ => none

/-- Whether a directive can start with the character. -/
def isOpening (c : Char) : Bool := c.isAlphanum || 0x80 ≤ c.toNat || ['-', ':', '_'].contains c

/-- A directive, or why it is none: a level for all targets, a target with all its levels, or
`target=level`.  Blanks around it do not count as its start. -/
def ofText (s : String) : Except String LogDirective :=
  let opened := s.toList.dropWhile Char.isWhitespace
  let trimmed := (opened.reverse.dropWhile Char.isWhitespace).reverse
  let length := (trimmed.takeWhile (· ≠ '=')).length
  match trimmed.head? with
  | none => .ok ⟨"", 0⟩
  | some c =>
    if !isOpening c then .error "invalid filter directive"
    else if length = trimmed.length then
      match rank? s with
      | some rank => .ok ⟨"", rank⟩
      | none => .ok ⟨s, 0⟩
    else
      let target := String.ofList (s.toList.take length)
      let level := String.ofList (s.toList.drop (length + 1))
      match rank? level with
      | some rank => .ok ⟨target, rank⟩
      | none =>
        if level.isEmpty then .ok ⟨target, 0⟩
        else
          .error ("error parsing level filter: expected one of \"off\", \"error\", \"warn\", " ++
            "\"info\", \"debug\", \"trace\", or a number 0-5")

end LogDirective

namespace LogFilter

/-- The filter that a list of directives with commas stands for; without any directive only
errors pass.  Each directive that makes no sense is left out and reported. -/
def ofText (s : String) : LogFilter × List String :=
  let parts := (s.splitOn ",").filter (!·.isEmpty)
  let directives := parts.filterMap fun part => (LogDirective.ofText part).toOption
  let reports := parts.filterMap fun part =>
    match LogDirective.ofText part with
    | .ok _ => none
    | .error reason => some ("ignoring `" ++ part ++ "`: " ++ reason)
  (⟨if directives.isEmpty then [⟨"", Level.error.rank⟩] else directives⟩, reports)

/-- The directive that decides about a target. -/
def directiveFor? (filter : LogFilter) (target : String) : Option LogDirective :=
  filter.directives.foldl (fun found directive =>
    if directive.target.toList.isPrefixOf target.toList &&
        found.all (·.target.length ≤ directive.target.length) then some directive
    else found) none

/-- Whether an event is written. -/
def passes (filter : LogFilter) (event : Event) : Bool :=
  (filter.directiveFor? event.target).any (·.rank ≤ event.level.rank)

end LogFilter

namespace FieldValue

/-- The value of a field in readable form. -/
def readable : FieldValue → String
  | .quoted text => Quoted.quote text
  | .bare text => text
  | .number n => toString n
  | .flag b => if b then "true" else "false"

/-- The value of a field in JSON. -/
def toJson : FieldValue → Json
  | .quoted text => .str text
  | .bare text => .str text
  | .number n => .nat n
  | .flag b => .bool b

end FieldValue

namespace Event

/-- All fields of an event but its message, its standard name first. -/
def namedFields (event : Event) : List (String × FieldValue) :=
  (event.name?.toList.map fun name => ("event", .quoted name)) ++ event.fields

/-- An event as a JSON object, without the time. -/
def toJson (event : Event) : Json :=
  .obj ([("level", .str event.level.name), ("message", .str event.message)] ++
    event.namedFields.map (fun (name, value) => (name, value.toJson)) ++
    [("target", .str event.target)])

/-- Text set to the right in a column of five. -/
def alignRight (s : String) : String :=
  String.ofList (List.replicate (5 - s.length) ' ' ++ s.toList)

/-- An event in readable form, with the line that follows it left empty. -/
def readable (time : String) (event : Event) : String :=
  "  " ++ time ++ " " ++ alignRight event.level.name ++ " " ++ event.target ++ ": " ++
    event.message ++
    String.join
      (event.namedFields.map fun (name, value) => ", " ++ name ++ ": " ++ value.readable) ++
    "\n\n"

/-- An event as a line of JSON. -/
def jsonLine (time : String) (event : Event) : String :=
  match event.toJson with
  | .obj members => (Json.obj (("timestamp", .str time) :: members)).compact ++ "\n"
  | other => other.compact ++ "\n"

/-- An event in a format. -/
def render (format : LogFormat) (time : String) (event : Event) : String :=
  match format with
  | .json => event.jsonLine time
  | .pretty => event.readable time

end Event

end RadixRouter
