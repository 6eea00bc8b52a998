import ResourceApi.Json.Choice
import ResourceApi.Json.Record

/-!
Findings of linters. A diagnostic names its linter and the range of characters it is about.
-/

namespace ResourceApi.Lint

/-- How grave a finding is. -/
inductive Severity where
  | error
  | warning
  | info
  | hint
  deriving DecidableEq, Repr, Inhabited

namespace Severity

def all : List Severity := [.error, .warning, .info, .hint]

def name : Severity → String
  | .error => "error"
  | .warning => "warning"
  | .info => "info"
  | .hint => "hint"

def ofName? (s : String) : Option Severity := all.find? fun v => v.name = s

theorem ofName?_name (v : Severity) : ofName? v.name = some v := by
  cases v <;> decide

def decoder : Json.Decoder Severity := Json.Decoder.choice (all.map name) ofName?

/-- The severity that a value names. -/
def ofJson (v : Json) : Except Json.Cause Severity := v.choose (all.map name) ofName?

end Severity

/-- A finding with the range of characters it is about, without its end, and the name of the rule
it comes from, if there is one. -/
structure Diagnostic where
  source : String
  start : Nat
  stop : Nat
  severity : Severity
  message : String
  code : Option String
  deriving DecidableEq, Repr, Inhabited

namespace Diagnostic

/-- The message with the name of its rule in front. -/
def display (d : Diagnostic) : String :=
  match d.code with
  | some code => "[" ++ code ++ "] " ++ d.message
  | none => d.message

def isError (d : Diagnostic) : Bool := d.severity = .error

/-- Says of a whole text that it is no JSON, and why. -/
def ofParseFailure (source text : String) (e : Json.Error) : Diagnostic where
  source := source
  start := 0
  stop := text.length
  severity := .error
  message := "Invalid JSON: " ++ e.message
  code := none

def toJson (d : Diagnostic) : Json :=
  .object ([("source", .string d.source), ("from", .ofNat d.start), ("to", .ofNat d.stop),
    ("severity", .string d.severity.name), ("message", .string d.message)]
    ++ (d.code.map fun c => ("code", Json.string c)).toList)

open Json in
def record : Record Diagnostic where
  name := "struct Diagnostic"
  initial := default
  fields := [
    .mandatory "source" Decoder.string fun d s => { d with source := s },
    .mandatory "from" Decoder.natural fun d n => { d with start := n },
    .mandatory "to" Decoder.natural fun d n => { d with stop := n },
    .mandatory "severity" Severity.decoder fun d s => { d with severity := s },
    .mandatory "message" Decoder.string fun d s => { d with message := s },
    .defaulted "code" (Decoder.optional Decoder.string) fun d c => { d with code := c }]

end Diagnostic

end ResourceApi.Lint
