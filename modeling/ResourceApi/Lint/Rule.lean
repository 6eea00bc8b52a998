import ResourceApi.Json.Kind
import ResourceApi.Lint.Diagnostic

/-!
Rules and rule sets. A rule picks parts of a document and says what must hold of each of them.
-/

namespace ResourceApi.Lint

/-- The kinds that a rule can demand, in the order in which they are offered. -/
def kindNames : List String :=
  ["string", "number", "integer", "boolean", "array", "object", "null"]

/-- The kind that a value names. -/
def kindOfJson (v : Json) : Except Json.Cause Json.Kind := v.choose kindNames Json.Kind.ofName?

/-- What must hold of a value. Each part but the kind only concerns values of one kind: the
required keys objects, the pattern strings, the least number of items arrays. -/
structure Assertion where
  required : List String
  kind : Option Json.Kind
  pattern : Option String
  minItems : Option Nat
  deriving DecidableEq, Repr, Inhabited

/-- A rule: which parts it is about, what must hold of them, and what is said if it does not. -/
structure Rule where
  name : String
  description : String
  severity : Severity
  given : String
  assertion : Assertion
  message : String
  enabled : Bool
  deriving DecidableEq, Repr, Inhabited

/-- A named list of rules. -/
structure RuleSet where
  name : String
  description : String
  documentationUrl : Option String
  rules : List Rule
  deriving DecidableEq, Repr, Inhabited

namespace Assertion

/-- Demands nothing. -/
def trivial : Assertion := ⟨[], none, none, none⟩

def toJson (a : Assertion) : Json :=
  .object ((if a.required.isEmpty then [] else
      [("required", Json.array (a.required.map .string))])
    ++ (a.kind.map fun k => ("type", Json.string k.name)).toList
    ++ (a.pattern.map fun p => ("pattern", Json.string p)).toList
    ++ (a.minItems.map fun n => ("min_items", Json.ofNat n)).toList)

end Assertion

namespace Rule

/-- Strings with a letter, a digit or an underscore of ASCII. -/
def wordPattern : String := "[A-Za-z0-9_]+"

/-- An enabled rule whose violation is an error. -/
def ofAssertion (name given : String) (assertion : Assertion) (message : String) : Rule :=
  ⟨name, "", .error, given, assertion, message, true⟩

/-- The objects must have these keys. -/
def requiring (name given : String) (keys : List String) (message : String) : Rule :=
  ofAssertion name given { Assertion.trivial with required := keys } message

/-- The values must be strings with a word character. -/
def nonEmptyString (name given message : String) : Rule :=
  ofAssertion name given
    { Assertion.trivial with kind := some .string, pattern := some wordPattern } message

def toJson (r : Rule) : Json :=
  .object [("name", .string r.name), ("description", .string r.description),
    ("severity", .string r.severity.name), ("given", .string r.given),
    ("then", r.assertion.toJson), ("message", .string r.message), ("enabled", .bool r.enabled)]

end Rule

namespace RuleSet

/-- The first rule with a name. -/
def rule? (s : RuleSet) (name : String) : Option Rule := s.rules.find? fun r => r.name = name

def toJson (s : RuleSet) : Json :=
  .object ([("name", .string s.name), ("description", .string s.description)]
    ++ (s.documentationUrl.map fun u => ("documentation_url", Json.string u)).toList
    ++ [("rules", .array (s.rules.map Rule.toJson))])

end RuleSet

end ResourceApi.Lint
