import ResourceApi.Json.Selector
import ResourceApi.Json.Spans
import ResourceApi.Lint.Linter
import ResourceApi.Lint.Rule
import ResourceApi.Pattern.Engine

/-!
Rule sets whose selectors and patterns have been read. Each rule is checked on every part it picks,
and each violation is one diagnostic on the characters of that part.
-/

namespace ResourceApi.Lint

/-- Why a rule cannot be used. -/
inductive RuleError where
  | selector (e : Json.Selector.Error)
  | pattern (rule : String)
  deriving Repr, Inhabited

/-- A rule with its selector and the strings that its pattern matches. -/
structure CheckedRule where
  rule : Rule
  selector : Json.Selector
  pattern : Option (String → Bool)
  deriving Inhabited

namespace CheckedRule

/-- Reads the selector of a rule and then, with an engine, its pattern. -/
def ofRuleBy (engine : Pattern.Engine) (rule : Rule) : Except RuleError CheckedRule :=
  match Json.Selector.parse rule.given with
  | .error e => .error (.selector e)
  | .ok selector =>
    match rule.assertion.pattern with
    | none => .ok ⟨rule, selector, none⟩
    | some text =>
      match engine text with
      | some isMatched => .ok ⟨rule, selector, some isMatched⟩
      | none => .error (.pattern rule.name)

/-- Whether an object has all required keys. -/
def hasRequired (keys : List String) : Json → Bool
  | .object members => keys.all fun key => (Entries.find? key members).isSome
  | _ => true

/-- Whether a string is matched somewhere by the pattern. -/
def matchesPattern (pattern : Option (String → Bool)) (v : Json) : Bool :=
  match pattern, v with
  | some isMatched, .string s => isMatched s
  | _, _ => true

/-- Whether an array has enough items. -/
def hasItems (least : Option Nat) (v : Json) : Bool :=
  match least, v with
  | some least, .array items => decide (least ≤ items.length)
  | _, _ => true

/-- Whether the assertion of the rule holds of a value. Integers are numbers that were read as
such. -/
def holds (c : CheckedRule) (v : Json) : Bool :=
  hasRequired c.rule.assertion.required v
    && (c.rule.assertion.kind.map fun kind => kind.holds Json.Kind.isInteger v).getD true
    && matchesPattern c.pattern v
    && hasItems c.rule.assertion.minItems v

/-- The diagnostic of a violation on a range of characters. -/
def diagnostic (c : CheckedRule) (source : String) (span : Span) : Diagnostic :=
  ⟨source, span.start, span.stop, c.rule.severity, c.rule.message, some c.rule.name⟩

/-- The violations in a document. A part without a place of its own is the whole text. -/
def violations (c : CheckedRule) (source : String) (document : Json) (spans : Json.Spans)
    (whole : Span) : List Diagnostic :=
  ((c.selector.select document).filter fun part => !c.holds part.value).map fun part =>
    c.diagnostic source ((spans.find? part.pointer).getD whole)

end CheckedRule

/-- The enabled rules of a rule set, ready for use. -/
structure CheckedRuleSet where
  name : String
  rules : List CheckedRule
  deriving Inhabited

namespace CheckedRuleSet

/-- Reads the enabled rules with an engine; the first one that cannot be used is the error. -/
def ofRuleSetBy (engine : Pattern.Engine) (s : RuleSet) : Except RuleError CheckedRuleSet :=
  ((s.rules.filter fun rule => rule.enabled).mapM (CheckedRule.ofRuleBy engine)).map fun rules =>
    ⟨s.name, rules⟩

/-- Reads the enabled rules, whose patterns are in the plain dialect. -/
def ofRuleSet (s : RuleSet) : Except RuleError CheckedRuleSet := ofRuleSetBy Pattern.plainEngine s

/-- The violations of all rules, in the order of the rules. -/
def evaluate (c : CheckedRuleSet) (document : Json) (spans : Json.Spans) (whole : Span) :
    List Diagnostic :=
  c.rules.flatMap fun rule => rule.violations c.name document spans whole

/-- The diagnostics of a text. -/
def lint (c : CheckedRuleSet) (text : String) : List Diagnostic :=
  match Json.parse text with
  | .error e => [.ofParseFailure c.name text e]
  | .ok document =>
    let spans := (Json.Spans.parse text).toOption.getD ⟨[]⟩
    c.evaluate document spans ⟨0, text.length⟩

def toLinter (c : CheckedRuleSet) : Linter := ⟨c.name, c.lint⟩

end CheckedRuleSet

end ResourceApi.Lint
