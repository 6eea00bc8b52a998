import ResourceApi.Lint.Checked
import ResourceApi.Lint.GeneratorSyntax
import ResourceApi.Lint.SchemaLinter

/-!
The built-in linters and their names.
-/

namespace ResourceApi.Lint

namespace CheckedRuleSet

/-- The rules for resource descriptions, ready for use. -/
def generatorSyntax : CheckedRuleSet :=
  (ofRuleSet .generatorSyntax).toOption.getD ⟨RuleSet.generatorSyntax.name, []⟩

/-- All selectors and patterns of the built-in rules can be read. -/
theorem ofRuleSet_generatorSyntax : ofRuleSet .generatorSyntax = .ok generatorSyntax := by
  have h : (ofRuleSet .generatorSyntax).isOk = true := by decide +kernel
  unfold generatorSyntax
  cases hs : ofRuleSet .generatorSyntax with
  | error e => simp [hs, Except.isOk, Except.toBool] at h
  | ok c => rfl

end CheckedRuleSet

/-- Linters that can be asked for by name. -/
inductive Builtin where
  | generatorSyntax
  | parameters
  deriving DecidableEq, Repr, Inhabited

/-- No built-in linter has this name. -/
structure UnknownLinter where
  name : String
  deriving DecidableEq, Repr

def UnknownLinter.message (e : UnknownLinter) : String := "Unknown linter: " ++ e.name

namespace Builtin

def all : List Builtin := [.generatorSyntax, .parameters]

def name : Builtin → String
  | .generatorSyntax => "generator-syntax"
  | .parameters => "parameters"

def ofName? (s : String) : Option Builtin := all.find? fun b => b.name = s

theorem ofName?_name (b : Builtin) : ofName? b.name = some b := by
  cases b <;> decide

def ofName (s : String) : Except UnknownLinter Builtin :=
  match ofName? s with
  | some b => .ok b
  | none => .error ⟨s⟩

/-- The linter itself. -/
def linter : Builtin → Linter
  | .generatorSyntax => CheckedRuleSet.generatorSyntax.toLinter
  | .parameters => (SchemaLinter.parameters "parameters").toLinter

/-- Checks names, from the first to the last. -/
def ofNames (names : List String) : Except UnknownLinter (List Builtin) := names.mapM ofName

end Builtin

end ResourceApi.Lint
