import ResourceApi.Lint.Rule
import ResourceApi.Yaml.Typed

/-!
The written form of rule sets, in YAML.
-/

namespace ResourceApi.Lint

open Yaml

def Assertion.ofNode? (node : Node) : Option Assertion := do
  let fields ← node.fields? ["required", "type", "pattern", "min_items"]
  return {
    required := ← Node.defaulted? fields "required" [] (Node.list? Node.string?)
    kind := ← Node.defaulted? fields "type" none (Node.optional? (Node.choice? Json.Kind.ofName?))
    pattern := ← Node.defaulted? fields "pattern" none (Node.optional? Node.string?)
    minItems := ← Node.defaulted? fields "min_items" none (Node.optional? Node.natural?) }

def Rule.ofNode? (node : Node) : Option Rule := do
  let fields ← node.fields?
    ["name", "description", "severity", "given", "then", "message", "enabled"]
  return {
    name := ← Node.required? fields "name" Node.string?
    description := ← Node.defaulted? fields "description" "" Node.string?
    severity := ← Node.defaulted? fields "severity" .error (Node.choice? Severity.ofName?)
    given := ← Node.required? fields "given" Node.string?
    assertion := ← Node.required? fields "then" Assertion.ofNode?
    message := ← Node.required? fields "message" Node.string?
    enabled := ← Node.defaulted? fields "enabled" true Node.bool? }

namespace RuleSet

def ofNode? (node : Node) : Option RuleSet := do
  let fields ← node.fields? ["name", "description", "documentation_url", "rules"]
  return {
    name := ← Node.required? fields "name" Node.string?
    description := ← Node.defaulted? fields "description" "" Node.string?
    documentationUrl :=
      ← Node.defaulted? fields "documentation_url" none (Node.optional? Node.string?)
    rules := ← Node.defaulted? fields "rules" [] (Node.list? Rule.ofNode?) }

/-- Reads a rule set from its YAML text. -/
def ofText? (text : String) : Option RuleSet := (Node.ofText? text).bind ofNode?

end RuleSet

end ResourceApi.Lint
