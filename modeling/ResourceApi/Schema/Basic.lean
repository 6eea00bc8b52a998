import ResourceApi.Json.Equality
import ResourceApi.Json.Kind
import ResourceApi.Json.Pointer
import ResourceApi.Schema.Format

/-!
Schemas say which JSON values are valid. A schema is a list of parts that must all hold; each part
is a check of the value itself or speaks about its members, its items or other schemas.
-/

namespace ResourceApi

namespace Schema

/-- Checks of a value that need no other schema. Each concerns values of one kind only, but for the
first three. -/
inductive Check where
  | kinds (allowed : List Json.Kind)
  | oneOf (options : List Json)
  | constant (v : Json)
  | required (names : List String)
  | pattern (source : String) (p : Pattern)
  | format (f : Format)
  | minLength (n : Nat)
  | maxLength (n : Nat)
  | minItems (n : Nat)
  | maxItems (n : Nat)
  | minProperties (n : Nat)
  | maxProperties (n : Nat)
  | minimum (n : Json.Number)
  | maximum (n : Json.Number)
  | exclusiveMinimum (n : Json.Number)
  | exclusiveMaximum (n : Json.Number)
  | uniqueItems
  deriving Repr, Inhabited

end Schema

/-- A schema. Members are those of an object: `known` ones have schemas of their own, and all others
are refused (`closed`) or have one schema in common (`members`). -/
inductive Schema where
  | never
  | all (parts : List Schema)
  | any (alternatives : List Schema)
  | one (alternatives : List Schema)
  | negation (written : Json) (s : Schema)
  | check (c : Schema.Check)
  | properties (known : List (String × Schema))
  | closed (known : List (String × Schema))
  | members (known : List (String × Schema)) (others : Schema)
  | noMembers
  | names (s : Schema)
  | items (s : Schema)
  | tuple (ss : List Schema)
  | reference (pointer : String)
  deriving Repr, Inhabited

namespace Schema

/-- Why a value is not valid. -/
inductive Fault where
  | never
  | kinds (allowed : List Json.Kind)
  | oneOf (options : List Json)
  | constant (v : Json)
  | required (name : String)
  | pattern (source : String)
  | format (f : Format)
  | minLength (n : Nat)
  | maxLength (n : Nat)
  | minItems (n : Nat)
  | maxItems (n : Nat)
  | minProperties (n : Nat)
  | maxProperties (n : Nat)
  | minimum (n : Json.Number)
  | maximum (n : Json.Number)
  | exclusiveMinimum (n : Json.Number)
  | exclusiveMaximum (n : Json.Number)
  | uniqueItems
  | unexpected (names : List String)
  | noneOf (keyword : String)
  | severalOf
  | forbidden (written : Json)
  deriving Repr, Inhabited

/-- A count with its noun. -/
def counted (n : Nat) (one many : String) : String :=
  toString n ++ " " ++ if n = 1 then one else many

/-- What is wrong with a value. -/
def Fault.message (v : Json) (f : Fault) : String :=
  let text := v.compact
  let quoted (k : Json.Kind) : String := "\"" ++ k.name ++ "\""
  match f with
  | .never => "False schema does not allow " ++ text
  | .kinds [k] => text ++ " is not of type " ++ quoted k
  | .kinds ks => text ++ " is not of types "
      ++ String.intercalate ", " ((Json.Kind.all.filter ks.contains).map quoted)
  | .oneOf options => text ++ " is not one of " ++ (Json.array options).compact
  | .constant c => c.compact ++ " was expected"
  | .required name => Json.quote name ++ " is a required property"
  | .pattern source => text ++ " does not match \"" ++ source ++ "\""
  | .format k => text ++ " is not a \"" ++ k.name ++ "\""
  | .minLength n => text ++ " is shorter than " ++ counted n "character" "characters"
  | .maxLength n => text ++ " is longer than " ++ counted n "character" "characters"
  | .minItems n => text ++ " has less than " ++ counted n "item" "items"
  | .maxItems n => text ++ " has more than " ++ counted n "item" "items"
  | .minProperties n => text ++ " has less than " ++ counted n "property" "properties"
  | .maxProperties n => text ++ " has more than " ++ counted n "property" "properties"
  | .minimum n => text ++ " is less than the minimum of " ++ n.render
  | .maximum n => text ++ " is greater than the maximum of " ++ n.render
  | .exclusiveMinimum n => text ++ " is less than or equal to the minimum of " ++ n.render
  | .exclusiveMaximum n => text ++ " is greater than or equal to the maximum of " ++ n.render
  | .uniqueItems => text ++ " has non-unique elements"
  | .unexpected keys =>
    "Additional properties are not allowed ("
      ++ String.intercalate ", " (keys.map fun key => String.ofList ('\'' :: key.toList ++ ['\'']))
      ++ (if keys.length = 1 then " was" else " were") ++ " unexpected)"
  | .noneOf keyword => String.ofList (text.toList
      ++ " is not valid under any of the schemas listed in the ".toList
      ++ '\'' :: keyword.toList ++ "' keyword".toList)
  | .severalOf =>
    text ++ " is valid under more than one of the schemas listed in the 'oneOf' keyword"
  | .forbidden written => written.compact ++ " is not allowed for " ++ text

/-- A value that is not valid, where it is, and why. -/
structure Violation where
  path : Json.Path
  value : Json
  fault : Fault
  deriving Repr, Inhabited

namespace Violation

def pointer (x : Violation) : String := Json.Pointer.ofPath x.path

def message (x : Violation) : String := x.fault.message x.value

end Violation

end Schema

end ResourceApi
