import ResourceApi.Schema.Basic

/-!
Schemas as JSON values. The keywords of an object are the parts of the schema, in the order in which
they are written; a keyword that is not known, or whose value has the wrong shape, says nothing.
What `properties` says is part of `additionalProperties` if that restricts the other members.
-/

namespace ResourceApi.Schema

/-- A count: a natural number, or a double without a fraction. Beyond 64 bits it is the greatest
number that has 64 bits. -/
def countOf? : Json → Option Nat
  | .number (.integer (.ofNat n)) => some n
  | .number (.real x) =>
    let (n, d) := x.magnitude
    some (if x.negative then 0 else min (n / d) (Nat.pow 2 64 - 1))
  | _ => none

def numberOf? : Json → Option Json.Number
  | .number n => some n
  | _ => none

def stringOf? : Json → Option String
  | .string s => some s
  | _ => none

/-- The kinds that one name or several names allow. -/
def kindsOf? : Json → Option (List Json.Kind)
  | .string name => (Json.Kind.ofName? name).map fun k => [k]
  | .array vs => vs.mapM fun v => (stringOf? v).bind Json.Kind.ofName?
  | _ => none

/-- The check of a keyword. -/
def Check.ofKeyword? (keyword : String) (v : Json) : Option Check :=
  match keyword with
  | "type" => (kindsOf? v).map .kinds
  | "enum" =>
    match v with
    | .array options => some (.oneOf options)
    | _ => none
  | "const" => some (.constant v)
  | "required" =>
    match v with
    | .array vs => (vs.mapM stringOf?).map .required
    | _ => none
  | "pattern" => do
    let source ← stringOf? v
    return .pattern source (← patternOf? source)
  | "format" => do
    let name ← stringOf? v
    return .format (← Format.ofName? name)
  | "minLength" => (countOf? v).map .minLength
  | "maxLength" => (countOf? v).map .maxLength
  | "minItems" => (countOf? v).map .minItems
  | "maxItems" => (countOf? v).map .maxItems
  | "minProperties" => (countOf? v).map .minProperties
  | "maxProperties" => (countOf? v).map .maxProperties
  | "minimum" => (numberOf? v).map .minimum
  | "maximum" => (numberOf? v).map .maximum
  | "exclusiveMinimum" => (numberOf? v).map .exclusiveMinimum
  | "exclusiveMaximum" => (numberOf? v).map .exclusiveMaximum
  | "uniqueItems" =>
    match v with
    | .bool true => some .uniqueItems
    | _ => none
  | _ => none

/-- Whether members other than the known ones are restricted. -/
def restricts : Json → Bool
  | .bool false => true
  | .object _ => true
  | _ => false

mutual

/-- The schema that a value describes. -/
def ofJson : Json → Schema
  | .bool false => .never
  | .object entries =>
    match Entries.find? "$ref" entries with
    | some (.string pointer) => .reference pointer
    | _ =>
      .all (partsOf (knownOf entries)
        ((Entries.find? "additionalProperties" entries).any restricts) entries)
  | _ => .all []

/-- The parts that keywords stand for. -/
def partsOf (known : Option (List (String × Schema))) (restricted : Bool) :
    List (String × Json) → List Schema
  | [] => []
  | entry :: entries => partOf known restricted entry ++ partsOf known restricted entries

/-- The part that one keyword stands for, if it stands for any. -/
def partOf (known : Option (List (String × Schema))) (restricted : Bool) :
    String × Json → List Schema
  | (keyword, v) =>
    if keyword = "properties" then
      if restricted then [] else (known.map .properties).toList
    else if keyword = "additionalProperties" then
      match v with
      | .bool false => [(known.map .closed).getD .noMembers]
      | .object _ => [.members (known.getD []) (ofJson v)]
      | _ => []
    else if keyword = "items" then
      match v with
      | .bool true => []
      | .array _ => [.tuple (itemsOf v)]
      | _ => [.items (ofJson v)]
    else if keyword = "propertyNames" then [.names (ofJson v)]
    else if keyword = "anyOf" then [.any (itemsOf v)]
    else if keyword = "allOf" then [.all (itemsOf v)]
    else if keyword = "oneOf" then [.one (itemsOf v)]
    else if keyword = "not" then [.negation v (ofJson v)]
    else ((Check.ofKeyword? keyword v).map .check).toList

/-- The schemas of an array. -/
def itemsOf : Json → List Schema
  | .array vs => schemasOf vs
  | _ => []

def schemasOf : List Json → List Schema
  | [] => []
  | v :: vs => ofJson v :: schemasOf vs

/-- The schemas of the known members, if keywords give any. -/
def knownOf : List (String × Json) → Option (List (String × Schema))
  | [] => none
  | entry :: entries => if entry.1 = "properties" then namedIn entry else knownOf entries

def namedIn : String × Json → Option (List (String × Schema))
  | (_, v) => namedOf v

/-- The schemas of an object of schemas. -/
def namedOf : Json → Option (List (String × Schema))
  | .object entries => some (entriesOf entries)
  | _ => none

def entriesOf : List (String × Json) → List (String × Schema)
  | [] => []
  | entry :: entries => entryOf entry :: entriesOf entries

def entryOf : String × Json → String × Schema
  | (name, v) => (name, ofJson v)

end

end ResourceApi.Schema
