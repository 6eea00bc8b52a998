import ResourceApi.Schema.Basic

/-!
What is wrong with a value under a schema. Faults come in the order of the parts of the schema;
those of members in the order of the schema if nothing is said about other members, and in the order
of the object otherwise; those of items in the order of the array.
-/

namespace ResourceApi.Schema

/-! ### Checks -/

/-- Items are compared as doubles, but in arrays of more than this many items numbers of different
kinds differ. -/
def pairwiseLimit : Nat := 15

/-- Whether no item is equal to a later one. -/
def allDistinct (equal : Json → Json → Bool) : List Json → Bool
  | [] => true
  | v :: vs => !vs.any (equal v) && allDistinct equal vs

def hasUniqueItems (vs : List Json) : Bool :=
  if vs.length ≤ pairwiseLimit then allDistinct Json.equal vs
  else allDistinct (Json.equalBy Json.Number.sameKind) vs

/-- Equality with a constant: numbers on the outside may differ a little. -/
def isConstant (c v : Json) : Bool :=
  match c, v with
  | .number a, .number b => a.near b
  | c, v => c.equal v

/-- One fault unless a condition holds. -/
def faultUnless (condition : Bool) (f : Fault) : List Fault := if condition then [] else [f]

namespace Check

def faults (c : Check) (v : Json) : List Fault :=
  match c, v with
  | .kinds allowed, v =>
    faultUnless (allowed.any fun k => k.holds Json.Kind.isWhole v) (.kinds allowed)
  | .oneOf options, v => faultUnless (options.any fun o => v.equal o) (.oneOf options)
  | .constant c, v => faultUnless (isConstant c v) (.constant c)
  | .required keys, .object entries =>
    (keys.filter fun key => (Entries.find? key entries).isNone).map .required
  | .pattern source p, .string s => faultUnless (p.matchesIn s) (.pattern source)
  | .format f, .string s => faultUnless (f.holds s) (.format f)
  | .minLength n, .string s => faultUnless (n ≤ s.length) (.minLength n)
  | .maxLength n, .string s => faultUnless (s.length ≤ n) (.maxLength n)
  | .minItems n, .array vs => faultUnless (n ≤ vs.length) (.minItems n)
  | .maxItems n, .array vs => faultUnless (vs.length ≤ n) (.maxItems n)
  | .minProperties n, .object entries => faultUnless (n ≤ entries.length) (.minProperties n)
  | .maxProperties n, .object entries => faultUnless (entries.length ≤ n) (.maxProperties n)
  | .minimum n, .number x => faultUnless (x.compare n ≠ .lt) (.minimum n)
  | .maximum n, .number x => faultUnless (x.compare n ≠ .gt) (.maximum n)
  | .exclusiveMinimum n, .number x => faultUnless (x.compare n = .gt) (.exclusiveMinimum n)
  | .exclusiveMaximum n, .number x => faultUnless (x.compare n = .lt) (.exclusiveMaximum n)
  | .uniqueItems, .array vs => faultUnless (hasUniqueItems vs) .uniqueItems
  | _, _ => []

end Check

/-! ### Schemas -/

/-- What references mean: the violations of the value at a path. -/
abbrev Meaning := String → Json.Path → Json → List Violation

mutual

/-- The violations of a value at a path. -/
def violations (refs : Meaning) : Schema → Json.Path → Json → List Violation
  | .never, path, v => [⟨path, v, .never⟩]
  | .all parts, path, v => (eachViolations refs parts path v).flatten
  | .any alternatives, path, v =>
    if (eachViolations refs alternatives path v).any List.isEmpty then []
    else [⟨path, v, .noneOf "anyOf"⟩]
  | .one alternatives, path, v =>
    match (eachViolations refs alternatives path v).countP List.isEmpty with
    | 0 => [⟨path, v, .noneOf "oneOf"⟩]
    | 1 => []
    | _ => [⟨path, v, .severalOf⟩]
  | .negation written s, path, v =>
    if (violations refs s path v).isEmpty then [⟨path, v, .forbidden written⟩] else []
  | .check c, path, v => (c.faults v).map fun f => ⟨path, v, f⟩
  | .properties known, path, .object entries => knownViolations refs known path entries
  | .closed known, path, .object entries =>
    let unknown := (entries.map Prod.fst).filter fun key => (Entries.find? key known).isNone
    (entries.flatMap fun entry =>
        (memberViolations refs known entry.1 (path ++ [.key entry.1]) entry.2).getD [])
      ++ if unknown.isEmpty then [] else [⟨path, .object entries, .unexpected unknown⟩]
  | .members known others, path, .object entries =>
    entries.flatMap fun entry =>
      let here := path ++ [.key entry.1]
      (memberViolations refs known entry.1 here entry.2).getD (violations refs others here entry.2)
  | .noMembers, path, .object ((_, v) :: _) => [⟨path, v, .never⟩]
  | .names s, path, .object entries =>
    entries.flatMap fun entry => violations refs s path (.string entry.1)
  | .items s, path, .array vs =>
    (vs.mapIdx fun i v => violations refs s (path ++ [.index i]) v).flatten
  | .tuple ss, path, .array vs => tupleViolations refs ss path 0 vs
  | .reference pointer, path, v => refs pointer path v
  | _, _, _ => []

/-- The violations under each of several schemas. -/
def eachViolations (refs : Meaning) : List Schema → Json.Path → Json → List (List Violation)
  | [], _, _ => []
  | s :: ss, path, v => violations refs s path v :: eachViolations refs ss path v

/-- The violations of the known members, in the order of the schema. -/
def knownViolations (refs : Meaning) :
    List (String × Schema) → Json.Path → List (String × Json) → List Violation
  | [], _, _ => []
  | first :: known, path, entries =>
    entryViolations refs first path entries ++ knownViolations refs known path entries

def entryViolations (refs : Meaning) :
    String × Schema → Json.Path → List (String × Json) → List Violation
  | (key, s), path, entries =>
    match Entries.find? key entries with
    | some v => violations refs s (path ++ [.key key]) v
    | none => []

/-- The violations of one member, if it is known. -/
def memberViolations (refs : Meaning) :
    List (String × Schema) → String → Json.Path → Json → Option (List Violation)
  | [], _, _, _ => none
  | first :: known, key, path, v =>
    if first.1 = key then some (entryValueViolations refs first path v)
    else memberViolations refs known key path v

def entryValueViolations (refs : Meaning) : String × Schema → Json.Path → Json → List Violation
  | (_, s), path, v => violations refs s path v

/-- The violations of items under schemas of their own, from an index on. -/
def tupleViolations (refs : Meaning) :
    List Schema → Json.Path → Nat → List Json → List Violation
  | s :: ss, path, i, v :: vs =>
    violations refs s (path ++ [.index i]) v ++ tupleViolations refs ss path (i + 1) vs
  | _, _, _, _ => []

end

end ResourceApi.Schema
