import ResourceApi.Schema.Read
import ResourceApi.Schema.Validate

/-!
Schemas that refer to themselves. A document is a schema with definitions; a reference names the
schema as a whole or one of its definitions.
-/

namespace ResourceApi

namespace Json

mutual

/-- How many levels of arrays and objects a value has. -/
def depth : Json → Nat
  | .array items => depthOfItems items + 1
  | .object members => depthOfMembers members + 1
  | _ => 0

def depthOfItems : List Json → Nat
  | [] => 0
  | item :: items => max (depth item) (depthOfItems items)

def depthOfMembers : List (String × Json) → Nat
  | [] => 0
  | entry :: members => max (depthOfMember entry) (depthOfMembers members)

def depthOfMember : String × Json → Nat
  | (_, value) => depth value

end

end Json

namespace Schema

/-- A schema with the schemas that its references name. -/
structure Document where
  root : Schema
  definitions : List (String × Schema)
  deriving Repr, Inhabited

namespace Document

/-- The reference to the schema as a whole. -/
def rootReference : String := "#"

/-- The reference to a definition. -/
def definitionReference (name : String) : String :=
  "#" ++ Json.Pointer.push "/definitions" name

/-- The schema that a reference names. -/
def target? (d : Document) (pointer : String) : Option Schema :=
  if pointer = rootReference then some d.root else Entries.find? pointer d.definitions

/-- What references mean if they are followed so many times. -/
def meaning (d : Document) : Nat → Meaning
  | 0, _, _, _ => []
  | n + 1, pointer, path, v =>
    match d.target? pointer with
    | some s => Schema.violations (d.meaning n) s path v
    | none => []

/-- How many references are followed at most: on each level of the value every schema once. -/
def referenceLimit (d : Document) (v : Json) : Nat := (d.definitions.length + 1) * (v.depth + 1)

/-- What is wrong with a value. -/
def violations (d : Document) (v : Json) : List Violation :=
  Schema.violations (d.meaning (d.referenceLimit v)) d.root [] v

/-- The definitions of a schema by their references. -/
def definitionsOf : Json → List (String × Schema)
  | .object entries =>
    match Entries.find? "definitions" entries with
    | some (.object definitions) =>
      definitions.map fun entry => (definitionReference entry.1, Schema.ofJson entry.2)
    | _ => []
  | _ => []

def ofJson (v : Json) : Document := ⟨Schema.ofJson v, definitionsOf v⟩

end Document

end Schema

end ResourceApi
