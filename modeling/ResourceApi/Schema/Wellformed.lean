import ResourceApi.Schema.Document
import ResourceApi.Schema.Validator

/-!
What a schema itself must look like, and the validator for schemas that look so. A value is read as a
schema only if the schema of schemas finds nothing wrong with it. No schema is read only in part: a
schema with a keyword, a format or a reference that is not covered here is refused.
-/

namespace ResourceApi.Schema

/-- The value is of a kind. -/
def ofKind (k : Json.Kind) : Schema := .check (.kinds [k])

/-- A string of a format. -/
def ofFormat (f : Format) : Schema := .all [ofKind .string, .check (.format f)]

namespace Document

/-- A reference to a definition. -/
def defined (name : String) : Schema := .reference (definitionReference name)

/-- A reference to the schema as a whole. -/
def itself : Schema := .reference rootReference

/-- A keyword that has a meaning which is not covered here: no schema may have it. -/
def notCovered (s : Schema) : Schema := .all [s, .never]

/-- Formats that have a meaning which is not covered here. -/
def formatsNotCovered : List String :=
  ["date", "date-time", "duration", "hostname", "idn-email", "idn-hostname", "ipv4", "ipv6", "iri",
    "iri-reference", "json-pointer", "relative-json-pointer", "time", "uri-template", "uuid"]

/-- The name of a format. A name that means nothing may be given as well. -/
def formatName : Schema :=
  let others : List Json := formatsNotCovered.map .string
  .all [ofKind .string, .negation (.object [("enum", .array others)]) (.check (.oneOf others))]

/-- An object whose members are all schemas. -/
def schemaMap : Schema := .all [ofKind .object, .members [] itself]

/-- The definitions of the schema of schemas. -/
def schemaDefinitions : List (String × Schema) := [
  (definitionReference "schemaArray",
    .all [ofKind .array, .check (.minItems 1), .items itself]),
  (definitionReference "nonNegativeInteger",
    .all [ofKind .integer, .check (.minimum (.integer 0))]),
  (definitionReference "nonNegativeIntegerDefault0",
    .all [.all [defined "nonNegativeInteger", .all []]]),
  (definitionReference "simpleTypes",
    .all [.check (.oneOf (Json.Kind.all.map fun k => .string k.name))]),
  (definitionReference "stringArray",
    .all [ofKind .array, .items (ofKind .string), .check .uniqueItems])]

/-- What the keywords of a schema may be, if it may have these references. -/
def keywords (references : List String) : List (String × Schema) := [
  ("$id", notCovered (ofFormat .uriReference)),
  ("$schema", ofFormat .uri),
  ("$ref", .all [ofFormat .uriReference, .check (.oneOf (references.map .string))]),
  ("$comment", ofKind .string),
  ("title", ofKind .string),
  ("description", ofKind .string),
  ("default", .all []),
  ("readOnly", ofKind .boolean),
  ("examples", ofKind .array),
  ("multipleOf", notCovered (.all [ofKind .number, .check (.exclusiveMinimum (.integer 0))])),
  ("maximum", ofKind .number),
  ("exclusiveMaximum", ofKind .number),
  ("minimum", ofKind .number),
  ("exclusiveMinimum", ofKind .number),
  ("maxLength", defined "nonNegativeInteger"),
  ("minLength", defined "nonNegativeIntegerDefault0"),
  ("pattern", ofFormat .regex),
  ("additionalItems", notCovered itself),
  ("items", .any [itself, defined "schemaArray"]),
  ("maxItems", defined "nonNegativeInteger"),
  ("minItems", defined "nonNegativeIntegerDefault0"),
  ("uniqueItems", ofKind .boolean),
  ("contains", notCovered itself),
  ("maxProperties", defined "nonNegativeInteger"),
  ("minProperties", defined "nonNegativeIntegerDefault0"),
  ("required", defined "stringArray"),
  ("additionalProperties", itself),
  ("definitions", schemaMap),
  ("properties", schemaMap),
  ("patternProperties", notCovered (.all [schemaMap, .names (.check (.format .regex))])),
  ("dependencies",
    notCovered (.all [ofKind .object, .members [] (.any [itself, defined "stringArray"])])),
  ("propertyNames", itself),
  ("const", .all []),
  ("enum", ofKind .array),
  ("type", .any [defined "simpleTypes",
    .all [ofKind .array, .items (defined "simpleTypes"), .check (.minItems 1),
      .check .uniqueItems]]),
  ("format", formatName),
  ("contentMediaType", notCovered (ofKind .string)),
  ("contentEncoding", notCovered (ofKind .string)),
  ("if", notCovered itself),
  ("then", notCovered itself),
  ("else", notCovered itself),
  ("allOf", defined "schemaArray"),
  ("anyOf", defined "schemaArray"),
  ("oneOf", defined "schemaArray"),
  ("not", itself)]

/-- The schema of schemas that may have these references. -/
def schemaOfSchemas (references : List String) : Document where
  root := .all [.check (.kinds [.boolean, .object]), .properties (keywords references)]
  definitions := schemaDefinitions

/-- The references that lead to a schema: to the schema as a whole, and to each of its definitions.
A percent sign in a reference is the start of an escape, so a name that has one is left out. -/
def referencesOf (v : Json) : List String :=
  rootReference :: ((definitionsOf v).map Prod.fst).filter fun reference =>
    !reference.toList.contains '%'

/-- Reads a schema that is itself valid, or says the first thing that is wrong with it. -/
def check (v : Json) : Except String Document :=
  match (schemaOfSchemas (referencesOf v)).violations v with
  | [] => .ok (ofJson v)
  | x :: _ => .error x.message

/-- What is wrong with a value, in words. -/
def validate (d : Document) (v : Json) : List Objection :=
  (d.violations v).map fun x => ⟨x.pointer, x.message⟩

end Document

/-- The validator for the schemas that are covered here. -/
def validator : Validator := fun v => (Document.check v).map Document.validate

end ResourceApi.Schema
