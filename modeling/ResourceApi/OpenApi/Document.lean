import ResourceApi.Description
import ResourceApi.Yaml.Printer

/-!
OpenAPI documents as far as they are generated: operations by path, schema stubs, one shared path
parameter. Fields are written in the order of their declaration and maps in the order of their
keys, so equal documents have equal texts.
-/

namespace ResourceApi.OpenApi

/-- A `$ref`, to a place in the document or in another one. -/
structure Reference where
  target : String
  deriving DecidableEq, Repr, Inhabited

structure MediaType where
  schema : Reference
  deriving DecidableEq, Repr, Inhabited

/-- A response that is written out. -/
structure InlineResponse where
  headers : Dict Reference
  description : String
  content : Dict MediaType
  deriving DecidableEq, Repr, Inhabited

/-- A response is a reference or written out. -/
inductive Response where
  | reference (r : Reference)
  | inline (r : InlineResponse)
  deriving DecidableEq, Repr, Inhabited

structure Operation where
  operationId : String
  description : String
  summary : String
  tags : List String
  responses : Dict Response
  deriving DecidableEq, Repr, Inhabited

/-- The operations of one path; each path has one that reads. -/
structure PathItem where
  parameters : List Reference
  get : Operation
  put : Option Operation
  post : Option Operation
  delete : Option Operation
  deriving DecidableEq, Repr, Inhabited

structure PropertySchema where
  kind : String
  format : Option String
  deriving DecidableEq, Repr, Inhabited

structure Schema where
  properties : Dict PropertySchema
  deriving DecidableEq, Repr, Inhabited

structure Parameter where
  name : String
  location : String
  description : String
  required : Bool
  schema : PropertySchema
  deriving DecidableEq, Repr, Inhabited

structure Components where
  schemas : Dict Schema
  parameters : Dict Parameter
  deriving DecidableEq, Repr, Inhabited

structure Info where
  title : String
  description : String
  version : String
  contact : Contact
  deriving DecidableEq, Repr, Inhabited

structure Server where
  url : String
  deriving DecidableEq, Repr, Inhabited

structure Tag where
  name : String
  description : String
  deriving DecidableEq, Repr, Inhabited

structure Document where
  openapi : String
  info : Info
  servers : List Server
  tags : List Tag
  paths : Dict PathItem
  components : Components
  deriving DecidableEq, Repr, Inhabited

namespace PathItem

/-- The operations with their methods, in the order in which they are written. -/
def operations (p : PathItem) : List (String × Operation) :=
  [("get", p.get)] ++ (p.put.map (("put", ·))).toList ++ (p.post.map (("post", ·))).toList
    ++ (p.delete.map (("delete", ·))).toList

def methods (p : PathItem) : List String := p.operations.map Prod.fst

end PathItem

/-! ### Trees -/

def dictToJson {α : Type} (f : α → Json) (d : Dict α) : Json :=
  .object (d.entries.map fun entry => (entry.1, f entry.2))

def Reference.toJson (r : Reference) : Json := .object [("$ref", .string r.target)]

def MediaType.toJson (m : MediaType) : Json := .object [("schema", m.schema.toJson)]

def InlineResponse.toJson (r : InlineResponse) : Json :=
  .object [("headers", dictToJson Reference.toJson r.headers),
    ("description", .string r.description), ("content", dictToJson MediaType.toJson r.content)]

def Response.toJson : Response → Json
  | .reference r => r.toJson
  | .inline r => r.toJson

def Operation.toJson (o : Operation) : Json :=
  .object [("operationId", .string o.operationId), ("description", .string o.description),
    ("summary", .string o.summary), ("tags", .array (o.tags.map .string)),
    ("responses", dictToJson Response.toJson o.responses)]

def PathItem.toJson (p : PathItem) : Json :=
  .object ((if p.parameters.isEmpty then []
      else [("parameters", .array (p.parameters.map Reference.toJson))])
    ++ p.operations.map fun entry => (entry.1, entry.2.toJson))

def PropertySchema.toJson (s : PropertySchema) : Json :=
  .object ([("type", .string s.kind)] ++ (s.format.map fun f => ("format", Json.string f)).toList)

def Schema.toJson (s : Schema) : Json :=
  .object [("properties", dictToJson PropertySchema.toJson s.properties)]

def Parameter.toJson (p : Parameter) : Json :=
  .object [("name", .string p.name), ("in", .string p.location),
    ("description", .string p.description), ("required", .bool p.required),
    ("schema", p.schema.toJson)]

def Components.toJson (c : Components) : Json :=
  .object [("schemas", dictToJson Schema.toJson c.schemas),
    ("parameters", dictToJson Parameter.toJson c.parameters)]

def Info.toJson (i : Info) : Json :=
  .object [("title", .string i.title), ("description", .string i.description),
    ("version", .string i.version), ("contact", i.contact.toJson)]

def Server.toJson (s : Server) : Json := .object [("url", .string s.url)]

def Tag.toJson (t : Tag) : Json :=
  .object [("name", .string t.name), ("description", .string t.description)]

namespace Document

/-- The document as a tree. -/
def toJson (d : Document) : Json :=
  .object [("openapi", .string d.openapi), ("info", d.info.toJson),
    ("servers", .array (d.servers.map Server.toJson)), ("tags", .array (d.tags.map Tag.toJson)),
    ("paths", dictToJson PathItem.toJson d.paths), ("components", d.components.toJson)]

/-- The JSON text of the document. -/
def jsonText (d : Document) : String := d.toJson.pretty

/-- The YAML text of the document. -/
def yamlText (d : Document) : String := Yaml.render d.toJson

end Document

end ResourceApi.OpenApi
