import ResourceApi.OpenApi.Document

/-!
Reading OpenAPI documents from their JSON text. A response is read as a whole first, because only
its members show which of its two forms it has; the reference is tried first.
-/

namespace ResourceApi.OpenApi

open Json

/-- The value of a key that occurs exactly once. -/
def once? (key : String) (members : List (String × Json)) : Option Json :=
  match members.filter fun entry => entry.1 = key with
  | [(_, v)] => some v
  | _ => none

def stringOf? : Json → Option String
  | .string s => some s
  | _ => none

/-- The values of an object, in which the last value of a repeated key stays. -/
def dictOf? {α : Type} (f : Json → Option α) : Json → Option (Dict α)
  | .object members =>
    (members.mapM fun entry => (f entry.2).map fun a => (entry.1, a)).map Dict.ofEntries
  | _ => none

def Reference.ofTree? : Json → Option Reference
  | .object members => do return ⟨← stringOf? (← once? "$ref" members)⟩
  | .array [target] => do return ⟨← stringOf? target⟩
  | _ => none

def MediaType.ofTree? : Json → Option MediaType
  | .object members => do return ⟨← Reference.ofTree? (← once? "schema" members)⟩
  | .array [schema] => do return ⟨← Reference.ofTree? schema⟩
  | _ => none

def InlineResponse.ofTree? (tree : Json) : Option InlineResponse :=
  let make (headers description content : Json) : Option InlineResponse := do
    return ⟨← dictOf? Reference.ofTree? headers, ← stringOf? description,
      ← dictOf? MediaType.ofTree? content⟩
  match tree with
  | .object members => do
    make (← once? "headers" members) (← once? "description" members) (← once? "content" members)
  | .array [headers, description, content] => make headers description content
  | _ => none

def Response.ofTree? (tree : Json) : Option Response :=
  match Reference.ofTree? tree with
  | some r => some (.reference r)
  | none => (InlineResponse.ofTree? tree).map .inline

def Response.decoder : Decoder Response := fun depth s =>
  match Reader.everyMember depth s with
  | .error f => .error f
  | .ok (tree, rest) =>
    match Response.ofTree? tree with
    | some r => .ok (r, rest)
    | none => .error (.floating (.noVariant "Response") rest)

def Reference.record : Record Reference where
  name := "struct Reference"
  initial := default
  fields := [.mandatory "$ref" Decoder.string fun r s => { r with target := s }]

def Operation.record : Record Operation where
  name := "struct Operation"
  initial := default
  fields := [
    .mandatory "operationId" Decoder.string fun o s => { o with operationId := s },
    .mandatory "description" Decoder.string fun o s => { o with description := s },
    .mandatory "summary" Decoder.string fun o s => { o with summary := s },
    .mandatory "tags" (Decoder.list Decoder.string) fun o ts => { o with tags := ts },
    .mandatory "responses" (Decoder.dict Response.decoder) fun o rs => { o with responses := rs }]

def PathItem.record : Record PathItem where
  name := "struct PathItem"
  initial := default
  fields := [
    .defaulted "parameters" (Decoder.list Reference.record.decoder) fun p rs =>
      { p with parameters := rs },
    .mandatory "get" Operation.record.decoder fun p o => { p with get := o },
    .defaulted "put" (Decoder.optional Operation.record.decoder) fun p o => { p with put := o },
    .defaulted "post" (Decoder.optional Operation.record.decoder) fun p o => { p with post := o },
    .defaulted "delete" (Decoder.optional Operation.record.decoder) fun p o =>
      { p with delete := o }]

def PropertySchema.record : Record PropertySchema where
  name := "struct PropertySchema"
  initial := default
  fields := [
    .mandatory "type" Decoder.string fun p s => { p with kind := s },
    .defaulted "format" (Decoder.optional Decoder.string) fun p f => { p with format := f }]

def Schema.record : Record Schema where
  name := "struct Schema"
  initial := default
  fields := [
    .mandatory "properties" (Decoder.dict PropertySchema.record.decoder) fun s ps =>
      { s with properties := ps }]

def Parameter.record : Record Parameter where
  name := "struct Parameter"
  initial := default
  fields := [
    .mandatory "name" Decoder.string fun p s => { p with name := s },
    .mandatory "in" Decoder.string fun p s => { p with location := s },
    .mandatory "description" Decoder.string fun p s => { p with description := s },
    .mandatory "required" Decoder.bool fun p b => { p with required := b },
    .mandatory "schema" PropertySchema.record.decoder fun p s => { p with schema := s }]

def Components.record : Record Components where
  name := "struct Components"
  initial := default
  fields := [
    .mandatory "schemas" (Decoder.dict Schema.record.decoder) fun c ss => { c with schemas := ss },
    .mandatory "parameters" (Decoder.dict Parameter.record.decoder) fun c ps =>
      { c with parameters := ps }]

def Info.record : Record Info where
  name := "struct Info"
  initial := default
  fields := [
    .mandatory "title" Decoder.string fun i s => { i with title := s },
    .mandatory "description" Decoder.string fun i s => { i with description := s },
    .mandatory "version" Decoder.string fun i s => { i with version := s },
    .mandatory "contact" Contact.record.decoder fun i c => { i with contact := c }]

def Server.record : Record Server where
  name := "struct Server"
  initial := default
  fields := [.mandatory "url" Decoder.string fun r s => { r with url := s }]

def Tag.record : Record Tag where
  name := "struct Tag"
  initial := default
  fields := [
    .mandatory "name" Decoder.string fun t s => { t with name := s },
    .mandatory "description" Decoder.string fun t s => { t with description := s }]

namespace Document

def record : Record Document where
  name := "struct CompiledArtifact"
  initial := default
  fields := [
    .mandatory "openapi" Decoder.string fun d s => { d with openapi := s },
    .mandatory "info" Info.record.decoder fun d i => { d with info := i },
    .mandatory "servers" (Decoder.list Server.record.decoder) fun d ss => { d with servers := ss },
    .mandatory "tags" (Decoder.list Tag.record.decoder) fun d ts => { d with tags := ts },
    .mandatory "paths" (Decoder.dict PathItem.record.decoder) fun d ps => { d with paths := ps },
    .mandatory "components" Components.record.decoder fun d c => { d with components := c }]

/-- Reads a document from its JSON text. -/
def parse (text : String) : Except Json.Error Document := record.parse text

end Document

end ResourceApi.OpenApi
