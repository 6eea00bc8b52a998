import ResourceApi.Json.Record

/-!
Resource descriptions: the document from which an API is generated. It names the API, a contact and
the resources for which operations are made.
-/

namespace ResourceApi

/-- Whom to ask about the API. -/
structure Contact where
  name : String
  email : String
  url : String
  deriving DecidableEq, Repr, Inhabited

/-- A named thing with a collection and items. Whether it may only be read can be left open. -/
structure Resource where
  name : String
  plural : String
  readonly : Option Bool
  deriving DecidableEq, Repr, Inhabited

/-- The document that a user writes. -/
structure Description where
  title : String
  description : String
  contact : Contact
  resources : List Resource
  deriving DecidableEq, Repr, Inhabited

/-- A resource that leaves it open is not read only. -/
def Resource.isReadonly (r : Resource) : Bool := r.readonly.getD false

namespace Contact

def toJson (c : Contact) : Json :=
  .object [("name", .string c.name), ("email", .string c.email), ("url", .string c.url)]

open Json in
def record : Record Contact where
  name := "struct Contact"
  initial := ⟨"", "", ""⟩
  fields := [
    .mandatory "name" Decoder.string fun c s => { c with name := s },
    .mandatory "email" Decoder.string fun c s => { c with email := s },
    .mandatory "url" Decoder.string fun c s => { c with url := s }]

end Contact

namespace Resource

def toJson (r : Resource) : Json :=
  .object ([("name", .string r.name), ("plural", .string r.plural)]
    ++ (r.readonly.map fun b => ("readonly", Json.bool b)).toList)

open Json in
def record : Record Resource where
  name := "struct Resource"
  initial := ⟨"", "", none⟩
  fields := [
    .mandatory "name" Decoder.string fun r s => { r with name := s },
    .mandatory "plural" Decoder.string fun r s => { r with plural := s },
    .defaulted "readonly" (Decoder.optional Decoder.bool) fun r b => { r with readonly := b }]

end Resource

namespace Description

def toJson (d : Description) : Json :=
  .object [("title", .string d.title), ("description", .string d.description),
    ("contact", d.contact.toJson), ("resources", .array (d.resources.map Resource.toJson))]

open Json in
def record : Record Description where
  name := "struct ResourceDescription"
  initial := ⟨"", "", default, []⟩
  fields := [
    .mandatory "title" Decoder.string fun d s => { d with title := s },
    .mandatory "description" Decoder.string fun d s => { d with description := s },
    .mandatory "contact" Contact.record.decoder fun d c => { d with contact := c },
    .mandatory "resources" (Decoder.list Resource.record.decoder) fun d rs =>
      { d with resources := rs }]

/-- Why a description is not read. -/
inductive Error where
  | invalidFormat (error : Json.Error)
  | missingField (name : String)
  deriving Repr, Inhabited

def Error.message : Error → String
  | .invalidFormat e =>
    "Invalid resource description at line " ++ toString e.position.line ++ ", column "
      ++ toString e.position.column ++ ": " ++ e.message
  | .missingField name => "Missing required field: " ++ name

/-- The name that a message has between backticks behind the words for a missing field. -/
def fieldInMessage? (message : List Char) : Option String :=
  let words := "missing field `".toList
  let rest := message.drop words.length
  if words.isPrefixOf message && rest.contains '`' then
    some (String.ofList (rest.takeWhile (· ≠ '`')))
  else none

/-- A field that is missing is told apart from all other failures, by the message. -/
def Error.ofJson (e : Json.Error) : Error :=
  match fieldInMessage? e.message.toList with
  | some name => .missingField name
  | none => .invalidFormat e

/-- Reads a description from its text. -/
def parse (text : String) : Except Error Description :=
  (record.parse text).mapError .ofJson

end Description

/-- JSON text in pretty form; any other text as it is. -/
def formatDocument (text : String) : String :=
  match Json.parse text with
  | .ok v => v.pretty
  | .error _ => text

end ResourceApi
