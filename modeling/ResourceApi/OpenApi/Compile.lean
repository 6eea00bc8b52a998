import ResourceApi.Naming
import ResourceApi.OpenApi.Document

/-!
From a resource description to an OpenAPI document. Each resource gets a collection path and an
item path; a resource that is read only gets no operation that changes anything. Of several
resources with one path, the last one makes its entries and the first one gives them their place.
-/

namespace ResourceApi.OpenApi

/-- The shared definitions of headers and error responses. -/
def sharedComponents : String := "https://static.developer.overheid.nl/adr/components.yaml"

/-- The name of the path parameter of items. -/
def idParameter : String := "id"

end ResourceApi.OpenApi

namespace ResourceApi

open OpenApi

namespace Resource

/-- The path of the collection. -/
def collectionPath (r : Resource) : String := "/" ++ Naming.kebabCase r.plural

/-- The path of one item. -/
def itemPath (r : Resource) : String := r.collectionPath ++ "/\x7b" ++ idParameter ++ "\x7d"

/-- The key of the schema. -/
def schemaName (r : Resource) : String := Naming.upperCamelCase r.name

/-- The label under which the operations stand. -/
def tagName (r : Resource) : String := Naming.titleCaseFirst r.plural

def tag (r : Resource) : Tag :=
  ⟨r.tagName, "Alle API operaties die bij " ++ r.plural ++ " horen."⟩

def operation (r : Resource) (operationId text : String) (responses : List (String × Response)) :
    Operation :=
  { operationId, description := text, summary := text, tags := [r.tagName],
    responses := .ofEntries responses }

/-- A response whose body follows the schema of the resource. -/
def bodyResponse (r : Resource) (description : String) (headers : List String) : Response :=
  .inline {
    headers := .ofEntries (headers.map fun h => (h, ⟨sharedComponents ++ "#/headers/" ++ h⟩))
    description
    content := .ofEntries
      [("application/json", ⟨⟨"#/components/schemas/" ++ r.schemaName⟩⟩)] }

/-- A response from the shared definitions. -/
def sharedResponse (status : String) : Response :=
  .reference ⟨sharedComponents ++ "#/responses/" ++ status⟩

/-- The operations on the collection: list and create. -/
def collectionItem (r : Resource) : PathItem :=
  { parameters := []
    get := r.operation ("list" ++ Naming.upperCamelCase r.plural)
      ("Alle " ++ r.plural ++ " ophalen")
      [("200", r.bodyResponse "OK" ["API-Version", "Link"])]
    put := none
    post := if r.isReadonly then none else some (r.operation
      ("create" ++ Naming.upperCamelCase r.plural) ("Nieuwe " ++ r.name ++ " aanmaken")
      [("201", r.bodyResponse "Created" ["API-Version"]), ("400", sharedResponse "400")])
    delete := none }

/-- The operations on one item: retrieve, edit and remove. -/
def singleItem (r : Resource) : PathItem :=
  let label := Naming.titleCaseFirst r.name
  let subject := Naming.upperCamelCase r.name
  { parameters := [⟨"#/components/parameters/" ++ idParameter⟩]
    get := r.operation ("retrieve" ++ subject) (label ++ " ophalen")
      [("200", r.bodyResponse "OK" ["API-Version"]), ("404", sharedResponse "404")]
    put := if r.isReadonly then none else some (r.operation ("edit" ++ subject)
      (label ++ " wijzigen")
      [("200", r.bodyResponse "OK" ["API-Version"]), ("400", sharedResponse "400")])
    post := none
    delete := if r.isReadonly then none else some (r.operation ("remove" ++ subject)
      (label ++ " verwijderen")
      [("204", sharedResponse "204"), ("404", sharedResponse "404")]) }

/-- The schema stub: only the identifier is known. -/
def schema (_ : Resource) : OpenApi.Schema := ⟨.ofEntries [(idParameter, ⟨"string", some "uuid"⟩)]⟩

end Resource

namespace Description

def paths (d : Description) : Dict PathItem :=
  .ofEntries (d.resources.flatMap fun r =>
    [(r.collectionPath, r.collectionItem), (r.itemPath, r.singleItem)])

def schemas (d : Description) : Dict OpenApi.Schema :=
  .ofEntries (d.resources.map fun r => (r.schemaName, r.schema))

/-- The document of a description. It is defined for every description. -/
def compile (d : Description) : Document where
  openapi := "3.0.2"
  info := { title := d.title, description := d.description, version := "1.0.0",
            contact := d.contact }
  servers := [⟨"@TODO: Add server URL"⟩]
  tags := d.resources.map Resource.tag
  paths := d.paths
  components := {
    schemas := d.schemas
    parameters := .ofEntries [(idParameter,
      { name := idParameter, location := "path", description := idParameter, required := true,
        schema := ⟨"string", none⟩ })] }

/-- Reads a description and compiles it. -/
def compileText (text : String) : Except Error Document := (parse text).map compile

end Description

end ResourceApi
