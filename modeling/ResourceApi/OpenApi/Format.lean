import ResourceApi.OpenApi.Document

/-!
The two texts of a document.
-/

namespace ResourceApi.OpenApi

inductive Format where
  | json
  | yaml
  deriving DecidableEq, Repr, Inhabited

namespace Format

def all : List Format := [.json, .yaml]

def name : Format → String
  | .json => "json"
  | .yaml => "yaml"

def ofName? (s : String) : Option Format := all.find? fun f => f.name = s

theorem ofName?_name (f : Format) : ofName? f.name = some f := by
  cases f <;> decide

end Format

/-- The text of a document in a format. -/
def Document.text (d : Document) : Format → String
  | .json => d.jsonText
  | .yaml => d.yamlText

end ResourceApi.OpenApi
