import ResourceApi.Json.Choice

/-!
The catalogue of repository templates. Each is known by the name of its file, and slashes in front
of a name do not count.
-/

namespace ResourceApi.Template

/-- The templates, in the order of the catalogue. -/
inductive Slug where
  | security
  | codeOfConduct
  | licence
  | publiccode
  | readme
  deriving DecidableEq, Repr, Inhabited

/-- How a filled template is shown: as data, or as text to read. -/
inductive Presentation where
  | structured
  | prose
  deriving DecidableEq, Repr, Inhabited

namespace Presentation

def name : Presentation → String
  | .structured => "structured"
  | .prose => "prose"

/-- Files whose names end as those of YAML files do are data, whatever the case of the letters. -/
def ofFileName (name : String) : Presentation :=
  let lower := name.toList.map Char.toLower
  if ".yml".toList.isSuffixOf lower || ".yaml".toList.isSuffixOf lower then .structured else .prose

end Presentation

/-- No template has this name. -/
structure UnknownSlug where
  name : String
  deriving DecidableEq, Repr

def UnknownSlug.message (e : UnknownSlug) : String := "Unknown template: " ++ e.name

namespace Slug

def all : List Slug := [.security, .codeOfConduct, .licence, .publiccode, .readme]

/-- How many templates stand before this one in the catalogue. -/
def rank (s : Slug) : Nat := all.idxOf s

/-- The template that is used if none is named. -/
def standard : Slug := .security

def fileName : Slug → String
  | .security => "SECURITY.md"
  | .codeOfConduct => "CODE_OF_CONDUCT.md"
  | .licence => "LICENCE.md"
  | .publiccode => "publiccode.yml"
  | .readme => "README.md"

/-- Where the templates are published. -/
def publishedBase : String :=
  "https://raw.githubusercontent.com/developer-overheid-nl/repository-template/refs/heads/main/"
    ++ "templates"

def url (s : Slug) : String := publishedBase ++ "/" ++ s.fileName

def presentation (s : Slug) : Presentation := .ofFileName s.fileName

def ofName? (name : String) : Option Slug :=
  all.find? fun s => s.fileName.toList = name.toList.dropWhile (· = '/')

theorem ofName?_fileName (s : Slug) : ofName? s.fileName = some s := by
  cases s <;> decide +kernel

def ofName (name : String) : Except UnknownSlug Slug :=
  match ofName? name with
  | some s => .ok s
  | none => .error ⟨name⟩

/-- The template that a value names. -/
def ofJson : Json → Except Json.Cause Slug
  | .string name => (ofName name).mapError fun e => Json.customCause e.message
  | v => .error (.invalidType v.found "a string")

end Slug

end ResourceApi.Template
