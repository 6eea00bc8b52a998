import ResourceApi.Description
import ResourceApi.Lint.Builtin

/-!
Kinds of documents and what is handed to the linters and the compiler: a text, and the linters that
it asks for, if it names any.
-/

namespace ResourceApi

/-- A text with the linters that it asks for. -/
structure Input where
  content : String
  linters : Option (List String)
  deriving DecidableEq, Repr, Inhabited

namespace Input

/-- A text as it is. -/
def ofText (text : String) : Input := ⟨text, none⟩

/-- The linters to run: those that are asked for, or else the given ones. -/
def lintersOr (i : Input) (others : List String) : List String := i.linters.getD others

def toJson (i : Input) : Json :=
  .object (("content", .string i.content)
    :: (i.linters.map fun names => ("linters", Json.array (names.map .string))).toList)

end Input

/-- A kind of document: its name, a short name, an example and the linters for it. -/
structure DocumentKind where
  name : String
  slug : String
  sample : String
  linters : List String
  deriving DecidableEq, Repr, Inhabited

namespace DocumentKind

/-- The lines of the example. -/
def sampleLines : List String := [
    "\x7b",
    "  \"title\": \"Bibliotheek API\",",
    "  \"description\": \"API voor het beheren van boeken en auteurs in de bibliotheek.\",",
    "  \"contact\": \x7b",
    "    \"name\": \"Team Bibliotheek\",",
    "    \"email\": \"bibliotheek@example.nl\",",
    "    \"url\": \"https://www.example.nl/bibliotheek\"",
    "  \x7d,",
    "  \"resources\": [",
    "    \x7b",
    "      \"name\": \"book\",",
    "      \"plural\": \"books\"",
    "    \x7d,",
    "    \x7b",
    "      \"name\": \"author\",",
    "      \"plural\": \"authors\",",
    "      \"readonly\": true",
    "    \x7d,",
    "    \x7b",
    "      \"name\": \"loanRequest\",",
    "      \"plural\": \"loanRequests\"",
    "    \x7d",
    "  ]",
    "\x7d"]

/-- Descriptions of resources. -/
def resources : DocumentKind where
  name := "OAS Generator"
  slug := "gen"
  sample := String.join (sampleLines.map fun line => line ++ "\n")
  linters := [Lint.Builtin.generatorSyntax.name]

/-- What a payload becomes: a mapper says what its text is and which linters it asks for. The text
is put into pretty form, and if no linters are asked for, they are those of this kind. -/
def accept (k : DocumentKind) (mapper : String → Input) (payload : String) : Input :=
  let mapped := mapper payload
  ⟨formatDocument mapped.content, some (mapped.lintersOr k.linters)⟩

def toJson (k : DocumentKind) : Json :=
  .object [("name", .string k.name), ("slug", .string k.slug), ("example", .string k.sample),
    ("linters", .array (k.linters.map .string))]

end DocumentKind

end ResourceApi
