import ResourceApi.Json.Pointer
import ResourceApi.Json.Reader
import ResourceApi.Template.Marker
import ResourceApi.Text.Split

/-!
Templates filled from a document. A marker whose path leads to a value is replaced by that value,
and all else stays as it is.
-/

namespace ResourceApi.Template

/-- The value at the end of a path with dots between its segments. -/
def resolve? (document : Json) (path : List Char) : Option Json :=
  document.resolve? ((Text.split '.' path).map String.ofList)

/-- A value as it is inserted: a string without quotes, anything else as compact JSON. -/
def inserted : Json → List Char
  | .string s => s.toList
  | v => v.compact.toList

/-- A piece with its value in place. -/
def Piece.filled (document : Json) : Piece → List Char
  | .character c => [c]
  | .marker m =>
    match resolve? document m.path with
    | some v => inserted v
    | none => m.written

/-- The template with its markers filled from a value. -/
def fill (document : Json) (template : String) : String :=
  String.ofList ((pieces template.toList).flatMap (Piece.filled document))

/-- The template with its markers filled from a text; one that is no JSON fills none. -/
def render (source template : String) : String :=
  match Json.parse source with
  | .ok document => fill document template
  | .error _ => template

end ResourceApi.Template
