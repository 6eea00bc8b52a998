import ResourceApi.Json.Reader
import ResourceApi.Json.Spans
import ResourceApi.Lint.Linter
import ResourceApi.Lint.ParameterSchema

/-!
Schemas as linters. All that a validator says against a document is reported, each time from the
start of the value that is not valid to the end of the line on which that value starts.
-/

namespace ResourceApi.Lint

/-- A schema that documents must meet, as what a validator says of them. -/
structure SchemaLinter where
  name : String
  validate : Json → List Schema.Objection
  deriving Inhabited

namespace SchemaLinter

/-- The place where the value with a pointer starts; a value that has none is taken to start the
text. -/
def startOf (spans : Json.Spans) (lines : Lines) (pointer : String) : LineColumn :=
  match spans.find? pointer with
  | some span => lines.lineColumn span.start
  | none => ⟨1, 0⟩

/-- The diagnostic of an objection. -/
def diagnostic (c : SchemaLinter) (spans : Json.Spans) (lines : Lines) (x : Schema.Objection) :
    Diagnostic :=
  let place := startOf spans lines x.pointer
  ⟨c.name, lines.offset place.line place.column, lines.lineEnd place.line, .error, x.message, none⟩

/-- The diagnostics of a text. -/
def lint (c : SchemaLinter) (text : String) : List Diagnostic :=
  match Json.parse text with
  | .error e => [.ofParseFailure c.name text e]
  | .ok document =>
    let spans := (Json.Spans.parse text).toOption.getD ⟨[]⟩
    (c.validate document).map (c.diagnostic spans (Lines.ofText text))

def toLinter (c : SchemaLinter) : Linter := ⟨c.name, c.lint⟩

/-- Leaves out the keywords that only say which schema this is and which language it is written in.
In the place of each comes the last keyword. -/
def withoutIdentity : Json → Json
  | .object entries => .object (Entries.swapOut "$id" (Entries.swapOut "$schema" entries))
  | v => v

/-- The linter that a validator makes of a schema. -/
def ofSchemaBy (validator : Schema.Validator) (name : String) (schema : Json) :
    Except Schema.Error SchemaLinter :=
  match validator (withoutIdentity schema) with
  | .ok validate => .ok ⟨name, validate⟩
  | .error reason => .error ⟨reason⟩

/-- A linter for a schema that is given as a value. -/
def ofSchema (name : String) (schema : Json) : Except Schema.Error SchemaLinter :=
  ofSchemaBy Schema.validator name schema

/-- The linter for the schema of resource descriptions. -/
def parameters (name : String) : SchemaLinter :=
  ⟨name, Schema.Document.validate ⟨Schema.parameters, []⟩⟩

end SchemaLinter

end ResourceApi.Lint
