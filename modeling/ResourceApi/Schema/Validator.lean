import ResourceApi.Json.Value

/-!
Validators, as far as a linter sees them. A validator reads a schema once and then says of any
document what is wrong with it.
-/

namespace ResourceApi.Schema

/-- What a validator says against a document: the pointer of the value that is not valid, and why it
is not. -/
structure Objection where
  pointer : String
  message : String
  deriving DecidableEq, Repr, Inhabited

/-- Reads a schema or says why it cannot be used. What comes out of a schema is the list of all that
is wrong with a document. -/
abbrev Validator := Json → Except String (Json → List Objection)

/-- A value is no schema that can be used. -/
structure Error where
  reason : String
  deriving DecidableEq, Repr, Inhabited

def Error.message (e : Error) : String := "Invalid schema: " ++ e.reason

end ResourceApi.Schema
