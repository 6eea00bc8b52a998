import ResourceApi.Json.Failure
import ResourceApi.Text.Natural

/-!
Choices between names, taken from a value that has been read already. A choice is a string, or an
object whose only key is the name and whose value is `null`.
-/

namespace ResourceApi.Json

/-- What a value is, for messages. -/
def found : Json → Found
  | .null => .null
  | .bool b => .bool b
  | .number n => .number n
  | .string s => .string s
  | .array _ => .array
  | .object _ => .object

/-- The choice that a value makes. -/
def choose {α : Type} (expected : List String) (ofName? : String → Option α) (v : Json) :
    Except Cause α :=
  let pick (name : String) : Except Cause α :=
    match ofName? name with
    | some a => .ok a
    | none => .error (.unknownVariant name expected)
  match v with
  | .string name => pick name
  | .object [(name, inner)] =>
    match pick name with
    | .error e => .error e
    | .ok a =>
      match inner with
      | .null => .ok a
      | inner => .error (.invalidType inner.found "unit")
  | .object _ => .error (.invalidValue .object "map with a single key")
  | v => .error (.invalidType v.found "string or map")

/-! ### Messages of other readers -/

/-- The parts before and after the last place where one text stands in another. -/
def splitLast? (part : List Char) : List Char → Option (List Char × List Char)
  | [] => none
  | c :: rest =>
    match splitLast? part rest with
    | some (before, after) => some (c :: before, after)
    | none =>
      if part.isPrefixOf (c :: rest) then some ([], (c :: rest).drop part.length) else none

/-- A place that ends a message: what comes before it, its line and its column. -/
def placeAtEnd? (message : List Char) : Option (List Char × Nat × Nat) := do
  let (before, place) ← splitLast? " at line ".toList message
  let line := place.takeWhile Char.isDigit
  let rest := place.dropWhile Char.isDigit
  if " column ".toList.isPrefixOf rest then
    let column := rest.drop " column ".length
    if column.all Char.isDigit then
      return (before, ← Text.natural? line, ← Text.natural? column)
    else none
  else none

/-- The cause that another reader gives in words. A place at the end of its message is taken for a
place in the text and written anew; there is no line zero. -/
def customCause (message : String) : Cause :=
  match placeAtEnd? message.toList with
  | none => .custom message
  | some (before, line, column) =>
    if line = 0 then .custom (String.ofList before)
    else .custom (String.ofList before ++ " at line " ++ toString line ++ " column "
      ++ toString column)

end ResourceApi.Json
