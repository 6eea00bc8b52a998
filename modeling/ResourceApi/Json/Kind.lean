import ResourceApi.Json.Choice

/-!
Kinds of JSON values.
-/

namespace ResourceApi.Json

/-- Kinds of values, in the order of their names. Every integer is a number, too. -/
inductive Kind where
  | array
  | boolean
  | integer
  | null
  | number
  | object
  | string
  deriving DecidableEq, Repr, Inhabited

namespace Kind

def name : Kind → String
  | .array => "array"
  | .boolean => "boolean"
  | .integer => "integer"
  | .null => "null"
  | .number => "number"
  | .object => "object"
  | .string => "string"

def all : List Kind := [.array, .boolean, .integer, .null, .number, .object, .string]

def ofName? (s : String) : Option Kind := all.find? fun k => k.name = s

theorem ofName?_name (k : Kind) : ofName? k.name = some k := by
  cases k <;> decide

/-- Whether a number was read as an integer. -/
def isInteger : Number → Bool
  | .integer _ => true
  | .real _ => false

/-- Whether a number has no fraction, however it was written. -/
def isWhole : Number → Bool
  | .integer _ => true
  | .real x => x.isWhole

/-- Whether a value is of a kind, where a test says which numbers are integers. -/
def holds (integer : Number → Bool) : Kind → Json → Bool
  | .array, .array _ => true
  | .boolean, .bool _ => true
  | .integer, .number n => integer n
  | .null, .null => true
  | .number, .number _ => true
  | .object, .object _ => true
  | .string, .string _ => true
  | _, _ => false

end Kind

end ResourceApi.Json
