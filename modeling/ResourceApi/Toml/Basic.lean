/-!
Values of TOML. Places are counted from the end of the text: they say how many characters are left.
-/

namespace ResourceApi.Toml

/-- A key with its place. -/
structure Key where
  name : String
  place : Nat
  deriving DecidableEq, Repr, Inhabited

/-- Values without parts. The values of floating point numbers and of dates are not kept. -/
inductive Scalar where
  | string (s : String)
  | integer (i : Int)
  | boolean (b : Bool)
  | float
  | dateTime
  deriving DecidableEq, Repr, Inhabited

/-- How a table came to be: written out in braces, opened by a header, named on the way by a
header, or named on the way by a dotted key. -/
inductive Form where
  | inline
  | header
  | implicit
  | dotted
  deriving DecidableEq, Repr, Inhabited

/-- A value with its place. Tables under a repeated header are one value. -/
inductive Value where
  | scalar (place : Nat) (s : Scalar)
  | array (place : Nat) (items : List Value)
  | table (place : Nat) (form : Form) (entries : List (Key × Value))
  | tables (place : Nat) (each : List (List (Key × Value)))
  deriving Repr, Inhabited

abbrev Entries := List (Key × Value)

def Value.place : Value → Nat
  | .scalar place _ => place
  | .array place _ => place
  | .table place _ _ => place
  | .tables place _ => place

namespace Entries

def find? (name : String) (entries : Entries) : Option Value :=
  (List.find? (fun entry => entry.1.name = name) entries).map Prod.snd

/-- Gives an entry that is there a new value. -/
def set (name : String) (v : Value) (entries : Entries) : Entries :=
  entries.map fun entry => if entry.1.name = name then (entry.1, v) else entry

def without (name : String) (entries : Entries) : Entries :=
  entries.filter fun entry => entry.1.name ≠ name

end Entries

/-- Reading stops, and so many characters are left. -/
structure Failure where
  place : Nat
  deriving DecidableEq, Repr, Inhabited

/-- A reader takes a value from the front of a text and gives what is left of it. -/
abbrev Reader (α : Type) := List Char → Except Failure (α × List Char)

/-- Reading stops at this text. -/
def stop {α : Type} (s : List Char) : Except Failure α := .error ⟨s.length⟩

def isBlank (c : Char) : Bool := c = ' ' || c = '\t'

def skipBlank (s : List Char) : List Char := s.dropWhile isBlank

/-- Characters of comments and strings. -/
def isText (c : Char) : Bool := c = '\t' || (32 ≤ c.toNat && c ≠ '\x7f')

/-- Skips a comment, if there is one. -/
def skipComment : List Char → List Char
  | '#' :: s => s.dropWhile isText
  | s => s

/-- Takes the end of a line; the end of the text is one. -/
def lineEnd? : List Char → Option (List Char)
  | '\n' :: s => some s
  | '\r' :: '\n' :: s => some s
  | [] => some []
  | _ => none

/-- Skips blanks, comments and ends of lines. -/
def skipLines : Nat → List Char → List Char
  | 0, s => s
  | fuel + 1, s =>
    match skipComment (skipBlank s) with
    | '\n' :: rest => skipLines fuel rest
    | '\r' :: '\n' :: rest => skipLines fuel rest
    | rest => rest

end ResourceApi.Toml
