import ResourceApi.Dict
import ResourceApi.Number.Shortest

/-!
JSON values and their two written forms. Objects keep the order of their members. Compact text has
no blanks; pretty text has one member or item on a line and two spaces for each level.
-/

namespace ResourceApi

/-- Numbers of JSON: integers of 64 bits, signed or unsigned, stay exact; all others are doubles. -/
inductive Json.Number where
  | integer (i : Int)
  | real (x : Binary64)
  deriving DecidableEq, Repr, Inhabited

/-- A JSON value. A reader gives no object with the same key twice. -/
inductive Json where
  | null
  | bool (b : Bool)
  | number (n : Json.Number)
  | string (s : String)
  | array (items : List Json)
  | object (members : List (String × Json))
  deriving Repr, Inhabited

namespace Json

def Number.render : Number → String
  | .integer i => toString i
  | .real x => x.render

/-- The double nearest to a number. -/
def Number.toBinary64 : Number → Binary64
  | .integer i => Binary64.ofInt i
  | .real x => x

/-- The value of a number as a signed exact fraction. -/
def Number.toFraction : Number → Int × Nat
  | .integer i => (i, 1)
  | .real x => x.toFraction

def ofNat (n : Nat) : Json := .number (.integer n)

/-- The member of an object with this key; other values have none. -/
def member? (key : String) : Json → Option Json
  | .object members => Entries.find? key members
  | _ => none

/-- The item of an array at this index; other values have none. -/
def item? (index : Nat) : Json → Option Json
  | .array items => items[index]?
  | _ => none

/-! ### Text -/

/-- Two hexadecimal digits of a control character. -/
def controlDigits (c : Char) : List Char :=
  [Nat.digitChar (c.toNat / 16), Nat.digitChar (c.toNat % 16)]

/-- Only the quote, the backslash and control characters are written as escapes. -/
def escapeChar (c : Char) : List Char :=
  if c = '"' then ['\\', '"']
  else if c = '\\' then ['\\', '\\']
  else if c = '\n' then ['\\', 'n']
  else if c = '\r' then ['\\', 'r']
  else if c = '\t' then ['\\', 't']
  else if c = '\x08' then ['\\', 'b']
  else if c = '\x0c' then ['\\', 'f']
  else if c.toNat < 32 then ['\\', 'u', '0', '0'] ++ controlDigits c
  else [c]

/-- A string between quotes. -/
def quote (s : String) : String :=
  String.ofList ('"' :: s.toList.flatMap escapeChar ++ ['"'])

mutual

/-- The value without any blanks. -/
def compact : Json → String
  | .null => "null"
  | .bool b => if b then "true" else "false"
  | .number n => n.render
  | .string s => quote s
  | .array [] => "[]"
  | .array (item :: items) => "[" ++ compact item ++ compactItems items ++ "]"
  | .object [] => "\x7b\x7d"
  | .object (entry :: members) =>
    "\x7b" ++ compactMember entry ++ compactMembers members ++ "\x7d"

def compactItems : List Json → String
  | [] => ""
  | item :: items => "," ++ compact item ++ compactItems items

def compactMember : String × Json → String
  | (key, value) => quote key ++ ":" ++ compact value

def compactMembers : List (String × Json) → String
  | [] => ""
  | entry :: members => "," ++ compactMember entry ++ compactMembers members

end

/-- A line break followed by the indentation of a level. -/
def newline (level : Nat) : String :=
  String.ofList ('\n' :: List.replicate (2 * level) ' ')

mutual

/-- The value at a level of indentation, one item or member on a line. -/
def prettyAt (level : Nat) : Json → String
  | .null => "null"
  | .bool b => if b then "true" else "false"
  | .number n => n.render
  | .string s => quote s
  | .array [] => "[]"
  | .array (item :: items) =>
    "[" ++ newline (level + 1) ++ prettyAt (level + 1) item ++ prettyItems (level + 1) items
      ++ newline level ++ "]"
  | .object [] => "\x7b\x7d"
  | .object (entry :: members) =>
    "\x7b" ++ newline (level + 1) ++ prettyMember (level + 1) entry
      ++ prettyMembers (level + 1) members ++ newline level ++ "\x7d"

def prettyItems (level : Nat) : List Json → String
  | [] => ""
  | item :: items => "," ++ newline level ++ prettyAt level item ++ prettyItems level items

def prettyMember (level : Nat) : String × Json → String
  | (key, value) => quote key ++ ": " ++ prettyAt level value

def prettyMembers (level : Nat) : List (String × Json) → String
  | [] => ""
  | entry :: members =>
    "," ++ newline level ++ prettyMember level entry ++ prettyMembers level members

end

def pretty (v : Json) : String := prettyAt 0 v

end Json

end ResourceApi
