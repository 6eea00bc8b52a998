/-!
Characters and styles of YAML, and places in its text.
-/

namespace ResourceApi.Yaml

/-- Ways of writing a string. -/
inductive Style where
  | plain
  | single
  | double
  | literal
  | folded
  deriving DecidableEq, Repr, Inhabited

/-- Characters that end a line. -/
def isBreak (c : Char) : Bool :=
  c = '\n' || c = '\r' || c = '\x85' || c = '\u2028' || c = '\u2029'

def isBlank (c : Char) : Bool := c = ' ' || c = '\t'

/-- Whether a word ends before what follows. -/
def endsWord : Option Char → Bool
  | none => true
  | some c => isBlank c || isBreak c

/-- Characters that cannot begin unquoted text. -/
def isIndicator (c : Char) : Bool :=
  c ∈ ['#', ',', '[', ']', '{', '}', '&', '*', '!', '|', '>', '\'', '"', '%', '@', '`']

/-- Letters, digits, hyphens and underscores make up names. -/
def isNameCharacter (c : Char) : Bool := c.isAlphanum || c = '-' || c = '_'

/-- A place in a text: the characters behind it, how many are before it, the lines before it, and
the characters before it on its line. -/
structure Cursor where
  rest : List Char
  index : Nat
  line : Nat
  column : Nat
  deriving Repr, Inhabited

namespace Cursor

/-- The start of a text. -/
def ofChars (text : List Char) : Cursor := ⟨text, 0, 0, 0⟩

def peek (c : Cursor) : Option Char := c.rest.head?

/-- The character so many places on. -/
def peekAt (c : Cursor) (n : Nat) : Option Char := c.rest[n]?

/-- Whether the next character has a property. -/
def isAt (c : Cursor) (p : Char → Bool) : Bool := (c.peek.map p).getD false

/-- Passes over characters that end no line. -/
def skip (c : Cursor) (n : Nat) : Cursor :=
  ⟨c.rest.drop n, c.index + n, c.line, c.column + n⟩

def skipWhile (c : Cursor) (p : Char → Bool) : Cursor := c.skip (c.rest.takeWhile p).length

/-- Passes over the end of a line; a carriage return and a line feed are one. -/
def skipLine (c : Cursor) : Cursor :=
  match c.rest with
  | '\r' :: '\n' :: rest => ⟨rest, c.index + 2, c.line + 1, 0⟩
  | _ :: rest => ⟨rest, c.index + 1, c.line + 1, 0⟩
  | [] => c

/-- The end of a line, read as a line feed unless it is a separator of its own kind. -/
def readLine (c : Cursor) : List Char × Cursor :=
  match c.rest with
  | [] => ([], c)
  | x :: _ => ([if x = '\u2028' ∨ x = '\u2029' then x else '\n'], c.skipLine)

/-- Three hyphens or three dots at the start of a line bound a document. -/
def isAtBound (c : Cursor) : Bool :=
  c.column = 0 && (c.rest.take 3 = ['-', '-', '-'] || c.rest.take 3 = ['.', '.', '.'])
    && endsWord (c.peekAt 3)

/-- Passes over a comment up to the end of its line. -/
def skipComment (c : Cursor) : Cursor :=
  if c.peek = some '#' then c.skipWhile fun x => !isBreak x else c

/-- Passes over blanks, a comment and the end of the line; nothing else may stand there. -/
def finishLine? (c : Cursor) : Option Cursor :=
  let c := (c.skipWhile isBlank).skipComment
  match c.peek with
  | none => some c
  | some x => if isBreak x then some c.skipLine else none

end Cursor

end ResourceApi.Yaml
