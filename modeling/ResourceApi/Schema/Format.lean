import ResourceApi.Pattern.Parser
import ResourceApi.Uri.Absolute

/-!
Formats of strings that a schema can ask for by name, and the patterns of schemas, whose classes of
characters are those of ASCII.
-/

namespace ResourceApi.Schema

/-! ### Patterns -/

/-- White space, as the class of schema patterns has it. -/
def spaceClass : List Char :=
  [' ', '\t', '\n', '\r', '\x0b', '\x0c', '\u2003', '\ufeff', '\u2029', '\xa0']

/-- The class that a letter behind a backslash stands for. -/
def letterClass? (c : Char) : Option (List Char) :=
  match c with
  | 'd' => some "[0-9]".toList
  | 'D' => some "[^0-9]".toList
  | 'w' => some "[A-Za-z0-9_]".toList
  | 'W' => some "[^A-Za-z0-9_]".toList
  | 's' => some (['['] ++ spaceClass ++ [']'])
  | 'S' => some (['[', '^'] ++ spaceClass ++ [']'])
  | _ => none

/-- Control characters that are written by their letter, put in place. -/
def withControls : List Char → List Char
  | '\\' :: 'c' :: letter :: rest =>
    if letter.isAlpha then Char.ofNat (letter.toUpper.toNat - 64) :: withControls rest
    else '\\' :: 'c' :: withControls (letter :: rest)
  | c :: rest => c :: withControls rest
  | [] => []

/-- Classes that are written by a letter, written out. -/
def withClasses : List Char → List Char
  | '\\' :: c :: rest => (letterClass? c).getD ['\\', c] ++ withClasses rest
  | c :: rest => c :: withClasses rest
  | [] => []

/-- Reads the pattern of a schema. -/
def patternOf? (text : String) : Option Pattern :=
  Pattern.ofText? .extended (String.ofList (withClasses (withControls text.toList)))

/-! ### Formats -/

/-- Formats that are checked; all other names are passed over. -/
inductive Format where
  | email
  | uri
  | uriReference
  | regex
  deriving DecidableEq, Repr, Inhabited

namespace Format

def name : Format → String
  | .email => "email"
  | .uri => "uri"
  | .uriReference => "uri-reference"
  | .regex => "regex"

def all : List Format := [.email, .uri, .uriReference, .regex]

def ofName? (s : String) : Option Format := all.find? fun f => f.name = s

theorem ofName?_name (f : Format) : ofName? f.name = some f := by
  cases f <;> decide

/-- Whether an at sign comes behind a character that is no dot, and no two dots before it. -/
def hasAtSign : List Char → Bool
  | c :: d :: rest =>
    if d = '@' then c ≠ '.'
    else if c = '.' && d = '.' then false
    else hasAtSign (d :: rest)
  | _ => false

/-- An address has no dot in front, and an at sign behind its first character. -/
def isEmail (s : List Char) : Bool := s.head? ≠ some '.' && hasAtSign s

/-- A reference may be relative; it holds neither white space nor backslashes. -/
def isUriReference (s : List Char) : Bool :=
  s.all fun c => c ≠ '\\' && !Text.isWhiteSpace c

def holds (f : Format) (s : String) : Bool :=
  match f with
  | .email => isEmail s.toList
  | .uri => Uri.isAbsolute s
  | .uriReference => isUriReference s.toList
  | .regex => (patternOf? s).isSome

end Format

end ResourceApi.Schema
