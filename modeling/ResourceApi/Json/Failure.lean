import ResourceApi.Json.Value
import ResourceApi.Text.Quoted

/-!
Why a text is not read, and where. A failure keeps the part of the text that was not consumed, so
its place is the length of what was. Failures of typed readers are placed by the innermost value
that is being read when they arise, once its closing bracket has been tried.
-/

namespace ResourceApi.Json

/-- What a typed reader finds in place of what it expects. -/
inductive Found where
  | null
  | bool (b : Bool)
  | number (n : Number)
  | string (s : String)
  | array
  | object
  deriving Repr, Inhabited

/-- The names of the kinds of values in messages. -/
def Found.message : Found → String
  | .null => "null"
  | .bool b => "boolean `" ++ (if b then "true" else "false") ++ "`"
  | .number (.integer i) => "integer `" ++ toString i ++ "`"
  | .number (.real x) => "floating point `" ++ x.render ++ "`"
  | .string s => "string " ++ Text.quoted s
  | .array => "sequence"
  | .object => "map"

/-- Why a text is not read. -/
inductive Cause where
  | endInArray
  | endInObject
  | endInString
  | endInValue
  | colonExpected
  | commaOrBracketExpected
  | commaOrBraceExpected
  | wordExpected
  | valueExpected
  | escapeUnknown
  | numberMalformed
  | numberOutOfRange
  | controlCharacter
  | keyNotString
  | surrogateLone
  | surrogateUnpaired
  | commaTrailing
  | charactersTrailing
  | tooDeep
  | missingField (name : String)
  | duplicateField (name : String)
  | unknownVariant (found : String) (expected : List String)
  | invalidType (found : Found) (expected : String)
  | invalidValue (found : Found) (expected : String)
  | invalidLength (length : Nat) (expected : String)
  | noVariant (enumeration : String)
  | custom (message : String)
  deriving Repr, Inhabited

/-- The accepted spellings of a choice, as a list in words. -/
def oneOf (names : List String) : String :=
  match names with
  | [] => "there are no variants"
  | [a] => "expected `" ++ a ++ "`"
  | [a, b] => "expected `" ++ a ++ "` or `" ++ b ++ "`"
  | names => "expected one of " ++ String.intercalate ", " (names.map fun n => "`" ++ n ++ "`")

def Cause.message : Cause → String
  | .endInArray => "EOF while parsing a list"
  | .endInObject => "EOF while parsing an object"
  | .endInString => "EOF while parsing a string"
  | .endInValue => "EOF while parsing a value"
  | .colonExpected => "expected `:`"
  | .commaOrBracketExpected => "expected `,` or `]`"
  | .commaOrBraceExpected => "expected `,` or `\x7d`"
  | .wordExpected => "expected ident"
  | .valueExpected => "expected value"
  | .escapeUnknown => "invalid escape"
  | .numberMalformed => "invalid number"
  | .numberOutOfRange => "number out of range"
  | .controlCharacter => "control character (\\u0000-\\u001F) found while parsing a string"
  | .keyNotString => "key must be a string"
  | .surrogateLone => "lone leading surrogate in hex escape"
  | .surrogateUnpaired => "unexpected end of hex escape"
  | .commaTrailing => "trailing comma"
  | .charactersTrailing => "trailing characters"
  | .tooDeep => "recursion limit exceeded"
  | .missingField name => "missing field `" ++ name ++ "`"
  | .duplicateField name => "duplicate field `" ++ name ++ "`"
  | .unknownVariant found expected => "unknown variant `" ++ found ++ "`, " ++ oneOf expected
  | .invalidType found expected => "invalid type: " ++ found.message ++ ", expected " ++ expected
  | .invalidValue found expected => "invalid value: " ++ found.message ++ ", expected " ++ expected
  | .invalidLength length expected =>
    "invalid length " ++ toString length ++ ", expected " ++ expected
  | .noVariant enumeration => "data did not match any variant of untagged enum " ++ enumeration
  | .custom message => message

/-- A failure: its cause and the text that was not consumed. A failure that looks at a character
without consuming it counts the first bytes of that text; one that is not placed yet moves to
where the value around it ends. -/
structure Failure where
  cause : Cause
  rest : List Char
  ahead : Nat
  placed : Bool
  deriving Repr, Inhabited

namespace Failure

/-- A failure just behind what was consumed. -/
def behind (cause : Cause) (rest : List Char) : Failure := ⟨cause, rest, 0, true⟩

/-- A failure at the next character. -/
def ahead1 (cause : Cause) (rest : List Char) : Failure := ⟨cause, rest, 1, true⟩

/-- A failure that the value around it has to place. -/
def floating (cause : Cause) (rest : List Char) : Failure := ⟨cause, rest, 0, false⟩

/-- Gives a failure its place, if it has none yet, before the text that is left. -/
def place (f : Failure) (rest : List Char) : Failure :=
  if f.placed then f else ⟨f.cause, rest, 0, true⟩

end Failure

/-- A line, counted from one, and the number of bytes before a place on it. -/
structure Position where
  line : Nat
  column : Nat
  deriving DecidableEq, Repr, Inhabited

namespace Position

def start : Position := ⟨1, 0⟩

def next (p : Position) (c : Char) : Position :=
  if c = '\n' then ⟨p.line + 1, 0⟩ else ⟨p.line, p.column + c.utf8Size⟩

def afterAll (p : Position) (consumed : List Char) : Position := consumed.foldl next p

/-- Goes on by bytes; it may stop inside a character. -/
def afterBytes (p : Position) : List Char → Nat → Position
  | [], _ => p
  | c :: rest, bytes =>
    if bytes = 0 then p
    else if c.utf8Size ≤ bytes then afterBytes (p.next c) rest (bytes - c.utf8Size)
    else ⟨p.line, p.column + bytes⟩

end Position

/-- Where a failure is in the whole text. -/
def Failure.position (f : Failure) (text : List Char) : Position :=
  (Position.start.afterAll (text.take (text.length - f.rest.length))).afterBytes f.rest f.ahead

/-- An error of reading a whole text. -/
structure Error where
  cause : Cause
  position : Position
  deriving Repr, Inhabited

def Failure.toError (f : Failure) (text : List Char) : Error := ⟨f.cause, f.position text⟩

def Error.message (e : Error) : String :=
  e.cause.message ++ " at line " ++ toString e.position.line ++ " column "
    ++ toString e.position.column

end ResourceApi.Json
