import ResourceApi.Json.Pointer

/-!
The places of values in their text. The scanner finds, for each value, the range of characters from
its first to behind its last. It takes more texts than the reader: numbers may be any run of number
characters, strings may hold control characters and unpaired surrogates, and there is no limit on
the depth. Of a repeated key the last place stays, together with the places inside the others.
-/

namespace ResourceApi

/-- A range of characters, without its end. -/
structure Span where
  start : Nat
  stop : Nat
  deriving DecidableEq, Repr, Inhabited

namespace Json

/-- The spans of values by their pointers, the latest first. -/
structure Spans where
  entries : List (String × Span)
  deriving Repr, Inhabited

namespace Spans

/-- The span of the value at a pointer. -/
def find? (spans : Spans) (pointer : String) : Option Span := Entries.find? pointer spans.entries

/-- The pointers, each once. -/
def pointers (spans : Spans) : List String := (spans.entries.map Prod.fst).eraseDups

/-- Why a text is not scanned. -/
inductive Cause where
  | expected (c : Char)
  | commaOrBrace
  | commaOrBracket
  | character
  | endOfText
  | trailing
  | escape
  | unterminated
  | unicodeEscape
  | literal (word : String)
  deriving DecidableEq, Repr, Inhabited

def Cause.message : Cause → String
  | .expected c => String.ofList ("expected '".toList ++ [c, '\''])
  | .commaOrBrace => "expected ',' or '\x7d'"
  | .commaOrBracket => "expected ',' or ']'"
  | .character => "unexpected character"
  | .endOfText => "unexpected end of input"
  | .trailing => "trailing characters"
  | .escape => "invalid escape"
  | .unterminated => "unterminated string"
  | .unicodeEscape => "invalid unicode escape"
  | .literal word => "invalid literal, expected " ++ word

/-- An error with the number of characters that were consumed, the offending one included. -/
structure Error where
  cause : Cause
  offset : Nat
  deriving DecidableEq, Repr, Inhabited

def Error.message (e : Error) : String :=
  "Malformed JSON at offset " ++ toString e.offset ++ ": " ++ e.cause.message

/-- A place in a text: how many characters are before it and those behind it. -/
structure Cursor where
  offset : Nat
  rest : List Char
  deriving Repr, Inhabited

namespace Cursor

def ofText (text : String) : Cursor := ⟨0, text.toList⟩

def isBlank (c : Char) : Bool := c = ' ' || c = '\t' || c = '\n' || c = '\r'

/-- Passes over characters as long as they satisfy a test. -/
def skipWhile (p : Char → Bool) (c : Cursor) : Cursor :=
  ⟨c.offset + (c.rest.takeWhile p).length, c.rest.dropWhile p⟩

def skipBlank (c : Cursor) : Cursor := c.skipWhile isBlank

/-- The next character and the place behind it. -/
def next? (c : Cursor) : Option (Char × Cursor) :=
  match c.rest with
  | [] => none
  | x :: rest => some (x, ⟨c.offset + 1, rest⟩)

/-- An error behind the next character, or at the end of the text. -/
def reject {α : Type} (c : Cursor) (cause : Cause) : Except Error α :=
  match c.next? with
  | some (_, c) => .error ⟨cause, c.offset⟩
  | none => .error ⟨cause, c.offset⟩

/-- An error in front of the next character. -/
def refuse {α : Type} (c : Cursor) (cause : Cause) : Except Error α := .error ⟨cause, c.offset⟩

/-- Consumes one given character. -/
def expect (c : Cursor) (x : Char) : Except Error Cursor :=
  match c.next? with
  | some (y, d) => if y = x then .ok d else c.reject (.expected x)
  | none => c.reject (.expected x)

/-- Consumes the characters of a word. -/
def literal (name : String) : List Char → Cursor → Except Error Cursor
  | [], c => .ok c
  | x :: more, c =>
    match c.next? with
    | some (y, d) => if y = x then literal name more d else c.reject (.literal name)
    | none => c.reject (.literal name)

end Cursor

def hexDigit? (c : Char) : Option Nat :=
  if '0' ≤ c ∧ c ≤ '9' then some (c.toNat - '0'.toNat)
  else if 'a' ≤ c ∧ c ≤ 'f' then some (c.toNat - 'a'.toNat + 10)
  else if 'A' ≤ c ∧ c ≤ 'F' then some (c.toNat - 'A'.toNat + 10)
  else none

/-- A number of hexadecimal digits, put behind those that have been read. -/
def hexDigits : Nat → Nat → Cursor → Except Error (Nat × Cursor)
  | 0, n, c => .ok (n, c)
  | count + 1, n, c =>
    match c.next? with
    | some (x, d) =>
      match hexDigit? x with
      | some digit => hexDigits count (16 * n + digit) d
      | none => c.reject .unicodeEscape
    | none => c.reject .unicodeEscape

/-- Stands in for what is no character. -/
def replacement : Char := '\ufffd'

/-- The character of a unit, if it is one. -/
def ofUnit (n : Nat) : Char := if 0xD800 ≤ n ∧ n < 0xE000 then replacement else Char.ofNat n

/-- What stands behind `\u`: a pair of units is one character; a unit that misses its partner is
replaced. -/
def unicodeEscape (c : Cursor) : Except Error (Char × Cursor) :=
  match hexDigits 4 0 c with
  | .error e => .error e
  | .ok (high, c) =>
    if 0xD800 ≤ high ∧ high < 0xDC00 then
      match c.rest with
      | '\\' :: 'u' :: rest =>
        match hexDigits 4 0 ⟨c.offset + 2, rest⟩ with
        | .error e => .error e
        | .ok (low, c) =>
          if 0xDC00 ≤ low ∧ low < 0xE000 then
            .ok (Char.ofNat (0x10000 + (high - 0xD800) * 0x400 + (low - 0xDC00)), c)
          else .ok (replacement, c)
      | _ => .ok (replacement, c)
    else .ok (ofUnit high, c)

def escape? : Char → Option Char
  | '"' => some '"'
  | '\\' => some '\\'
  | '/' => some '/'
  | 'b' => some '\x08'
  | 'f' => some '\x0c'
  | 'n' => some '\n'
  | 'r' => some '\r'
  | 't' => some '\t'
  | _ => none

/-- The characters of a string up to its closing quote, put before those in reverse order. -/
def stringBody : Nat → List Char → Cursor → Except Error (String × Cursor)
  | 0, _, c => c.refuse .unterminated
  | fuel + 1, done, c =>
    match c.next? with
    | none => c.refuse .unterminated
    | some (x, d) =>
      if x = '"' then .ok (String.ofList done.reverse, d)
      else if x = '\\' then
        match d.next? with
        | none => d.refuse .escape
        | some (y, e) =>
          if y = 'u' then
            match unicodeEscape e with
            | .error e => .error e
            | .ok (z, e) => stringBody fuel (z :: done) e
          else match escape? y with
            | some z => stringBody fuel (z :: done) e
            | none => d.reject .escape
      else stringBody fuel (x :: done) d

/-- A string with its quotes. -/
def string (c : Cursor) : Except Error (String × Cursor) :=
  match c.expect '"' with
  | .error e => .error e
  | .ok c => stringBody (c.rest.length + 1) [] c

def isNumberCharacter (c : Char) : Bool :=
  c.isDigit || c = '-' || c = '+' || c = '.' || c = 'e' || c = 'E'

/-- The spans so far and the place at hand. -/
abbrev State := List (String × Span) × Cursor

/-- The items of an array behind its bracket, from an index on. -/
def items (item : String → State → Except Error State) (pointer : String) :
    Nat → Nat → State → Except Error State
  | 0, _, s => s.2.refuse .endOfText
  | fuel + 1, index, s =>
    match item (Pointer.push pointer (toString index)) s with
    | .error e => .error e
    | .ok (spans, c) =>
      let c := c.skipBlank
      match c.next? with
      | some (',', d) => items item pointer fuel (index + 1) (spans, d)
      | some (']', d) => .ok (spans, d)
      | _ => c.reject .commaOrBracket

/-- The members of an object behind its brace. -/
def members (item : String → State → Except Error State) (pointer : String) :
    Nat → State → Except Error State
  | 0, s => s.2.refuse .endOfText
  | fuel + 1, (spans, c) =>
    match string c.skipBlank with
    | .error e => .error e
    | .ok (key, c) =>
      match c.skipBlank.expect ':' with
      | .error e => .error e
      | .ok c =>
        match item (Pointer.push pointer key) (spans, c) with
        | .error e => .error e
        | .ok (spans, c) =>
          let c := c.skipBlank
          match c.next? with
          | some (',', d) => members item pointer fuel (spans, d)
          | some ('}', d) => .ok (spans, d)
          | _ => c.reject .commaOrBrace

/-- A value at a pointer, with the spans of its parts. -/
def value : Nat → String → State → Except Error State
  | 0, _, s => s.2.refuse .endOfText
  | fuel + 1, pointer, (spans, c) =>
    let c := c.skipBlank
    let start := c.offset
    let finish (r : Except Error State) : Except Error State :=
      r.map fun s => ((pointer, ⟨start, s.2.offset⟩) :: s.1, s.2)
    match c.next? with
    | none => c.refuse .endOfText
    | some (x, d) =>
      if x = '{' then
        let d := d.skipBlank
        match d.next? with
        | some ('}', d) => finish (.ok (spans, d))
        | _ => finish (members (value fuel) pointer (d.rest.length + 1) (spans, d))
      else if x = '[' then
        let d := d.skipBlank
        match d.next? with
        | some (']', d) => finish (.ok (spans, d))
        | _ => finish (items (value fuel) pointer (d.rest.length + 1) 0 (spans, d))
      else if x = '"' then finish ((string c).map fun r => (spans, r.2))
      else if x = 't' then finish ((c.literal "true" "true".toList).map fun c => (spans, c))
      else if x = 'f' then finish ((c.literal "false" "false".toList).map fun c => (spans, c))
      else if x = 'n' then finish ((c.literal "null" "null".toList).map fun c => (spans, c))
      else if x = '-' || x.isDigit then finish (.ok (spans, c.skipWhile isNumberCharacter))
      else c.refuse .character

/-- The spans of all values of a text; only blanks may follow the value. -/
def parse (text : String) : Except Error Spans :=
  let c := Cursor.ofText text
  match value (c.rest.length + 1) "" ([], c) with
  | .error e => .error e
  | .ok (spans, c) =>
    let c := c.skipBlank
    if c.rest.isEmpty then .ok ⟨spans⟩ else c.refuse .trailing

end Spans

end Json

end ResourceApi
