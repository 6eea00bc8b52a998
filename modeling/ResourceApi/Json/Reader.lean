import ResourceApi.Json.Failure

/-!
The strict reader of JSON. It consumes a list of characters from the front. Values may be nested
127 deep; of a repeated key the first place and the last value stay. Numbers are read by gathering
digits into 64 bits and scaling once by a power of ten.
-/

namespace ResourceApi.Json

/-- A reader takes a value from the front of a text and gives what is left of it. -/
abbrev Reader (α : Type) := List Char → Except Failure (α × List Char)

namespace Reader

def isBlank (c : Char) : Bool := c = ' ' || c = '\n' || c = '\t' || c = '\r'

def skipBlank (s : List Char) : List Char := s.dropWhile isBlank

def isDigit (c : Char) : Bool := '0' ≤ c && c ≤ '9'

def digitValue (c : Char) : Nat := c.toNat - '0'.toNat

/-- Consumes a word, character by character. -/
def word : List Char → Reader Unit
  | [], s => .ok ((), s)
  | _ :: _, [] => .error (.behind .endInValue [])
  | expected :: more, c :: s =>
    if c = expected then word more s else .error (.ahead1 .wordExpected (c :: s))

/-! ### Strings -/

/-- The value of a hexadecimal digit in either letter case. -/
def hexValue? (c : Char) : Option Nat :=
  if '0' ≤ c ∧ c ≤ '9' then some (c.toNat - '0'.toNat)
  else if 'a' ≤ c ∧ c ≤ 'f' then some (c.toNat - 'a'.toNat + 10)
  else if 'A' ≤ c ∧ c ≤ 'F' then some (c.toNat - 'A'.toNat + 10)
  else none

/-- Four hexadecimal digits. A failure counts four bytes, whatever they hold. -/
def hexUnit (s : List Char) : Except Failure (Nat × List Char) :=
  let bytes := (s.take 4).foldl (fun n c => n + c.utf8Size) 0
  if bytes < 4 then .error (.behind .endInString [])
  else match s with
    | a :: b :: c :: d :: rest =>
      match hexValue? a, hexValue? b, hexValue? c, hexValue? d with
      | some a, some b, some c, some d => .ok (((a * 16 + b) * 16 + c) * 16 + d, rest)
      | _, _, _, _ => .error ⟨.escapeUnknown, s, 4, true⟩
    | _ => .error ⟨.escapeUnknown, s, 4, true⟩

/-- What stands behind `\u`: one unit, or two that make a pair. -/
def unicodeEscape (s : List Char) : Except Failure (Char × List Char) :=
  match hexUnit s with
  | .error f => .error f
  | .ok (unit, rest) =>
    if 0xDC00 ≤ unit ∧ unit ≤ 0xDFFF then .error (.behind .surrogateLone rest)
    else if unit < 0xD800 ∨ 0xDBFF < unit then .ok (Char.ofNat unit, rest)
    else match rest with
      | [] => .error (.behind .endInString [])
      | '\\' :: [] => .error (.behind .endInString [])
      | '\\' :: 'u' :: rest =>
        match hexUnit rest with
        | .error f => .error f
        | .ok (low, rest) =>
          if low < 0xDC00 ∨ 0xDFFF < low then .error (.behind .surrogateLone rest)
          else .ok (Char.ofNat (0x10000 + (unit - 0xD800) * 0x400 + (low - 0xDC00)), rest)
      | '\\' :: rest => .error (.ahead1 .surrogateUnpaired rest)
      | rest => .error (.ahead1 .surrogateUnpaired rest)

/-- The characters that a backslash and one letter stand for. -/
def simpleEscape? : Char → Option Char
  | '"' => some '"'
  | '\\' => some '\\'
  | '/' => some '/'
  | 'b' => some '\x08'
  | 'f' => some '\x0c'
  | 'n' => some '\n'
  | 'r' => some '\r'
  | 't' => some '\t'
  | _ => none

/-- What stands behind a backslash. -/
def escape : List Char → Except Failure (Char × List Char)
  | [] => .error (.behind .endInString [])
  | 'u' :: rest => unicodeEscape rest
  | c :: rest =>
    match simpleEscape? c with
    | some c => .ok (c, rest)
    | none => .error (.ahead1 .escapeUnknown (c :: rest))

/-- The characters of a string up to its closing quote, put before those in reverse order. -/
def stringBody : Nat → List Char → Reader (List Char)
  | 0, _, s => .error (.behind .endInString s)
  | _ + 1, _, [] => .error (.behind .endInString [])
  | fuel + 1, done, c :: s =>
    if c = '"' then .ok (done.reverse, s)
    else if c = '\\' then
      match escape s with
      | .error f => .error f
      | .ok (c, s) => stringBody fuel (c :: done) s
    else if c.toNat < 32 then .error (.ahead1 .controlCharacter (c :: s))
    else stringBody fuel (c :: done) s

/-- A string behind its opening quote. -/
def string : Reader String := fun s =>
  match stringBody (s.length + 1) [] s with
  | .error f => .error f
  | .ok (chars, rest) => .ok (String.ofList chars, rest)

/-! ### Numbers -/

/-- Integers are gathered in 64 bits. -/
def integerLimit : Nat := Nat.pow 2 64

/-- Exponents are gathered in 31 bits. -/
def exponentLimit : Nat := Nat.pow 2 31

/-- Gathers digits as long as the number stays below the limit; also how many there were. -/
def gather (limit : Nat) : Nat → Nat → List Char → Nat × Nat × List Char
  | n, count, [] => (n, count, [])
  | n, count, c :: s =>
    if isDigit c && 10 * n + digitValue c < limit then
      gather limit (10 * n + digitValue c) (count + 1) s
    else (n, count, c :: s)

def startsWithDigit : List Char → Bool
  | c :: _ => isDigit c
  | [] => false

/-- Scales by a power of ten: one multiplication, or divisions by at most `10 ^ 308` each. -/
def scale : Nat → Binary64 → Int → Option Binary64
  | 0, x, _ => some x
  | fuel + 1, x, e =>
    if 0 ≤ e then
      if e ≤ 308 then x.timesPowerOfTen e.toNat
      else if x.isZero then some x else none
    else if -308 ≤ e then some (x.overPowerOfTen (-e).toNat)
    else if x.isZero then some x
    else scale fuel (x.overPowerOfTen 308) (e + 308)

/-- The double for gathered digits and an exponent. -/
def double (negative : Bool) (digits : Nat) (e : Int) : Reader Number := fun s =>
  match scale 8 (Binary64.ofInt digits) e with
  | none => .error (.behind .numberOutOfRange s)
  | some x => .ok (.real (if negative then x.neg else x), s)

/-- What stands behind the exponent mark. -/
def exponentPart (negative : Bool) (digits : Nat) (e : Int) : Reader Number := fun s =>
  let (down, s) := match s with
    | '+' :: s => (false, s)
    | '-' :: s => (true, s)
    | s => (false, s)
  match s with
  | [] => .error (.behind .endInValue [])
  | c :: rest =>
    if isDigit c then
      let (n, _, rest) := gather exponentLimit (digitValue c) 1 rest
      match rest with
      | d :: more =>
        if isDigit d then
          if digits ≠ 0 ∧ down = false then .error (.behind .numberOutOfRange more)
          else .ok (.real (.zero negative), more.dropWhile isDigit)
        else double negative digits (if down then e - n else e + n) rest
      | [] => double negative digits (if down then e - n else e + n) rest
    else .error (.ahead1 .numberMalformed s)

/-- The exponent part if there is one. -/
def exponentPart? (negative : Bool) (digits : Nat) (e : Int) : Reader Number
  | 'e' :: s => exponentPart negative digits e s
  | 'E' :: s => exponentPart negative digits e s
  | s => double negative digits e s

/-- What stands behind the decimal point. Digits that do not fit any more are dropped. -/
def fractionPart (negative : Bool) (digits : Nat) (e : Int) : Reader Number := fun s =>
  let (n, count, rest) := gather integerLimit digits 0 s
  if startsWithDigit rest then exponentPart? negative n (e - count) (rest.dropWhile isDigit)
  else if count = 0 then
    match rest with
    | [] => .error (.behind .endInValue [])
    | _ => .error (.ahead1 .numberMalformed rest)
  else exponentPart? negative n (e - count) rest

/-- A number whose integer part has been gathered. Minus zero and integers below the signed range
are doubles. -/
def afterInteger (negative : Bool) (n : Nat) : Reader Number
  | '.' :: s => fractionPart negative n 0 s
  | 'e' :: s => exponentPart negative n 0 s
  | 'E' :: s => exponentPart negative n 0 s
  | s =>
    if negative then
      if n = 0 ∨ Nat.pow 2 63 < n then .ok (.real (Binary64.ofInt n).neg, s)
      else .ok (.integer (-(n : Int)), s)
    else .ok (.integer n, s)

/-- A number behind its sign. Digits beyond 64 bits only count into the exponent. -/
def number (negative : Bool) : Reader Number
  | [] => .error (.behind .endInValue [])
  | c :: s =>
    if c = '0' then
      if startsWithDigit s then .error (.ahead1 .numberMalformed s) else afterInteger negative 0 s
    else if isDigit c then
      let (n, _, rest) := gather integerLimit (digitValue c) 1 s
      if startsWithDigit rest then
        let dropped := rest.takeWhile isDigit
        match rest.dropWhile isDigit with
        | '.' :: s => fractionPart negative n dropped.length s
        | s => exponentPart? negative n dropped.length s
      else afterInteger negative n rest
    else .error (.ahead1 .numberMalformed (c :: s))

/-! ### Brackets -/

/-- The colon between a key and its value. -/
def colon : Reader Unit := fun s =>
  match skipBlank s with
  | ':' :: rest => .ok ((), rest)
  | [] => .error (.behind .endInObject [])
  | rest => .error (.ahead1 .colonExpected rest)

/-- Whether another item of an array follows; consumes the comma before it. -/
def nextItem (first : Bool) : Reader Bool := fun s =>
  match skipBlank s with
  | [] => .error (.behind .endInArray [])
  | ']' :: rest => .ok (false, ']' :: rest)
  | c :: rest =>
    if first then .ok (true, c :: rest)
    else if c = ',' then
      match skipBlank rest with
      | [] => .error (.behind .endInValue [])
      | ']' :: rest => .error (.ahead1 .commaTrailing (']' :: rest))
      | rest => .ok (true, rest)
    else .error (.ahead1 .commaOrBracketExpected (c :: rest))

/-- The key of the next member of an object, if one follows. -/
def nextKey (first : Bool) : Reader (Option String) := fun s =>
  let key : Reader (Option String)
    | '"' :: rest =>
      match string rest with
      | .error f => .error f
      | .ok (k, rest) => .ok (some k, rest)
    | '}' :: rest => .error (.ahead1 .commaTrailing ('}' :: rest))
    | [] => .error (.behind .endInValue [])
    | rest => .error (.ahead1 .keyNotString rest)
  match skipBlank s with
  | [] => .error (.behind .endInObject [])
  | '}' :: rest => .ok (none, '}' :: rest)
  | c :: rest =>
    if first then key (c :: rest)
    else if c = ',' then key (skipBlank rest)
    else .error (.ahead1 .commaOrBraceExpected (c :: rest))

/-- Tries the closing bracket of an array: what is left, and the failure if it is not there. -/
def closeArray (s : List Char) : Option Failure × List Char :=
  match skipBlank s with
  | ']' :: rest => (none, rest)
  | ',' :: rest =>
    let rest := skipBlank rest
    match rest with
    | ']' :: _ => (some (.ahead1 .commaTrailing rest), rest)
    | _ => (some (.ahead1 .charactersTrailing rest), rest)
  | [] => (some (.behind .endInArray []), [])
  | rest => (some (.ahead1 .charactersTrailing rest), rest)

/-- Tries the closing brace of an object: what is left, and the failure if it is not there. -/
def closeObject (s : List Char) : Option Failure × List Char :=
  match skipBlank s with
  | '}' :: rest => (none, rest)
  | ',' :: rest => (some (.ahead1 .commaTrailing (',' :: rest)), ',' :: rest)
  | [] => (some (.behind .endInObject []), [])
  | rest => (some (.ahead1 .charactersTrailing rest), rest)

/-- Reads what is between brackets and then the closing one. A failure inside that has no place
yet is placed behind the attempt to close. -/
def bracketed {α : Type} (close : List Char → Option Failure × List Char) (inside : Reader α) :
    Reader α := fun s =>
  match inside s with
  | .ok (a, rest) =>
    match close rest with
    | (none, rest) => .ok (a, rest)
    | (some f, _) => .error f
  | .error f => .error (f.place (close f.rest).2)

/-- Folds a reader over the items of an array. -/
def items {α : Type} (step : α → Reader α) : Nat → Bool → α → Reader α
  | 0, _, _, s => .error (.behind .endInArray s)
  | fuel + 1, first, a, s =>
    match nextItem first s with
    | .error f => .error f
    | .ok (false, rest) => .ok (a, rest)
    | .ok (true, rest) =>
      match step a rest with
      | .error f => .error f
      | .ok (a, rest) => items step fuel false a rest

/-- Folds a reader over the members of an object; it starts behind each key. -/
def members {α : Type} (step : α → String → Reader α) : Nat → Bool → α → Reader α
  | 0, _, _, s => .error (.behind .endInObject s)
  | fuel + 1, first, a, s =>
    match nextKey first s with
    | .error f => .error f
    | .ok (none, rest) => .ok (a, rest)
    | .ok (some key, rest) =>
      match step a key rest with
      | .error f => .error f
      | .ok (a, rest) => members step fuel false a rest

/-! ### Values -/

/-- Values may be nested this deep. -/
def depthLimit : Nat := 127

/-- How the members of an object are collected: the key and value that come next, and the members
before them. -/
abbrev Collect := String → Json → List (String × Json) → List (String × Json)

/-- A value that may still be nested `depth` levels. -/
def valueBy (collect : Collect) (depth : Nat) : Reader Json := fun s =>
  match skipBlank s with
  | [] => .error (.behind .endInValue [])
  | c :: rest =>
    if c = 'n' then (word ['u', 'l', 'l'] rest).map fun r => (.null, r.2)
    else if c = 't' then (word ['r', 'u', 'e'] rest).map fun r => (.bool true, r.2)
    else if c = 'f' then (word ['a', 'l', 's', 'e'] rest).map fun r => (.bool false, r.2)
    else if c = '-' then (number true rest).map fun r => (.number r.1, r.2)
    else if isDigit c then (number false (c :: rest)).map fun r => (.number r.1, r.2)
    else if c = '"' then (string rest).map fun r => (.string r.1, r.2)
    else if c = '[' then
      match depth with
      | 0 => .error (.ahead1 .tooDeep (c :: rest))
      | depth + 1 =>
        let step (done : List Json) : Reader (List Json) := fun s =>
          (valueBy collect depth s).map fun r => (r.1 :: done, r.2)
        (bracketed closeArray (items step (rest.length + 1) true []) rest).map
          fun r => (.array r.1.reverse, r.2)
    else if c = '{' then
      match depth with
      | 0 => .error (.ahead1 .tooDeep (c :: rest))
      | depth + 1 =>
        let step (done : List (String × Json)) (key : String) : Reader (List (String × Json)) :=
          fun s =>
            match colon s with
            | .error f => .error f
            | .ok (_, s) => (valueBy collect depth s).map fun r => (collect key r.1 done, r.2)
        (bracketed closeObject (members step (rest.length + 1) true []) rest).map
          fun r => (.object r.1, r.2)
    else .error (.ahead1 .valueExpected (c :: rest))
termination_by structural depth

/-- A value in which a repeated key keeps its first place and takes its last value. -/
def value (depth : Nat) : Reader Json := valueBy Entries.put depth

/-- A value in which every member stays, repeated keys included. -/
def everyMember (depth : Nat) : Reader Json :=
  valueBy (fun key value done => done ++ [(key, value)]) depth

/-- Reads the whole text with a reader; only blanks may follow. -/
def run {α : Type} (reader : Reader α) (text : String) : Except Error α :=
  let chars := text.toList
  match reader chars with
  | .error f => .error (f.toError chars)
  | .ok (a, rest) =>
    match skipBlank rest with
    | [] => .ok a
    | rest => .error ((Failure.ahead1 .charactersTrailing rest).toError chars)

end Reader

/-- The value of a JSON text. -/
def parse (text : String) : Except Error Json := Reader.run (Reader.value Reader.depthLimit) text

end ResourceApi.Json
