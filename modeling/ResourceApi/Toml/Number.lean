import ResourceApi.Toml.Text

/-!
Numbers and dates of TOML. Underscores may stand between digits, and a decimal number other than
zero has no zero in front.
-/

namespace ResourceApi.Toml

/-- Digits with single underscores between them; the result has none. -/
def digits? (isDigit : Char → Bool) : List Char → Option (List Char)
  | [] => none
  | [c] => if isDigit c then some [c] else none
  | c :: '_' :: rest => if isDigit c then (digits? isDigit rest).map (c :: ·) else none
  | c :: rest => if isDigit c then (digits? isDigit rest).map (c :: ·) else none

def valueOf (base : Nat) (digits : List Char) : Nat :=
  digits.foldl (fun n c => base * n + (hexValue? c).getD 0) 0

def isDigitOf (base : Nat) (c : Char) : Bool := (hexValue? c).any fun v => v < base

/-- Decimal digits without a needless zero in front. -/
def decimal? (s : List Char) : Option Nat :=
  match digits? Char.isDigit s with
  | some digits =>
    if 1 < digits.length ∧ digits.head? = some '0' then none else some (valueOf 10 digits)
  | none => none

def based? (base : Nat) (s : List Char) : Option Nat :=
  (digits? (isDigitOf base) s).map (valueOf base)

/-- A number with a sign in front or none. -/
def signed (s : List Char) : Bool × List Char :=
  match s with
  | '-' :: rest => (true, rest)
  | '+' :: rest => (false, rest)
  | s => (false, s)

/-- An integer of 64 bits. -/
def integer? (s : List Char) : Option Int :=
  let limit : Int := Nat.pow 2 63
  let inRange (i : Int) : Option Int := if -limit ≤ i ∧ i < limit then some i else none
  match s with
  | '0' :: 'x' :: rest => (based? 16 rest).bind fun n => inRange n
  | '0' :: 'o' :: rest => (based? 8 rest).bind fun n => inRange n
  | '0' :: 'b' :: rest => (based? 2 rest).bind fun n => inRange n
  | s =>
    let (negative, digits) := signed s
    (decimal? digits).bind fun n => inRange (if negative then -n else n)

/-- The exponent of a number, behind its letter. -/
def isExponent (s : List Char) : Bool := (digits? Char.isDigit (signed s).2).isSome

def isExponentLetter (c : Char) : Bool := c = 'e' || c = 'E'

/-- A floating point number: digits with a fraction, an exponent or both, or a special value. -/
def isFloat (s : List Char) : Bool :=
  let s := (signed s).2
  if s = "inf".toList ∨ s = "nan".toList then true
  else
    let whole := s.takeWhile fun c => c.isDigit || c = '_'
    (decimal? whole).isSome &&
      match s.drop whole.length with
      | '.' :: rest =>
        let fraction := rest.takeWhile fun c => c.isDigit || c = '_'
        (digits? Char.isDigit fraction).isSome &&
          match rest.drop fraction.length with
          | [] => true
          | c :: exponent => isExponentLetter c && isExponent exponent
      | c :: exponent => isExponentLetter c && isExponent exponent
      | [] => false

/-- A text with a zero in place of each digit. -/
def shape (s : List Char) : List Char := s.map fun c => if c.isDigit then '0' else c

def isDate (s : List Char) : Bool := shape s = "0000-00-00".toList

/-- A time of day, perhaps with a fraction of a second, and what follows it. -/
def timeOfDay? (s : List Char) : Option (List Char) :=
  if shape (s.take 8) = "00:00:00".toList then
    match s.drop 8 with
    | '.' :: rest =>
      match rest.dropWhile Char.isDigit with
      | after => if after.length < rest.length then some after else none
    | rest => some rest
  else none

/-- A distance from universal time. -/
def isOffset (s : List Char) : Bool :=
  s = ['z'] || s = ['Z'] || shape s = "+00:00".toList || shape s = "-00:00".toList

/-- A date, a time or both. -/
def isDateTime (s : List Char) : Bool :=
  isDate s || timeOfDay? s = some [] ||
    (isDate (s.take 10) &&
      match s.drop 10 with
      | c :: rest =>
        (c = 'T' || c = 't' || c = ' ') && (timeOfDay? rest).any fun after =>
          after.isEmpty || isOffset after
      | [] => false)

/-- Characters of numbers, dates and times. -/
def isNumberCharacter (c : Char) : Bool :=
  c.isAlphanum || c = '+' || c = '-' || c = '_' || c = '.' || c = ':'

/-- The text of a number, a date or a time. A blank may stand between a date and a time. -/
def numberText (s : List Char) : List Char :=
  let first := s.takeWhile isNumberCharacter
  match s.drop first.length with
  | ' ' :: c :: rest =>
    if isDate first ∧ c.isDigit then first ++ ' ' :: (c :: rest).takeWhile isNumberCharacter
    else first
  | _ => first

/-- A number, a date or a time. -/
def number (s : List Char) : Except Failure (Scalar × List Char) :=
  let text := numberText s
  match integer? text with
  | some i => .ok (.integer i, s.drop text.length)
  | none =>
    if isFloat text then .ok (.float, s.drop text.length)
    else if isDateTime text then .ok (.dateTime, s.drop text.length)
    else stop s

end ResourceApi.Toml
