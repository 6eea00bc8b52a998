import ResourceApi.Json.Value

/-!
What unquoted YAML text stands for: null, a truth value, a number, or just its characters. Integers
may be written in base 2, 8 and 16; digits behind a leading zero are no number.
-/

namespace ResourceApi.Yaml

/-- What unquoted text stands for. -/
inductive Plain where
  | null
  | bool (b : Bool)
  | number (n : Json.Number)
  | special
  | text
  deriving DecidableEq, Repr, Inhabited

def isNullWord (s : List Char) : Bool :=
  s ∈ ["null".toList, "Null".toList, "NULL".toList, "~".toList]

def boolWord? (s : List Char) : Option Bool :=
  if s ∈ ["true".toList, "True".toList, "TRUE".toList] then some true
  else if s ∈ ["false".toList, "False".toList, "FALSE".toList] then some false
  else none

/-! ### Integers -/

/-- The value of a digit in either letter case, if it is below the base. -/
def digitValue? (base : Nat) (c : Char) : Option Nat :=
  let value :=
    if '0' ≤ c ∧ c ≤ '9' then some (c.toNat - '0'.toNat)
    else if 'a' ≤ c ∧ c ≤ 'f' then some (c.toNat - 'a'.toNat + 10)
    else if 'A' ≤ c ∧ c ≤ 'F' then some (c.toNat - 'A'.toNat + 10)
    else none
  value.bind fun v => if v < base then some v else none

/-- The value of digits, of which there must be at least one. -/
def digits? (base : Nat) (s : List Char) : Option Nat :=
  if s.isEmpty then none
  else s.foldlM (fun n c => (digitValue? base c).map (base * n + ·)) 0

/-- A leading zero in front of more digits makes a text, not a number. -/
def isZeroLed (s : List Char) : Bool :=
  let s := match s with
    | '-' :: rest => rest
    | '+' :: rest => rest
    | s => s
  match s with
  | '0' :: c :: rest => (c :: rest).all Char.isDigit
  | _ => false

/-- The value of digits behind the mark of their base, or of decimal digits. -/
def based? (s : List Char) : Option Nat :=
  match s with
  | '0' :: 'x' :: rest => digits? 16 rest
  | '0' :: 'o' :: rest => digits? 8 rest
  | '0' :: 'b' :: rest => digits? 2 rest
  | s => if isZeroLed s then none else digits? 10 s

/-- A number without a minus sign. -/
def natural? (s : List Char) : Option Nat :=
  match s with
  | '+' :: rest => based? rest
  | s => based? s

/-- An integer of 128 bits, signed or unsigned. -/
def integer? (s : List Char) : Option Int :=
  match s with
  | '-' :: rest =>
    (based? rest).bind fun n => if n ≤ Nat.pow 2 127 then some (-(n : Int)) else none
  | s => (natural? s).bind fun n => if n < Nat.pow 2 128 then some (n : Int) else none

/-! ### Fractions -/

/-- Decimal digits with an optional point and exponent: the digits, the exponent, in that order. -/
structure Scientific where
  digits : List Char
  exponent : Int
  deriving Repr

/-- The exponent behind its mark. -/
def exponent? (s : List Char) : Option Int :=
  match s with
  | '-' :: rest => (digits? 10 rest).map fun n => -(n : Int)
  | '+' :: rest => (digits? 10 rest).map fun n => (n : Int)
  | s => (digits? 10 s).map fun n => (n : Int)

/-- A decimal with at least one digit. -/
def scientific? (s : List Char) : Option Scientific :=
  let whole := s.takeWhile Char.isDigit
  let (fraction, rest) := match s.dropWhile Char.isDigit with
    | '.' :: rest => (rest.takeWhile Char.isDigit, rest.dropWhile Char.isDigit)
    | rest => ([], rest)
  if whole.isEmpty && fraction.isEmpty then none
  else
    let finish (e : Int) : Scientific := ⟨whole ++ fraction, e - fraction.length⟩
    match rest with
    | [] => some (finish 0)
    | c :: rest =>
      if c = 'e' ∨ c = 'E' then (exponent? rest).map finish else none

/-- The double nearest to a decimal, unless it is too large. Beyond a thousand places only the
order of magnitude counts. -/
def Scientific.toBinary64? (negative : Bool) (x : Scientific) : Option Binary64 :=
  let digits := x.digits.dropWhile (· = '0')
  let n := digits.foldl (fun n c => 10 * n + (c.toNat - '0'.toNat)) 0
  let point : Int := digits.length + x.exponent
  if n = 0 ∨ point < -1000 then some (.zero negative)
  else if 1000 < point then none
  else if 0 ≤ x.exponent then Binary64.round negative (n * Nat.pow 10 x.exponent.toNat) 1
  else Binary64.round negative n (Nat.pow 10 (-x.exponent).toNat)

/-- A finite decimal with an optional sign. -/
def real? (s : List Char) : Option Binary64 :=
  let (negative, s) := match s with
    | '-' :: rest => (true, rest)
    | '+' :: rest => (false, rest)
    | s => (false, s)
  (scientific? s).bind fun x => x.toBinary64? negative

/-- Infinity and what is no number. -/
def isSpecial (s : List Char) : Bool :=
  s ∈ [".inf", ".Inf", ".INF", "+.inf", "+.Inf", "+.INF", "-.inf", "-.Inf", "-.INF",
    ".nan", ".NaN", ".NAN"].map String.toList

/-- What a text stands for when it is not quoted. -/
def Plain.ofText (s : List Char) : Plain :=
  if s.isEmpty || isNullWord s then .null
  else match boolWord? s with
    | some b => .bool b
    | none =>
      match integer? s with
      | some i =>
        if -(Nat.pow 2 63 : Int) ≤ i ∧ i < Nat.pow 2 64 then .number (.integer i)
        else .number (.real (Binary64.ofInt i))
      | none =>
        if isZeroLed s then .text
        else if isSpecial s then .special
        else match real? s with
          | some x => .number (.real x)
          | none => .text

end ResourceApi.Yaml
