/-!
Finite double precision numbers in exact integer arithmetic. A number is a sign and
`significand * 2 ^ exponent`; every operation rounds the exact quotient once, to the nearest
number and to the even one of two equally near.
-/

namespace ResourceApi

/-- A finite double: `± significand * 2 ^ exponent`, kept in the form that `Binary64.round` gives.
-/
structure Binary64 where
  negative : Bool
  significand : Nat
  exponent : Int
  deriving DecidableEq, Repr, Inhabited

namespace Binary64

/-- The least exponent: subnormal numbers are multiples of `2 ^ minExponent`. -/
def minExponent : Int := -1074

/-- The greatest exponent of a finite number. -/
def maxExponent : Int := 971

/-- Significands have at most 53 bits. -/
def significandLimit : Nat := Nat.pow 2 53

def zero (negative : Bool) : Binary64 := ⟨negative, 0, minExponent⟩

/-- `num / den` in units of `2 ^ e`, as an exact fraction. -/
def inUnits (num den : Nat) (e : Int) : Nat × Nat :=
  if 0 ≤ e then (num, den * Nat.pow 2 e.toNat) else (num * Nat.pow 2 (-e).toNat, den)

/-- The nearest natural number to `num / den`; a half goes to the even neighbour. -/
def roundHalfEven (num den : Nat) : Nat :=
  let q := num / den
  let r := num % den
  if 2 * r < den then q
  else if den < 2 * r then q + 1
  else if q % 2 = 0 then q else q + 1

/-- The exponent at which `num / den` has a significand of 53 bits, but not below the least one. -/
def exponentFor (num den : Nat) : Int :=
  let guess : Int := (num.log2 : Int) - (den.log2 : Int) - 52
  let (n, d) := inUnits num den guess
  let e := if n < Nat.pow 2 52 * d then guess - 1 else guess
  max e minExponent

/-- The double nearest to `num / den`, or nothing when it is beyond the greatest one. -/
def round (negative : Bool) (num den : Nat) : Option Binary64 :=
  if num = 0 then some (zero negative)
  else
    let e := exponentFor num den
    let (n, d) := inUnits num den e
    let m := roundHalfEven n d
    let (m, e) := if m = significandLimit then (Nat.pow 2 52, e + 1) else (m, e)
    if e ≤ maxExponent then some ⟨negative, m, e⟩ else none

/-- The absolute value as an exact fraction. -/
def magnitude (x : Binary64) : Nat × Nat :=
  if 0 ≤ x.exponent then (x.significand * Nat.pow 2 x.exponent.toNat, 1)
  else (x.significand, Nat.pow 2 (-x.exponent).toNat)

def neg (x : Binary64) : Binary64 := { x with negative := !x.negative }

def isZero (x : Binary64) : Bool := x.significand == 0

/-- The double nearest to an integer; integers of 64 bits are far below the greatest double. -/
def ofInt (i : Int) : Binary64 :=
  (round (decide (i < 0)) i.natAbs 1).getD (zero false)

/-- The product with `10 ^ k`, where the power itself is rounded first. -/
def timesPowerOfTen (x : Binary64) (k : Nat) : Option Binary64 :=
  match round false (Nat.pow 10 k) 1 with
  | none => none
  | some p =>
    let (a, b) := x.magnitude
    let (c, d) := p.magnitude
    round x.negative (a * c) (b * d)

/-- The quotient by `10 ^ k`, where the power itself is rounded first. -/
def overPowerOfTen (x : Binary64) (k : Nat) : Binary64 :=
  match round false (Nat.pow 10 k) 1 with
  | none => zero x.negative
  | some p =>
    let (a, b) := x.magnitude
    let (c, d) := p.magnitude
    (round x.negative (a * d) (b * c)).getD (zero x.negative)

/-- The value as a signed exact fraction. -/
def toFraction (x : Binary64) : Int × Nat :=
  let (n, d) := x.magnitude
  (if x.negative then -(n : Int) else n, d)

/-- Whether the value is a whole number. -/
def isWhole (x : Binary64) : Bool :=
  let (n, d) := x.magnitude
  n % d == 0

end Binary64

end ResourceApi
