import ResourceApi.Number.Binary64

/-!
The decimal text of a double. The digits are the fewest that read back as the same number, and of
those the nearest; the layout is positional between `1e-5` and `1e16` and has an exponent outside.
-/

namespace ResourceApi

/-- A decimal `digits * 10 ^ exponent`. -/
structure Decimal where
  digits : Nat
  exponent : Int
  deriving DecidableEq, Repr, Inhabited

namespace Binary64

/-- The reals that round to a number, ends included or not, in units of `2 ^ (exponent - 2)`. -/
structure Cell where
  low : Nat
  value : Nat
  high : Nat
  inclusive : Bool

/-- The cell of a number that is not zero. Below a power of two the lower neighbour is nearer. -/
def cell (x : Binary64) : Cell :=
  let m := x.significand
  let near := m = Nat.pow 2 52 ∧ minExponent < x.exponent
  { low := 4 * m - (if near then 1 else 2), value := 4 * m, high := 4 * m + 2,
    inclusive := m % 2 == 0 }

/-- `n` units of `2 ^ e` over `10 ^ p`, as an exact fraction. -/
def onGrid (n : Nat) (e p : Int) : Nat × Nat :=
  let num := n * (if 0 ≤ e then Nat.pow 2 e.toNat else 1)
    * (if p < 0 then Nat.pow 10 (-p).toNat else 1)
  let den := (if e < 0 then Nat.pow 2 (-e).toNat else 1)
    * (if 0 ≤ p then Nat.pow 10 p.toNat else 1)
  (num, den)

/-- The greatest `k` with `10 ^ k ≤ x`, searched upwards from a lower bound. -/
def decimalExponent (x : Binary64) : Int :=
  let (n, d) := x.magnitude
  let guess : Int := ((n.log2 : Int) - (d.log2 : Int) - 1) * 30103 / 100000 - 1
  let rec up : Nat → Int → Int
    | 0, k => k
    | fuel + 1, k =>
      let (a, b) := if 0 ≤ k + 1 then (n, d * Nat.pow 10 (k + 1).toNat)
        else (n * Nat.pow 10 (-(k + 1)).toNat, d)
      if b ≤ a then up fuel (k + 1) else k
  up 6 guess

/-- The decimal with digits on the grid `10 ^ p` that lies in the cell, nearest to the number. -/
def onlyDigitsAt (c : Cell) (e p : Int) : Option Nat :=
  let (v, d) := onGrid c.value e p
  let (lo, _) := onGrid c.low e p
  let (hi, _) := onGrid c.high e p
  let within (k : Nat) : Bool :=
    if c.inclusive then lo ≤ k * d && k * d ≤ hi else lo < k * d && k * d < hi
  let below := v / d
  let above := below + 1
  match within below && 0 < below, within above with
  | true, true => if 2 * (v - below * d) ≤ d then some below else some above
  | true, false => some below
  | false, true => some above
  | false, false => none

/-- The shortest decimal that reads back as a number that is not zero; seventeen digits suffice. -/
def shortest (x : Binary64) : Decimal :=
  let c := x.cell
  let e := x.exponent - 2
  let top := x.decimalExponent
  let rec search : Nat → Nat → Decimal
    | 0, _ => ⟨0, 0⟩
    | fuel + 1, n =>
      let p := top - (n : Int) + 1
      match onlyDigitsAt c e p with
      | some k => ⟨k, p⟩
      | none => search fuel (n + 1)
  search 18 1

end Binary64

namespace Decimal

/-- Drops the zeros at the end of the digits. -/
def normalize (d : Decimal) : Decimal :=
  let rec strip : Nat → Nat → Int → Decimal
    | 0, n, e => ⟨n, e⟩
    | fuel + 1, n, e => if n % 10 = 0 ∧ n ≠ 0 then strip fuel (n / 10) (e + 1) else ⟨n, e⟩
  strip 20 d.digits d.exponent

/-- How a decimal is laid out: the positions of the point that are written without an exponent. -/
structure Layout where
  leastPoint : Int
  greatestPoint : Int

/-- Positional text has at least one digit on each side of the point. -/
def render (layout : Layout) (d : Decimal) : String :=
  let ds := Nat.toDigits 10 d.digits
  let n : Int := ds.length
  let point := n + d.exponent
  if layout.leastPoint ≤ point ∧ point ≤ layout.greatestPoint then
    if 0 ≤ d.exponent then
      String.ofList (ds ++ List.replicate d.exponent.toNat '0' ++ ['.', '0'])
    else if 0 < point then
      String.ofList (ds.take point.toNat ++ '.' :: ds.drop point.toNat)
    else
      String.ofList (['0', '.'] ++ List.replicate (-point).toNat '0' ++ ds)
  else
    let mantissa := match ds with
      | [] => []
      | [c] => [c]
      | c :: rest => c :: '.' :: rest
    let scientific := point - 1
    let mark := if scientific < 0 then ['e', '-'] else ['e', '+']
    String.ofList (mantissa ++ mark ++ Nat.toDigits 10 scientific.natAbs)

end Decimal

namespace Binary64

/-- Numbers from `1e-5` up to but not including `1e16` are written without an exponent. -/
def layout : Decimal.Layout := ⟨-4, 16⟩

/-- The text of a number; zero keeps its sign. -/
def render (x : Binary64) : String :=
  let body := if x.isZero then "0.0" else (x.shortest.normalize).render layout
  if x.negative then "-" ++ body else body

end Binary64

end ResourceApi
