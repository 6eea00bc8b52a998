/-!
Addresses of hosts in numbers: four bytes with dots between them, or eight pieces with colons.
-/

namespace ResourceApi.Uri

/-! ### Four bytes -/

/-- The value of digits in a base, of which there may be none. -/
def digitsIn? (base : Nat) (s : List Char) : Option Nat :=
  s.foldlM (fun n c =>
    let digit :=
      if '0' ≤ c ∧ c ≤ '9' then some (c.toNat - '0'.toNat)
      else if 'a' ≤ c ∧ c ≤ 'f' then some (c.toNat - 'a'.toNat + 10)
      else if 'A' ≤ c ∧ c ≤ 'F' then some (c.toNat - 'A'.toNat + 10)
      else none
    match digit with
    | some d => if d < base then some (base * n + d) else none
    | none => none) 0

/-- A number in decimal, behind a zero in octal, behind `0x` in hexadecimal digits. -/
def addressNumber? (s : List Char) : Option Nat :=
  match s with
  | [] => none
  | '0' :: 'x' :: rest => digitsIn? 16 rest
  | '0' :: 'X' :: rest => digitsIn? 16 rest
  | '0' :: c :: rest => digitsIn? 8 (c :: rest)
  | s => digitsIn? 10 s

/-- The labels without an empty one at the end. -/
def withoutRoot (labels : List (List Char)) : List (List Char) :=
  match labels.reverse with
  | [] :: rest => rest.reverse
  | _ => labels

/-- Whether the last label is a number. -/
def endsInNumber (labels : List (List Char)) : Bool :=
  match (withoutRoot labels).getLast? with
  | none => false
  | some last =>
    (!last.isEmpty && last.all Char.isDigit) || (addressNumber? last).isSome

/-- At most four numbers; all but the last are bytes, and the last fills the bytes that are left. -/
def isAddress4 (labels : List (List Char)) : Bool :=
  let parts := withoutRoot labels
  match parts.mapM addressNumber? with
  | none => false
  | some numbers =>
    match numbers.reverse with
    | [] => false
    | last :: before =>
      decide (parts.length ≤ 4) && before.all (fun n => decide (n < 256))
        && decide (last < Nat.pow 256 (4 - before.length))

/-! ### Eight pieces -/

def isHexDigit (c : Char) : Bool :=
  c.isDigit || ('a' ≤ c && c ≤ 'f') || ('A' ≤ c && c ≤ 'F')

/-- A byte in decimal digits without a leading zero. -/
def isByte (s : List Char) : Bool :=
  match s with
  | [] => false
  | ['0'] => true
  | '0' :: _ => false
  | s =>
    s.all Char.isDigit && s.length ≤ 3
      && ((digitsIn? 10 s).map fun n => decide (n < 256)).getD false

/-- Four bytes with dots between them. -/
def isDotted (s : List Char) : Bool :=
  let rec count : Nat → List Char → Bool
    | 0, _ => false
    | 1, s => isByte s
    | n + 1, s =>
      match s.dropWhile (· ≠ '.') with
      | '.' :: rest => isByte (s.takeWhile (· ≠ '.')) && count n rest
      | _ => false
  count 4 s

/-- Reads pieces from the front, of which `pieces` are there already; `gap` says whether a double
colon has stood for some. -/
def isPieces : Nat → Nat → Bool → List Char → Bool
  | 0, _, _, _ => false
  | fuel + 1, pieces, gap, s =>
    match s with
    | [] => gap || pieces = 8
    | ':' :: rest => pieces ≠ 8 && !gap && isPieces fuel (pieces + 1) true rest
    | s =>
      if pieces = 8 then false
      else
        let digits := (s.take 4).takeWhile isHexDigit
        match s.drop digits.length with
        | [] => gap || pieces + 1 = 8
        | '.' :: _ =>
          !digits.isEmpty && pieces ≤ 6 && isDotted s && (gap || pieces = 6)
        | ':' :: rest => !rest.isEmpty && isPieces fuel (pieces + 1) gap rest
        | _ => false

def isAddress6 (s : List Char) : Bool :=
  match s with
  | ':' :: ':' :: rest => isPieces (s.length + 1) 1 true rest
  | ':' :: _ => false
  | s => 2 ≤ s.length && isPieces (s.length + 1) 0 false s

/-- An address of eight pieces behind its opening bracket. -/
def isBracketedAddress (s : List Char) : Bool :=
  match s.reverse with
  | ']' :: inner => isAddress6 inner.reverse
  | _ => false

end ResourceApi.Uri
