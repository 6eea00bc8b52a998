/-!
Natural numbers of 64 bits in decimal digits, with an optional plus sign and any number of zeros in
front.
-/

namespace ResourceApi.Text

/-- The value of a list of decimal digits. -/
def digitsValue? (digits : List Char) : Option Nat :=
  digits.foldlM (fun n c => if c.isDigit then some (10 * n + (c.toNat - '0'.toNat)) else none) 0

def natural? (s : List Char) : Option Nat :=
  let digits := match s with
    | '+' :: rest => rest
    | s => s
  if digits.isEmpty then none
  else (digitsValue? digits).bind fun n => if n < Nat.pow 2 64 then some n else none

end ResourceApi.Text
