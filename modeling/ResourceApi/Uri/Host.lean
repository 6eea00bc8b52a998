import ResourceApi.Text.Category
import ResourceApi.Uri.Address
import ResourceApi.Uri.Direction
import ResourceApi.Uri.HostTable

/-!
Names of hosts. A name is put into its plain form, label by label: letters become small, characters
that stand for others are replaced, and labels in the encoded form are decoded and checked.
-/

namespace ResourceApi.Uri

/-! ### Percent signs -/

def hexValue? (c : Char) : Option Nat :=
  if '0' ≤ c ∧ c ≤ '9' then some (c.toNat - '0'.toNat)
  else if 'a' ≤ c ∧ c ≤ 'f' then some (c.toNat - 'a'.toNat + 10)
  else if 'A' ≤ c ∧ c ≤ 'F' then some (c.toNat - 'A'.toNat + 10)
  else none

/-- The bytes of a text in which a percent sign and two hexadecimal digits stand for a byte. -/
def decodedBytes : List Char → List UInt8
  | [] => []
  | '%' :: a :: b :: rest =>
    match hexValue? a, hexValue? b with
    | some x, some y => UInt8.ofNat (16 * x + y) :: decodedBytes rest
    | _, _ => '%'.toUInt8 :: decodedBytes (a :: b :: rest)
  | c :: rest => String.utf8EncodeChar c ++ decodedBytes rest

/-- The text whose bytes are written by percent signs, if they are the bytes of a text. -/
def percentDecode? (s : List Char) : Option (List Char) :=
  (String.fromUTF8? (ByteArray.mk (decodedBytes s).toArray)).map String.toList

/-! ### Labels in the encoded form -/

/-- The value of a digit of the encoded form: letters first, then digits. -/
def labelDigit? (c : Char) : Option Nat :=
  if 'a' ≤ c ∧ c ≤ 'z' then some (c.toNat - 'a'.toNat)
  else if '0' ≤ c ∧ c ≤ '9' then some (c.toNat - '0'.toNat + 26)
  else none

/-- The bias after a delta has been decoded. -/
def adapt (delta count : Nat) (first : Bool) : Nat :=
  let delta := if first then delta / 700 else delta / 2
  let delta := delta + delta / count
  let rec scale : Nat → Nat → Nat → Nat
    | 0, k, delta => k + 36 * delta / (delta + 38)
    | fuel + 1, k, delta =>
      if 455 < delta then scale fuel (k + 36) (delta / 35) else k + 36 * delta / (delta + 38)
  scale 32 0 delta

/-- A number of variable length: the number and what is left. -/
def labelNumber (bias : Nat) : Nat → Nat → Nat → List Char → Option (Nat × List Char)
  | _, _, _, [] => none
  | k, weight, n, c :: rest =>
    match labelDigit? c with
    | none => none
    | some digit =>
      let n := n + digit * weight
      let threshold := if k ≤ bias then 1 else if bias + 26 ≤ k then 26 else k - bias
      if Nat.pow 2 32 ≤ n then none
      else if digit < threshold then some (n, rest)
      else labelNumber bias (k + 36) (weight * (36 - threshold)) n rest

/-- Inserts the characters that the numbers of an encoded label describe. -/
def insertAll : Nat → Nat → Nat → Nat → List Char → List Char → Option (List Char)
  | 0, _, _, _, done, _ => some done
  | _ + 1, _, _, _, done, [] => some done
  | fuel + 1, code, index, bias, done, digits =>
    match labelNumber bias 36 1 0 digits with
    | none => none
    | some (delta, rest) =>
      let count := done.length + 1
      let code' := code + (index + delta) / count
      let index' := (index + delta) % count
      if code'.isValidChar then
        insertAll fuel code' (index' + 1) (adapt delta count (done.all fun c => c.toNat < 128))
          (done.take index' ++ Char.ofNat code' :: done.drop index') rest
      else none

/-- What an encoded label stands for, without its mark in front. -/
def decodeLabel? (s : List Char) : Option (List Char) :=
  let tail := (s.reverse.takeWhile (· ≠ '-')).reverse
  let basic := if tail.length = s.length then [] else s.take (s.length - tail.length - 1)
  insertAll s.length 128 0 72 basic tail

/-! ### Labels -/

/-- Signs that join the letters around them. -/
def joiningSigns : Text.RangeTable := .ofText (String.join
  ["2381 1 127 1 127 1 127 1 127 1 127 1 127 1 127 1 109 2 16 1 124 1 111 1 127 1 201 1 ",
   "180 2 1753 2 30 1 157 1 653 1 227 1 101 2 70 2 4491 1 31366 1 37 1 151 1 142 1 108 1 ",
   "309 1 246 1 24145 1 1542 1 41 1 14 1 57 1 121 2 139 1 116 1 180 1 98 1 244 1 127 1 252 1 ",
   "127 1 118 1 116 1 269 1 259 2 161 1 83 1 18 1 81 1 421 1 260 2 81 1"])

/-- Invisible joiners may only stand behind a joining sign. -/
def joinersFit : List Char → Bool
  | c :: d :: rest =>
    (if d = '\u200c' ∨ d = '\u200d' then joiningSigns.contains c.toNat else true)
      && joinersFit (d :: rest)
  | _ => true

/-- A label outside ASCII begins neither with a mark nor with a joiner. -/
def labelFits (label : List Char) : Bool :=
  match label with
  | [] => true
  | c :: _ =>
    let mark := match Text.Category.ofChar c with
      | .nonspacingMark | .spacingMark | .enclosingMark => true
      | _ => false
    !mark && c ≠ '\u200c' && c ≠ '\u200d' && joinersFit label

/-- Characters of ASCII that no name of a host can have. -/
def isForbidden (c : Char) : Bool :=
  c ≤ ' ' || c = '\x7f' || "%#/:<>?@[\\]^|".toList.contains c

/-- What a character becomes in the plain form. -/
def plainForm? (c : Char) : Option (List Char) :=
  if c.toNat < 128 then if isForbidden c then none else some [c.toLower]
  else match HostStatus.ofChar c with
    | .valid => some [c]
    | .mapped => some [(asciiForm? c).getD c]
    | .ignored => some []
    | .disallowed => none

/-- The text between dots. -/
def splitDots : List Char → List (List Char)
  | [] => [[]]
  | c :: rest =>
    if c = '.' then [] :: splitDots rest
    else match splitDots rest with
      | label :: labels => (c :: label) :: labels
      | [] => [[c]]

/-- What a label stands for. A label must not claim to be encoded when it is not. -/
def shownLabel? (label : List Char) : Option (List Char) :=
  match label with
  | 'x' :: 'n' :: '-' :: '-' :: encoded =>
    (decodeLabel? encoded).filter fun decoded =>
      decoded.any (fun c => 128 ≤ c.toNat) && labelFits decoded
        && decoded.all fun c => c.toNat < 128 || HostStatus.ofChar c = .valid
  | label => if label.all (fun c => c.toNat < 128) || labelFits label then some label else none

/-- The plain form of a name. -/
def plainName? (s : List Char) : Option (List Char) := do
  let decoded ← percentDecode? s
  let name := (← decoded.mapM plainForm?).flatten
  let labels ← (splitDots name).mapM shownLabel?
  if directionsFit labels then some name else none

/-- Hosts of the well-known schemes: addresses and names. A name that ends in a number is an
address. -/
def isHost (s : List Char) : Bool :=
  match s with
  | '[' :: rest => isBracketedAddress rest
  | s =>
    match plainName? s with
    | none => false
    | some name => !name.isEmpty && (!endsInNumber (splitDots name) || isAddress4 (splitDots name))

/-- Hosts of other schemes: addresses, and any text without delimiters. -/
def isOpaqueHost (s : List Char) : Bool :=
  match s with
  | '[' :: rest => isBracketedAddress rest
  | s =>
    s.all fun c =>
      !(c = '\x00' || c = '\t' || c = '\n' || c = '\r' || " #/:<>?@[\\]^|".toList.contains c)

end ResourceApi.Uri
