import ResourceApi.Json.Skip
import ResourceApi.Json.Spans

/-!
The grammar of JSON texts, apart from the readers. `Written depth text v` says that a text without
blanks around it is a value nested at most `depth` deep. In `v` every member of an object stands,
repeated keys included, so a reader that keeps only some of them gives an image of `v`.
-/

namespace ResourceApi.Json

open Reader (isBlank isDigit hexValue? simpleEscape?)

/-- Only blanks. -/
def Blank (s : List Char) : Prop := ∀ c ∈ s, isBlank c = true

theorem blank_nil : Blank [] := by simp [Blank]

/-- A text that does not go on with a character of numbers, so that a number may end before it. -/
def Stops (s : List Char) : Prop := ∀ c, s.head? = some c → Spans.isNumberCharacter c = false

/-! ### Numbers -/

/-- Only decimal digits. -/
def Digits (s : List Char) : Prop := ∀ c ∈ s, isDigit c = true

/-- The integer part of a number: a zero alone, or digits that do not start with one. -/
inductive IntegerPart : List Char → Prop where
  | zero : IntegerPart ['0']
  | digits {c : Char} {s : List Char} (hc : isDigit c = true) (hzero : c ≠ '0') (hs : Digits s) :
      IntegerPart (c :: s)

/-- A point and digits, or nothing. -/
inductive FractionPart : List Char → Prop where
  | absent : FractionPart []
  | digits {s : List Char} (hs : Digits s) (hne : s ≠ []) : FractionPart ('.' :: s)

/-- The sign of an exponent. -/
def ExponentSign (s : List Char) : Prop := s = [] ∨ s = ['+'] ∨ s = ['-']

/-- A mark, a sign and digits, or nothing. -/
inductive ExponentPart : List Char → Prop where
  | absent : ExponentPart []
  | digits {mark : Char} {sign s : List Char} (hmark : mark = 'e' ∨ mark = 'E')
      (hsign : ExponentSign sign) (hs : Digits s) (hne : s ≠ []) :
      ExponentPart (mark :: (sign ++ s))

/-- What stands behind the integer part of a number. -/
def Fractional (text : List Char) : Prop :=
  ∃ f e, text = f ++ e ∧ FractionPart f ∧ ExponentPart e

/-- The text of a number behind its sign. -/
def Unsigned (text : List Char) : Prop :=
  ∃ i f, text = i ++ f ∧ IntegerPart i ∧ Fractional f

/-- A reader consumes a text and no more, whatever follows, unless a number could go on there. -/
def Takes {α : Type} (reader : Reader α) (text : List Char) (a : α) : Prop :=
  ∀ rest, Stops rest → reader (text ++ rest) = .ok (a, rest)

/-- The text of a number and its value. -/
inductive Numeral : List Char → Number → Prop where
  | plain {text : List Char} {n : Number} (shape : Unsigned text)
      (takes : Takes (Reader.number false) text n) : Numeral text n
  | minus {text : List Char} {n : Number} (shape : Unsigned text)
      (takes : Takes (Reader.number true) text n) : Numeral ('-' :: text) n

/-! ### Strings -/

/-- Four hexadecimal digits and their value. -/
inductive HexUnit : List Char → Nat → Prop where
  | digits {a b c d : Char} {i j k l : Nat} (ha : hexValue? a = some i) (hb : hexValue? b = some j)
      (hc : hexValue? c = some k) (hd : hexValue? d = some l) :
      HexUnit [a, b, c, d] (((i * 16 + j) * 16 + k) * 16 + l)

/-- What stands behind a backslash, and the character it is. -/
inductive Escape : List Char → Char → Prop where
  | letter {l c : Char} (h : simpleEscape? l = some c) : Escape [l] c
  | unit {s : List Char} {n : Nat} (h : HexUnit s n) (hn : n < 0xD800 ∨ 0xDFFF < n) :
      Escape ('u' :: s) (Char.ofNat n)
  | pair {s t : List Char} {high low : Nat} (hs : HexUnit s high) (ht : HexUnit t low)
      (hhigh : 0xD800 ≤ high ∧ high ≤ 0xDBFF) (hlow : 0xDC00 ≤ low ∧ low ≤ 0xDFFF) :
      Escape ('u' :: (s ++ '\\' :: 'u' :: t))
        (Char.ofNat (0x10000 + (high - 0xD800) * 0x400 + (low - 0xDC00)))

/-- The rest of a string up to and with its closing quote, and the characters it stands for. -/
inductive StringRest : List Char → List Char → Prop where
  | close : StringRest ['"'] []
  | plain {c : Char} {text chars : List Char} (hquote : c ≠ '"') (hslash : c ≠ '\\')
      (hcontrol : 32 ≤ c.toNat) (h : StringRest text chars) : StringRest (c :: text) (c :: chars)
  | escape {e text chars : List Char} {c : Char} (he : Escape e c) (h : StringRest text chars) :
      StringRest ('\\' :: (e ++ text)) (c :: chars)

/-- A string with its quotes. -/
inductive Quoted : List Char → String → Prop where
  | mk {text chars : List Char} (h : StringRest text chars) :
      Quoted ('"' :: text) (String.ofList chars)

/-! ### Values -/

/-- An item of an array with the blanks around it. -/
structure Item where
  before : List Char
  text : List Char
  after : List Char
  value : Json

/-- A member of an object with the blanks around its parts. -/
structure Member where
  before : List Char
  quoted : List Char
  key : String
  beforeColon : List Char
  beforeValue : List Char
  text : List Char
  after : List Char
  value : Json

namespace Item

def chars (i : Item) : List Char := i.before ++ (i.text ++ i.after)

/-- Around the text of the item there are only blanks. -/
structure Spaced (i : Item) : Prop where
  before : Blank i.before
  after : Blank i.after

end Item

namespace Member

/-- What stands from the colon on. -/
def fromColon (m : Member) : List Char := ':' :: (m.beforeValue ++ (m.text ++ m.after))

def chars (m : Member) : List Char := m.before ++ (m.quoted ++ (m.beforeColon ++ m.fromColon))

def entry (m : Member) : String × Json := (m.key, m.value)

/-- The key is a string, and around it and the text of the value there are only blanks. -/
structure Spaced (m : Member) : Prop where
  before : Blank m.before
  quoted : Quoted m.quoted m.key
  beforeColon : Blank m.beforeColon
  beforeValue : Blank m.beforeValue
  after : Blank m.after

end Member

/-- Further parts, each behind a comma, up to and with the closing bracket. -/
def followed (close : Char) : List (List Char) → List Char
  | [] => [close]
  | part :: parts => ',' :: (part ++ followed close parts)

/-- All parts between brackets, up to and with the closing one; blanks if there are none. -/
def listed (close : Char) (blank : List Char) : List (List Char) → List Char
  | [] => blank ++ [close]
  | part :: parts => part ++ followed close parts

/-- The text of a value that is nested at most so deep, and the value with all its members. -/
inductive Written : Nat → List Char → Json → Prop where
  | nullWord {depth : Nat} : Written depth ['n', 'u', 'l', 'l'] .null
  | trueWord {depth : Nat} : Written depth ['t', 'r', 'u', 'e'] (.bool true)
  | falseWord {depth : Nat} : Written depth ['f', 'a', 'l', 's', 'e'] (.bool false)
  | number {depth : Nat} {text : List Char} {n : Number} (h : Numeral text n) :
      Written depth text (.number n)
  | string {depth : Nat} {text : List Char} {s : String} (h : Quoted text s) :
      Written depth text (.string s)
  | array {depth : Nat} {blank : List Char} {items : List Item} (hblank : Blank blank)
      (hspaced : ∀ i ∈ items, i.Spaced) (h : ∀ i ∈ items, Written depth i.text i.value) :
      Written (depth + 1) ('[' :: listed ']' blank (items.map Item.chars))
        (.array (items.map Item.value))
  | object {depth : Nat} {blank : List Char} {members : List Member} (hblank : Blank blank)
      (hspaced : ∀ m ∈ members, m.Spaced) (h : ∀ m ∈ members, Written depth m.text m.value) :
      Written (depth + 1) ('{' :: listed '}' blank (members.map Member.chars))
        (.object (members.map Member.entry))

end ResourceApi.Json
