import ResourceApi.Text.LetterCase
import ResourceApi.Text.Property
import ResourceApi.Text.Script

/-!
Sets of characters as patterns write them: single characters and ranges, named classes, and unions,
intersections, differences and complements of sets. A set without regard to case holds a character
if it holds one that differs from it in case only, where case may be that of ASCII letters alone.
-/

namespace ResourceApi.Text

/-- Decimal digits of any script. -/
def isDecimalDigit (c : Char) : Bool :=
  if c.toNat < 128 then c.isDigit else Category.ofChar c = .decimalNumber

/-- Characters of words: letters, marks, digits, connectors and joiners. -/
def isWordCharacter (c : Char) : Bool :=
  if c.toNat < 128 then c.isAlphanum || c = '_'
  else isAlphabetic c || c = '\u200c' || c = '\u200d' ||
    match Category.ofChar c with
    | .nonspacingMark | .spacingMark | .enclosingMark | .decimalNumber
    | .connectorPunctuation => true
    | _ => false

/-- All characters that differ from a character in case only, itself included. -/
def caseVariants (c : Char) : List Char :=
  let folded := foldCase c
  let others := (foldRuns.toList.filterMap fun run =>
    let distance := folded.toNat - run.image
    if folded.toNat < run.image ∨ run.step = 0 ∨ distance % run.step ≠ 0
        ∨ run.count ≤ distance / run.step then none
    else some (Char.ofNat (run.first + distance)))
  c :: folded :: others

end ResourceApi.Text

namespace ResourceApi.Pattern

/-- Classes of characters with a name. -/
inductive Named where
  | digit
  | space
  | word
  | asciiDigit
  | asciiSpace
  | asciiWord
  | alphabetic
  | lowercase
  | uppercase
  | ascii
  | category (c : Text.Category)
  deriving DecidableEq, Repr, Inhabited

def isAsciiSpace (c : Char) : Bool :=
  c = ' ' || c = '\t' || c = '\n' || c = '\r' || c = '\x0b' || c = '\x0c'

def Named.contains (n : Named) (c : Char) : Bool :=
  match n with
  | .digit => Text.isDecimalDigit c
  | .space => Text.isWhiteSpace c
  | .word => Text.isWordCharacter c
  | .asciiDigit => c.isDigit
  | .asciiSpace => isAsciiSpace c
  | .asciiWord => c.isAlphanum || c = '_'
  | .alphabetic => Text.isAlphabetic c
  | .lowercase => Text.isLowercase c
  | .uppercase => Text.isUppercase c
  | .ascii => c.toNat < 128
  | .category k => Text.Category.ofChar c = k

/-- A set of characters. -/
inductive CharSet where
  | none
  | all
  | single (c : Char)
  | range (low high : Char)
  | named (n : Named)
  | runs (list : List (Nat × Nat))
  | anyCase (s : CharSet)
  | asciiCase (s : CharSet)
  | complement (s : CharSet)
  | union (s t : CharSet)
  | inter (s t : CharSet)
  | difference (s t : CharSet)
  | symmetricDifference (s t : CharSet)
  deriving DecidableEq, Repr, Inhabited

namespace CharSet

def contains : CharSet → Char → Bool
  | .none, _ => false
  | .all, _ => true
  | .single a, c => c = a
  | .range low high, c => low ≤ c && c ≤ high
  | .named n, c => n.contains c
  | .runs list, c => list.any fun run => run.1 ≤ c.toNat && c.toNat ≤ run.2
  | .anyCase s, c => (Text.caseVariants c).any s.contains
  | .asciiCase s, c => s.contains c || s.contains c.toLower || s.contains c.toUpper
  | .complement s, c => !s.contains c
  | .union s t, c => s.contains c || t.contains c
  | .inter s t, c => s.contains c && t.contains c
  | .difference s t, c => s.contains c && !t.contains c
  | .symmetricDifference s t, c => s.contains c != t.contains c

def ofTable (table : Text.RangeTable) : CharSet := .runs table.runs.toList

def unionAll (sets : List CharSet) : CharSet := sets.foldr .union .none

end CharSet

end ResourceApi.Pattern
