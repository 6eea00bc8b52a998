import ResourceApi.Text.Category
import ResourceApi.Text.RangeTable

/-!
The direction of writing. A label of a name is written from left to right or from right to left, and
in a name that has a part written from right to left, each label must keep to one direction.
-/

namespace ResourceApi.Uri

/-- How a character is written. Figures of both kinds are written from left to right in either
direction, and marks and neutral characters follow those around them. -/
inductive Direction where
  | left
  | right
  | arabicFigure
  | europeanFigure
  | mark
  | neutral
  deriving DecidableEq, Repr, Inhabited

namespace Direction

/-- Letters of the scripts that are written from right to left. -/
def rightTable : Text.RangeTable := .ofText (String.join
  ["1470 1 1 1 2 1 2 1 9 37 19 1 2 1 1 1 13 48 34 3 1 101 15 2 7 2 10 23 1 30 29 89 11 58 9 ",
   "2 4 1 3 24 4 1 9 1 3 1 7 41 5 49 17 42 5957 1 56077 1 1 10 1 532 18 120 40 13 115 141 ",
   "2307 284 4 225 15 38 10 165 6 75 10 484 348 42 3 5 78 70 11 49 4 113 55305 208 48 68 7 ",
   "1393"])

/-- Figures that come with Arabic letters. -/
def arabicFigureTable : Text.RangeTable := .ofText 
  "1536 6 90 10 1 2 112 1 434 2 80 1 66637 335"

/-- Figures of all other kinds. -/
def europeanFigureTable : Text.RangeTable := .ofText (String.join
  ["48 10 120 2 5 1 1590 10 6518 1 3 6 6 10 1022 20 55924 10 967 27 54482 50 6400 11 2789 ",
   "10"])

/-- Punctuation, symbols and characters that do not show. -/
def neutralTable : Text.RangeTable := .ofText (String.join
  ["0 9 5 14 5 15 10 7 26 6 26 10 1 36 1 7 2 1 1 3 2 5 23 1 31 1 449 2 7 14 2 14 5 9 1 17 ",
   "116 2 8 1 5 2 1 1 110 1 403 6 118 2 1 2 1 1 1 2 90 1 115 1 10 1 268 4 504 2 7 1 245 1 ",
   "257 8 125 7 448 1 250 4 1106 10 102 1 666 2 318 1 20 27 3 1 305 6 152 34 1469 1 1 3 11 ",
   "3 13 3 13 3 13 2 12 3 2 24 7 48 1 5 5 6 10 5 11 5 17 33 63 2 1 4 1 2 10 1 1 3 5 6 1 1 1 ",
   "1 1 1 4 1 11 2 4 5 5 4 2 16 41 429 69 26 1 242 98 450 1 339 256 768 229 6 14 7 256 508 ",
   "5 4 3 25 15 1 5 2 5 3 91 2 3 1 90 1 196 36 57 2 49 16 28 3 50 15 12 4 167 4 99 2 31 1 ",
   "6592 64 22160 55 326 3 99 1 10 2 128 34 102 1 159 4 12 2 58 4 754 2 20413 1 532 18 127 ",
   "1 45 3 16 10 22 60 147 17 10 7 26 6 26 11 122 30 259 1 62 77 3 17 1918 1 537 7 1298 20 ",
   "1530 13 2408 29 20464 1 19645 4 5327 8 110 89 3 1 186 87 900 1 57 1 57 1 57 1 57 1 2875 ",
   "1 3056 518 21 5 31 1 58 6 61 1 178 2411 787510 127"])

/-- Marks that are written like letters. -/
def letterMarks : List Nat := [0xcbf, 0xcc6, 0x11a07, 0x11a08, 0x11c3f]

def ofChar (c : Char) : Direction :=
  let n := c.toNat
  if rightTable.contains n then .right
  else if arabicFigureTable.contains n then .arabicFigure
  else if europeanFigureTable.contains n then .europeanFigure
  else if neutralTable.contains n then .neutral
  else match Text.Category.ofChar c with
    | .nonspacingMark | .enclosingMark => if letterMarks.contains n then .left else .mark
    | _ => .left

/-- Whether a character of this direction is written only in names that run from right to left. -/
def isFromRight : Direction → Bool
  | .right | .arabicFigure => true
  | _ => false

/-- Whether a label that starts on the left may hold the direction. -/
def fitsLeft : Direction → Bool
  | .right | .arabicFigure => false
  | _ => true

/-- Whether a label that starts on the left may end in the direction. -/
def endsLeft : Direction → Bool
  | .left | .europeanFigure => true
  | _ => false

/-- Whether a label that starts on the right may end in the direction. -/
def endsRight : Direction → Bool
  | .right | .arabicFigure | .europeanFigure => true
  | _ => false

/-- Whether a label keeps to one direction: it starts with a letter, ends in a letter or a figure,
which may carry marks, and does not mix figures of two kinds if it starts on the right. -/
def isUniform (label : List Direction) : Bool :=
  let ending (fits : Direction → Bool) : Bool :=
    match (label.reverse.dropWhile (· = .mark)).head? with
    | some d => fits d
    | none => false
  match label.head? with
  | none => true
  | some .left => label.all fitsLeft && ending endsLeft
  | some .right =>
    label.all (· ≠ .left) && ending endsRight
      && !(label.contains .arabicFigure && label.contains .europeanFigure)
  | some _ => false

end Direction

/-- Whether the labels of a name keep to one direction each, if any of them is written from right to
left. -/
def directionsFit (labels : List (List Char)) : Bool :=
  let directions := labels.map fun label => label.map Direction.ofChar
  !(directions.any fun label => label.any Direction.isFromRight)
    || directions.all Direction.isUniform

end ResourceApi.Uri
