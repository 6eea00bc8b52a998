/-!
Lines of a text. Offsets count characters; lines are counted from one and columns from zero. A line
ends before its line feed, and before the carriage return that stands directly in front of that.
-/

namespace ResourceApi

/-- Where a line starts and where its visible part ends. -/
structure Line where
  start : Nat
  stop : Nat
  deriving DecidableEq, Repr, Inhabited

/-- The lines of a text: the first one, the others in order, and the number of characters. -/
structure Lines where
  first : Line
  others : List Line
  length : Nat
  deriving DecidableEq, Repr, Inhabited

/-- A place as line and column. -/
structure LineColumn where
  line : Nat
  column : Nat
  deriving DecidableEq, Repr, Inhabited

namespace Lines

/-- Reads on at offset `i` in a line that began at `start`. `cr` says whether a carriage return
stands just before. The result is the line at hand and the lines after it. -/
def scan (start i : Nat) (cr : Bool) : List Char → Line × List Line
  | [] => (⟨start, i⟩, [])
  | c :: rest =>
    if c = '\n' then
      let (line, lines) := scan (i + 1) (i + 1) false rest
      (⟨start, if cr then i - 1 else i⟩, line :: lines)
    else scan start (i + 1) (c = '\r') rest

def ofText (text : String) : Lines :=
  let chars := text.toList
  let (first, others) := scan 0 0 false chars
  ⟨first, others, chars.length⟩

def toList (t : Lines) : List Line := t.first :: t.others

/-- The number of lines, at least one. -/
def count (t : Lines) : Nat := t.others.length + 1

/-- The line that holds an offset, counted from `n`: the last one that starts at or before it. -/
def lineAt (offset : Nat) : Nat → Line → List Line → Nat × Line
  | n, line, [] => (n, line)
  | n, line, next :: rest =>
    if next.start ≤ offset then lineAt offset (n + 1) next rest else (n, line)

/-- Line and column of an offset; one past the end is taken for the end. -/
def lineColumn (t : Lines) (offset : Nat) : LineColumn :=
  let offset := min offset t.length
  let (n, line) := lineAt offset 1 t.first t.others
  ⟨n, offset - line.start⟩

/-- The line with a number; one out of range is taken for the nearest in range. -/
def line (t : Lines) (n : Nat) : Line :=
  match n with
  | 0 | 1 => t.first
  | n + 2 => (t.others[n]?).getD (t.others.getLast?.getD t.first)

def lineStart (t : Lines) (n : Nat) : Nat := (t.line n).start

def lineEnd (t : Lines) (n : Nat) : Nat := (t.line n).stop

/-- The offset of a line and column, at most the end of the text. -/
def offset (t : Lines) (n column : Nat) : Nat := min (t.lineStart n + column) t.length

end Lines

end ResourceApi
