import ResourceApi.Yaml.Basic

/-!
The text of scalars: unquoted, between quotes, or as a block of lines. Line ends inside unquoted
and quoted text are folded: one stands for a blank, and of several all but the first stay.
-/

namespace ResourceApi.Yaml

/-! ### Gaps between words -/

/-- The blanks and line ends between two words: blanks before any line end, the first line end and
those behind it. -/
structure Gap where
  blanks : List Char
  broken : Bool
  first : List Char
  more : List Char
  deriving Repr, Inhabited

namespace Gap

def none : Gap := ⟨[], false, [], []⟩

/-- What a gap stands for. -/
def text (g : Gap) : List Char :=
  if g.broken then
    if g.first.head? = some '\n' then if g.more.isEmpty then [' '] else g.more
    else g.first ++ g.more
  else g.blanks

/-- Reads blanks and line ends. Tabs may not stand before a column at the start of a line. -/
def scan (limit : Nat) : Nat → Gap → Cursor → Option (Gap × Cursor)
  | 0, g, c => some (g, c)
  | fuel + 1, g, c =>
    match c.peek with
    | Option.none => some (g, c)
    | some x =>
      if isBlank x then
        if g.broken && c.column < limit && x = '\t' then Option.none
        else
          scan limit fuel (if g.broken then g else { g with blanks := g.blanks ++ [x] }) (c.skip 1)
      else if isBreak x then
        let (line, c) := c.readLine
        scan limit fuel
          (if g.broken then { g with more := g.more ++ line } else ⟨[], true, line, []⟩) c
      else some (g, c)

end Gap

/-! ### Unquoted text -/

def isFlowIndicator (c : Char) : Bool :=
  c = ',' || c = '[' || c = ']' || c = '{' || c = '}'

/-- One word of unquoted text, put before the characters so far in reverse order. -/
def plainWord (flow : Bool) : Nat → List Char → Cursor → Option (List Char × Cursor)
  | 0, done, c => some (done, c)
  | fuel + 1, done, c =>
    match c.peek with
    | none => some (done, c)
    | some x =>
      let next := c.peekAt 1
      if isBlank x || isBreak x then some (done, c)
      else if flow && x = ':' && (next.map fun y => isFlowIndicator y || y = '?').getD false then
        none
      else if x = ':' && endsWord next then some (done, c)
      else if flow && isFlowIndicator x then some (done, c)
      else plainWord flow fuel (x :: done) (c.skip 1)

/-- Unquoted text whose further lines are indented to a column at least. Also whether it ends
behind a line end. The text so far is in reverse order. -/
def plainText (flow : Bool) (limit : Nat) :
    Nat → List Char → Gap → Cursor → Option (List Char × Bool × Cursor)
  | 0, done, gap, c => some (done, gap.broken, c)
  | fuel + 1, done, gap, c =>
    if c.isAtBound || c.peek = some '#' then some (done, gap.broken, c)
    else
      match plainWord flow c.rest.length [] c with
      | none => none
      | some (word, c) =>
        let (done, gap) : List Char × Gap :=
          if word.isEmpty then (done, gap) else (word ++ gap.text.reverse ++ done, .none)
        if c.isAt fun x => isBlank x || isBreak x then
          match Gap.scan limit c.rest.length gap c with
          | none => none
          | some (gap, c) =>
            if !flow && c.column < limit then some (done, gap.broken, c)
            else plainText flow limit fuel done gap c
        else some (done, gap.broken, c)

/-! ### Quoted text -/

def hexValue? (c : Char) : Option Nat :=
  if '0' ≤ c ∧ c ≤ '9' then some (c.toNat - '0'.toNat)
  else if 'a' ≤ c ∧ c ≤ 'f' then some (c.toNat - 'a'.toNat + 10)
  else if 'A' ≤ c ∧ c ≤ 'F' then some (c.toNat - 'A'.toNat + 10)
  else none

/-- A character by so many hexadecimal digits. -/
def hexCharacter (width : Nat) (c : Cursor) : Option (Char × Cursor) := do
  let digits := c.rest.take width
  if digits.length < width then none
  let n := (← digits.mapM hexValue?).foldl (fun n d => 16 * n + d) 0
  if n.isValidChar then some (Char.ofNat n, c.skip width) else none

/-- The characters that a backslash and one letter stand for. -/
def letterEscape? (c : Char) : Option Char :=
  [('0', '\x00'), ('a', '\x07'), ('b', '\x08'), ('t', '\t'), ('\t', '\t'), ('n', '\n'),
    ('v', '\x0b'), ('f', '\x0c'), ('r', '\r'), ('e', '\x1b'), (' ', ' '), ('"', '"'), ('/', '/'),
    ('\\', '\\'), ('N', '\x85'), ('_', '\xa0'), ('L', '\u2028'), ('P', '\u2029')].lookup c

/-- What stands behind a backslash. -/
def escape (c : Cursor) : Option (Char × Cursor) :=
  match c.peek with
  | none => none
  | some 'x' => hexCharacter 2 (c.skip 1)
  | some 'u' => hexCharacter 4 (c.skip 1)
  | some 'U' => hexCharacter 8 (c.skip 1)
  | some x => (letterEscape? x).map fun y => (y, c.skip 1)

/-- One word of quoted text, put before the characters so far in reverse order; also whether it
ends by an escaped line end. -/
def quotedWord (quote : Char) : Nat → List Char → Cursor → Option (List Char × Bool × Cursor)
  | 0, done, c => some (done, false, c)
  | fuel + 1, done, c =>
    match c.peek with
    | none => some (done, false, c)
    | some x =>
      if isBlank x || isBreak x then some (done, false, c)
      else if x = quote then
        if quote = '\'' ∧ c.peekAt 1 = some '\'' then quotedWord quote fuel (x :: done) (c.skip 2)
        else some (done, false, c)
      else if quote = '"' ∧ x = '\\' then
        if (c.skip 1).isAt isBreak then some (done, true, (c.skip 1).skipLine)
        else match escape (c.skip 1) with
          | some (y, c) => quotedWord quote fuel (y :: done) c
          | none => none
      else quotedWord quote fuel (x :: done) (c.skip 1)

/-- Quoted text behind its opening quote, in reverse order. -/
def quotedText (quote : Char) : Nat → List Char → Cursor → Option (List Char × Cursor)
  | 0, _, _ => none
  | fuel + 1, done, c =>
    if c.isAtBound then none
    else
      match quotedWord quote c.rest.length done c with
      | none => none
      | some (done, broken, c) =>
        match c.peek with
        | none => none
        | some x =>
          if x = quote then some (done, c.skip 1)
          else
            match Gap.scan 0 c.rest.length { Gap.none with broken } c with
            | none => none
            | some (gap, c) => quotedText quote fuel (gap.text.reverse ++ done) c

/-! ### Blocks of lines -/

/-- What becomes of the line ends at the end of a block. -/
inductive Chomp where
  | strip
  | clip
  | keep
  deriving DecidableEq, Repr

/-- The marks behind the bar: how line ends are treated, and the indentation if it is given. -/
def blockMarks (c : Cursor) : Option (Chomp × Option Nat × Cursor) :=
  let chomp (c : Cursor) : Option (Chomp × Cursor) :=
    match c.peek with
    | some '+' => some (.keep, c.skip 1)
    | some '-' => some (.strip, c.skip 1)
    | _ => none
  let digit (c : Cursor) : Option (Nat × Cursor) :=
    match c.peek with
    | some x => if x.isDigit then some (x.toNat - '0'.toNat, c.skip 1) else none
    | none => none
  let result : Chomp × Option Nat × Cursor :=
    match chomp c with
    | some (k, c) =>
      match digit c with
      | some (n, c) => (k, some n, c)
      | none => (k, none, c)
    | none =>
      match digit c with
      | some (n, c) =>
        match chomp c with
        | some (k, c) => (k, some n, c)
        | none => (.clip, some n, c)
      | none => (.clip, none, c)
  if result.2.1 = some 0 then none else some result

/-- Empty lines in front of the next line of a block: their ends, the indentation found and the
place behind it. Without an indentation (zero) blanks are passed over however many there are. -/
def blockGap (indent : Nat) : Nat → Nat → List Char → Cursor → Option (Nat × List Char × Cursor)
  | 0, widest, breaks, c => some (widest, breaks, c)
  | fuel + 1, widest, breaks, c =>
    let blanks := (c.rest.takeWhile (· = ' ')).length
    let c := c.skip (if indent = 0 then blanks else min blanks (indent - c.column))
    let widest := max widest c.column
    if (indent = 0 || c.column < indent) && c.peek = some '\t' then none
    else if c.isAt isBreak then
      let (line, c) := c.readLine
      blockGap indent fuel widest (breaks ++ line) c
    else some (widest, breaks, c)

/-- A block on the way: its text in reverse order, the line end of its last line, whether that line
began with a blank, and the empty lines behind it. -/
structure BlockState where
  done : List Char
  lineEnd : List Char
  blankBefore : Bool
  breaks : List Char

/-- The lines of a block at an indentation. Folded lines are joined by a blank unless one of them
begins with a blank. -/
def blockLines (folded : Bool) (indent : Nat) :
    Nat → BlockState → Cursor → Option (BlockState × Cursor)
  | 0, s, c => some (s, c)
  | fuel + 1, s, c =>
    if c.column = indent && !c.rest.isEmpty then
      let blank := c.isAt isBlank
      let joined := folded && s.lineEnd.head? = some '\n' && !s.blankBefore && !blank
      let done :=
        if joined then (if s.breaks.isEmpty then ' ' :: s.done else s.done)
        else s.lineEnd.reverse ++ s.done
      let line := c.rest.takeWhile fun x => !isBreak x
      let done := line.reverse ++ (s.breaks.reverse ++ done)
      let (lineEnd, c) := (c.skip line.length).readLine
      match blockGap indent c.rest.length 0 [] c with
      | none => none
      | some (_, breaks, c) => blockLines folded indent fuel ⟨done, lineEnd, blank, breaks⟩ c
    else some (s, c)

/-- The text of a block behind its bar, inside a block at the column `parent`. -/
def blockText (folded : Bool) (parent : Int) (c : Cursor) : Option (List Char × Cursor) :=
  match blockMarks c with
  | none => none
  | some (chomp, given, c) =>
    match c.finishLine? with
    | none => none
    | some c =>
      let fixed := (given.map fun n => (max parent 0).toNat + n).getD 0
      match blockGap fixed c.rest.length 0 [] c with
      | none => none
      | some (widest, breaks, c) =>
        let indent := if fixed = 0 then max 1 (max widest (parent + 1).toNat) else fixed
        match blockLines folded indent (c.rest.length + 1) ⟨[], [], false, breaks⟩ c with
        | none => none
        | some (s, c) =>
          let text := s.done.reverse
          match chomp with
          | .strip => some (text, c)
          | .clip => some (text ++ s.lineEnd, c)
          | .keep => some (text ++ s.lineEnd ++ s.breaks, c)

end ResourceApi.Yaml
