import ResourceApi.Yaml.Scalar

/-!
Tokens of YAML text. Indentation becomes tokens that start and end blocks. A key is only known for
one when its colon is reached, so the tokens that mark it are noted beside the token where the key
began and are put in front of it at the end; tokens themselves are only ever added behind others.
-/

namespace ResourceApi.Yaml

inductive Token where
  | version (major minor : Nat)
  | tagPrefix (handle prefixText : String)
  | documentStart
  | documentEnd
  | sequenceStart
  | mappingStart
  | blockEnd
  | openBracket
  | closeBracket
  | openBrace
  | closeBrace
  | entry
  | comma
  | key
  | value
  | reference (name : String)
  | anchor (name : String)
  | tag (handle suffix : String)
  | scalar (style : Style) (text : String)
  deriving DecidableEq, Repr, Inhabited

namespace Token

/-- A token that may turn out to begin a key: how many tokens were before it and where it stands. A
key that begins a line of its block must turn out to be one. -/
structure KeyStart where
  required : Bool
  number : Nat
  line : Nat
  index : Nat
  column : Nat
  deriving Repr, Inhabited

/-- The tokens so far in reverse order, with the marks to be put in front of some of them, and the
state of the scanner: the columns of the open blocks, the possible keys of the open brackets and of
the block around them, and whether a key may begin here. -/
structure Scan where
  cursor : Cursor
  tokens : List Token
  count : Nat
  marks : List (Nat × List Token)
  column : Int
  outer : List Int
  key : Option KeyStart
  outerKeys : List (Option KeyStart)
  keyAllowed : Bool
  deriving Repr, Inhabited

namespace Scan

def start (text : List Char) : Scan :=
  ⟨.ofChars text, [], 0, [], -1, [], none, [], true⟩

/-- Whether brackets or braces are open. -/
def inFlow (s : Scan) : Bool := !s.outerKeys.isEmpty

def add (s : Scan) (t : Token) : Scan := { s with tokens := t :: s.tokens, count := s.count + 1 }

/-- Adds a token and passes over its characters. -/
def addSkipping (s : Scan) (t : Token) (n : Nat) : Scan :=
  { s.add t with cursor := s.cursor.skip n }

/-! ### Blocks -/

/-- Opens a block at a column that is further in than the block around it. -/
def openBlock (s : Scan) (column : Nat) (t : Token) : Scan :=
  if !s.inFlow && s.column < column then
    { s.add t with column, outer := s.column :: s.outer }
  else s

/-- Closes the blocks that are further in than a column. -/
def closeBlocks (s : Scan) (column : Int) : Scan :=
  if s.inFlow then s
  else
    let closed := (s.column :: s.outer).takeWhile fun c => column < c
    closed.foldl (fun s _ =>
      match s.outer with
      | c :: outer => { s.add .blockEnd with column := c, outer }
      | [] => s) s

/-! ### Keys -/

/-- A possible key must end on its line and within 1024 characters. -/
def isStale (c : Cursor) (k : KeyStart) : Bool := k.line < c.line || k.index + 1024 < c.index

/-- Forgets possible keys that have become too long. -/
def dropStaleKeys (s : Scan) : Option Scan :=
  let check (k : Option KeyStart) : Option (Option KeyStart) :=
    match k with
    | none => some none
    | some k => if isStale s.cursor k then if k.required then none else some none else some (some k)
  match check s.key, s.outerKeys.mapM check with
  | some key, some outerKeys => some { s with key, outerKeys }
  | _, _ => none

/-- Forgets the possible key of the innermost brackets or block. -/
def dropKey (s : Scan) : Option Scan :=
  match s.key with
  | some k => if k.required then none else some { s with key := none }
  | none => some s

/-- Notes that a key may begin with the next token. -/
def noteKey (s : Scan) : Option Scan :=
  if s.keyAllowed then
    s.dropKey.map fun s =>
      let c := s.cursor
      let required : Bool := !s.inFlow && s.column = c.column
      { s with key := some ⟨required, s.count, c.line, c.index, c.column⟩ }
  else some s

/-! ### Directives, tags and names -/

/-- A decimal number of at most nine digits. -/
def versionNumber (c : Cursor) : Option (Nat × Cursor) :=
  let digits := c.rest.takeWhile Char.isDigit
  if digits.isEmpty || 9 < digits.length then none
  else
    some (digits.foldl (fun n d => 10 * n + (d.toNat - '0'.toNat)) 0, c.skip digits.length)

/-- The handle of a tag: exclamation marks around a name, or one alone. -/
def tagHandle (directive : Bool) (c : Cursor) : Option (List Char × Cursor) :=
  if c.peek ≠ some '!' then none
  else
    let name := (c.rest.drop 1).takeWhile isNameCharacter
    let behind := c.skip (1 + name.length)
    if behind.peek = some '!' then some ('!' :: name ++ ['!'], behind.skip 1)
    else if directive && !name.isEmpty then none
    else some ('!' :: name, behind)

/-- The bytes behind the percent signs of escapes. -/
def escapedByte (c : Cursor) : Option (Nat × Cursor) :=
  match c.rest with
  | '%' :: a :: b :: _ => do
    let a ← hexValue? a
    let b ← hexValue? b
    return (16 * a + b, c.skip 3)
  | _ => none

/-- Bytes that go on a character, put behind its first bits. -/
def moreBytes : Nat → Nat → Cursor → Option (Nat × Cursor)
  | 0, n, c => some (n, c)
  | fuel + 1, n, c => do
    let (b, c) ← escapedByte c
    if b / 64 = 2 then moreBytes fuel (64 * n + b % 64) c else none

/-- A character by the escapes of its bytes. -/
def escapedCharacter (c : Cursor) : Option (Char × Cursor) := do
  let (b, c) ← escapedByte c
  let (n, c) ←
    if b < 128 then some (b, c)
    else if b / 32 = 6 then moreBytes 1 (b % 32) c
    else if b / 16 = 14 then moreBytes 2 (b % 16) c
    else if b / 8 = 30 then moreBytes 3 (b % 8) c
    else none
  return (Char.ofNat n, c)

def isUriCharacter (wide : Bool) (c : Char) : Bool :=
  isNameCharacter c || ";/?:@&=+$.!~*()%".toList.contains c || c = '\''
    || (wide && (c = ',' || c = '[' || c = ']'))

/-- The characters of a tag behind its handle, put before those in reverse order. -/
def tagUri (wide : Bool) : Nat → List Char → Cursor → Option (List Char × Cursor)
  | 0, done, c => some (done.reverse, c)
  | fuel + 1, done, c =>
    match c.peek with
    | none => some (done.reverse, c)
    | some x =>
      if !isUriCharacter wide x then some (done.reverse, c)
      else if x = '%' then
        match escapedCharacter c with
        | some (y, c) => tagUri wide fuel (y :: done) c
        | none => none
      else tagUri wide fuel (x :: done) (c.skip 1)

/-- Characters of a tag, at least one. -/
def tagUri? (wide : Bool) (c : Cursor) : Option (List Char × Cursor) :=
  match tagUri wide c.rest.length [] c with
  | some (uri, c) => if uri.isEmpty then none else some (uri, c)
  | none => none

/-- A directive: the version, or a short form for tags. -/
def directive (c : Cursor) : Option (Token × Cursor) := do
  let name := (c.rest.drop 1).takeWhile isNameCharacter
  let c := c.skip (1 + name.length)
  if !endsWord c.peek then none
  let c := c.skipWhile isBlank
  if name = "YAML".toList then
    let (major, c) ← versionNumber c
    if c.peek ≠ some '.' then none
    let (minor, c) ← versionNumber (c.skip 1)
    return (.version major minor, ← c.finishLine?)
  else if name = "TAG".toList then
    let (handle, c) ← tagHandle true c
    if !c.isAt isBlank then none
    let (uri, c) ← tagUri? true (c.skipWhile isBlank)
    if !endsWord c.peek then none
    return (.tagPrefix (String.ofList handle) (String.ofList uri), ← c.finishLine?)
  else none

/-- The name of an anchor behind its mark. -/
def anchorName (c : Cursor) : Option (String × Cursor) :=
  let name := (c.rest.drop 1).takeWhile isNameCharacter
  let c := c.skip (1 + name.length)
  let ends := endsWord c.peek || c.isAt fun x => ['?', ':', ',', ']', '}', '%', '@', '`'].contains x
  if name.isEmpty || !ends then none else some (String.ofList name, c)

/-- A tag: in angle brackets, or a handle and what follows it. -/
def tagToken (inFlow : Bool) (c : Cursor) : Option (Token × Cursor) := do
  let (t, c) ←
    if c.peekAt 1 = some '<' then do
      let (uri, c) ← tagUri? true (c.skip 2)
      if c.peek ≠ some '>' then none
      some (Token.tag "" (String.ofList uri), c.skip 1)
    else do
      let (handle, c) ← tagHandle false c
      if 1 < handle.length ∧ handle.getLast? = some '!' then
        let (uri, c) ← tagUri? false c
        some (Token.tag (String.ofList handle) (String.ofList uri), c)
      else
        let (uri, c) ← tagUri false c.rest.length handle.tail.reverse c
        if uri.isEmpty then some (Token.tag "" "!", c)
        else some (Token.tag "!" (String.ofList uri), c)
  if endsWord c.peek || (inFlow && c.peek = some ',') then some (t, c) else none

/-! ### Steps -/

/-- Passes over blanks, comments and line ends; a byte order mark may stand at the very start. A key
may begin on a new line. -/
def toNextToken : Nat → Scan → Scan
  | 0, s => s
  | fuel + 1, s =>
    let c := s.cursor
    let c := if c.index = 0 && c.peek = some '\ufeff' then c.skip 1 else c
    let tabs := s.inFlow || !s.keyAllowed
    let c := (c.skipWhile fun x => x = ' ' || (tabs && x = '\t')).skipComment
    if c.isAt isBreak then
      toNextToken fuel { s with cursor := c.skipLine, keyAllowed := s.keyAllowed || !s.inFlow }
    else { s with cursor := c }

/-- A directive or the bound of a document, which close all blocks. -/
def atBound (s : Scan) (read : Cursor → Option (Token × Cursor)) : Option Scan := do
  let s ← (s.closeBlocks (-1)).dropKey
  let (t, c) ← read s.cursor
  return { s.add t with cursor := c, keyAllowed := false }

def openFlow (s : Scan) (t : Token) : Option Scan := do
  let s ← s.noteKey
  return { s.addSkipping t 1 with
    key := none, outerKeys := s.key :: s.outerKeys, keyAllowed := true }

def closeFlow (s : Scan) (t : Token) : Option Scan := do
  let s ← s.dropKey
  let (key, outerKeys) := match s.outerKeys with
    | key :: outer => (key, outer)
    | [] => (s.key, [])
  return { s.addSkipping t 1 with key, outerKeys, keyAllowed := false }

/-- An item of a sequence in block form. -/
def blockEntry (s : Scan) : Option Scan := do
  if !s.inFlow && !s.keyAllowed then none
  let s ← (s.openBlock s.cursor.column .sequenceStart).dropKey
  return { s.addSkipping .entry 1 with keyAllowed := true }

/-- The mark of a key that is written out. -/
def explicitKey (s : Scan) : Option Scan := do
  if !s.inFlow && !s.keyAllowed then none
  let s ← (s.openBlock s.cursor.column .mappingStart).dropKey
  return { s.addSkipping .key 1 with keyAllowed := !s.inFlow }

/-- The colon behind a key. The token that began the key gets its marks now. -/
def valueMark (s : Scan) : Option Scan :=
  match s.key with
  | some k =>
    let opens := !s.inFlow && s.column < k.column
    let marks := if opens then [Token.mappingStart, Token.key] else [Token.key]
    let s := if opens then { s with column := k.column, outer := s.column :: s.outer } else s
    let s := { s with marks := (k.number, marks) :: s.marks, key := none, keyAllowed := false }
    some (s.addSkipping .value 1)
  | none =>
    if !s.inFlow && !s.keyAllowed then none
    else
      let s := s.openBlock s.cursor.column .mappingStart
      some { s.addSkipping .value 1 with keyAllowed := !s.inFlow }

/-- A token that may begin a key. -/
def keyToken (s : Scan) (read : Cursor → Option (Token × Cursor)) : Option Scan := do
  let s ← s.noteKey
  let (t, c) ← read s.cursor
  return { s.add t with cursor := c, keyAllowed := false }

def blockScalar (s : Scan) (style : Style) : Option Scan := do
  let s ← s.dropKey
  let (text, c) ← blockText (style = .folded) s.column (s.cursor.skip 1)
  return { s.add (.scalar style (String.ofList text)) with cursor := c, keyAllowed := true }

def quotedScalar (s : Scan) (style : Style) (quote : Char) : Option Scan :=
  s.keyToken fun c => do
    let (text, c) ← quotedText quote (c.rest.length + 1) [] (c.skip 1)
    return (.scalar style (String.ofList text.reverse), c)

def plainScalar (s : Scan) : Option Scan := do
  let s ← s.noteKey
  let limit := (s.column + 1).toNat
  let c := s.cursor
  let (text, broken, c) ← plainText s.inFlow limit (c.rest.length + 1) [] .none c
  return { s.add (.scalar .plain (String.ofList text.reverse)) with
    cursor := c, keyAllowed := broken }

/-- Whether unquoted text can begin with a character in front of another one. -/
def beginsPlain (inFlow : Bool) (x : Char) (next : Option Char) : Bool :=
  let mark := x = '-' || x = '?' || x = ':'
  !(isBlank x || isIndicator x || mark)
    || (x = '-' && !(next.map isBlank).getD false)
    || (!inFlow && (x = '?' || x = ':') && !endsWord next)

/-- Reads the next token. -/
def step (s : Scan) (x : Char) : Option Scan :=
  let c := s.cursor
  let next := c.peekAt 1
  if c.column = 0 && x = '%' then s.atBound directive
  else if c.isAtBound then
    s.atBound fun c => some (if x = '-' then .documentStart else .documentEnd, c.skip 3)
  else if x = '[' then s.openFlow .openBracket
  else if x = '{' then s.openFlow .openBrace
  else if x = ']' then s.closeFlow .closeBracket
  else if x = '}' then s.closeFlow .closeBrace
  else if x = ',' then s.dropKey.map fun s => { s.addSkipping .comma 1 with keyAllowed := true }
  else if x = '-' && endsWord next then s.blockEntry
  else if x = '?' && (s.inFlow || endsWord next) then s.explicitKey
  else if x = ':' && (s.inFlow || endsWord next) then s.valueMark
  else if x = '*' then s.keyToken fun c => (anchorName c).map fun r => (.reference r.1, r.2)
  else if x = '&' then s.keyToken fun c => (anchorName c).map fun r => (.anchor r.1, r.2)
  else if x = '!' then s.keyToken (tagToken s.inFlow)
  else if x = '|' && !s.inFlow then s.blockScalar .literal
  else if x = '>' && !s.inFlow then s.blockScalar .folded
  else if x = '\'' then s.quotedScalar .single '\''
  else if x = '"' then s.quotedScalar .double '"'
  else if beginsPlain s.inFlow x next then s.plainScalar
  else none

/-- Reads tokens to the end of the text. -/
def run : Nat → Scan → Option Scan
  | 0, _ => none
  | fuel + 1, s =>
    match (toNextToken (s.cursor.rest.length + 1) s).dropStaleKeys with
    | none => none
    | some s =>
      match s.cursor.peek with
      | none => (s.closeBlocks (-1)).dropKey
      | some x =>
        match (s.closeBlocks s.cursor.column).step x with
        | none => none
        | some s => run fuel s

end Scan

/-- Puts marks in front of the tokens that they belong to. The tokens come in reverse order,
numbered down from `n`, and the marks from the last to the first. -/
def splice : Nat → List Token → List (Nat × List Token) → List Token → List Token
  | _, [], _, done => done
  | n, t :: tokens, marks, done =>
    let here := (marks.takeWhile fun m => m.1 = n - 1).flatMap Prod.snd
    splice (n - 1) tokens (marks.dropWhile fun m => m.1 = n - 1) (here ++ t :: done)

/-- Characters that a YAML text may hold. -/
def isAllowed (c : Char) : Bool :=
  c = '\t' || c = '\n' || c = '\r' || (' ' ≤ c && c ≤ '~') || c = '\x85'
    || ('\xa0' ≤ c && c ≠ '\ufffe' && c ≠ '\uffff')

/-- The tokens of a text. -/
def scan (text : String) : Option (List Token) :=
  let chars := text.toList
  if !chars.all isAllowed then none
  else
    (Scan.run (chars.length + 2) (.start chars)).map fun s =>
      splice s.count s.tokens (s.marks.mergeSort fun a b => decide (b.1 ≤ a.1)) []

end Token

end ResourceApi.Yaml
