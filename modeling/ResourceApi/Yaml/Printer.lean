import ResourceApi.Yaml.Basic
import ResourceApi.Yaml.Plain

/-!
YAML text of JSON values in block form. A string is written without quotes where that reads back as
the same string, over several lines if it holds line feeds, and between quotes otherwise. Parts are
indented by two blanks, but the items of an array stand below the key of the array.
-/

namespace ResourceApi.Yaml

/-- Characters that may be written as they are. -/
def isPrintable (c : Char) : Bool :=
  c = '\n' || (' ' ≤ c && c ≤ '~') || ('\xa0' ≤ c && c ≤ '\ud7ff')
    || ('\ue000' ≤ c && c ≤ '\ufffd' && c ≠ '\ufeff') || 0x10000 ≤ c.toNat

/-! ### The style of a string -/

/-- Whether two characters with these properties stand side by side. -/
def adjacent (p q : Char → Bool) : List Char → Bool
  | c :: d :: rest => (p c && q d) || adjacent p q (d :: rest)
  | _ => false

def isSpace (c : Char) : Bool := c = ' '

/-- Whether the text would be taken for something else where it begins. -/
def beginsMarkup (s : List Char) : Bool :=
  match s with
  | [] => false
  | c :: rest =>
    isIndicator c || (c ∈ ['?', ':', '-'] && endsWord rest.head?)
      || s.take 3 = ['-', '-', '-'] || s.take 3 = ['.', '.', '.']

/-- Whether a colon ends a word, or a number sign begins one, behind the first character. -/
def holdsMarkup : List Char → Bool
  | c :: d :: rest =>
    (d = ':' && endsWord rest.head?) || (d = '#' && endsWord (some c)) || holdsMarkup (d :: rest)
  | _ => false

/-- A blank or a line end at either end of the text. -/
def hasOuterBlank (s : List Char) : Bool :=
  let outer (c : Option Char) : Bool := (c.map fun c => isSpace c || isBreak c).getD false
  outer s.head? || outer s.getLast?

def hasUnprintable (s : List Char) : Bool := !s.all isPrintable

/-- Whether text without quotes is read as what it is. -/
def plainAllowed (s : List Char) : Bool :=
  !(hasOuterBlank s || hasUnprintable s || s.any isBreak || beginsMarkup s || holdsMarkup s)

/-- Whether text between single quotes is read as what it is. -/
def singleAllowed (s : List Char) : Bool :=
  !(hasUnprintable s || adjacent isSpace isBreak s || adjacent isBreak isSpace s)

/-- Whether text over several lines is read as what it is. -/
def literalAllowed (s : List Char) : Bool :=
  !(hasUnprintable s || adjacent isSpace isBreak s || (s.getLast?.map isSpace).getD false)

/-- Whether text without quotes would be read as something else than a string. -/
def needsQuotes (s : List Char) : Bool := Plain.ofText s ≠ .text || isZeroLed s

/-- The style in which a string is written. -/
def Style.ofText (s : List Char) : Style :=
  if s.contains '\n' then if literalAllowed s then .literal else .double
  else if plainAllowed s && !needsQuotes s then .plain
  else if singleAllowed s then .single
  else .double

/-! ### Strings -/

def pad (n : Nat) : List Char := List.replicate n ' '

/-- Writes text with the indentation at the start of each line that is not empty. -/
def indentLines (indent : Nat) (lineStart : Bool) : List Char → List Char
  | [] => []
  | c :: rest =>
    if isBreak c then c :: indentLines indent true rest
    else (if lineStart then pad indent else []) ++ c :: indentLines indent false rest

/-- The quote is doubled; a line end inside is followed by the indentation. -/
def singleQuoted (indent : Nat) (s : List Char) : List Char :=
  let body := (indentLines indent false s).flatMap fun c => if c = '\'' then ['\'', '\''] else [c]
  let tail := match s.getLast? with
    | some c => if isBreak c then pad indent else []
    | none => []
  ['\''] ++ body ++ tail ++ ['\'']

/-- So many digits of a number in base 16. -/
def hexDigits (width n : Nat) : List Char :=
  let digits := (Nat.toDigits 16 n).map Char.toUpper
  List.replicate (width - digits.length) '0' ++ digits

/-- The escape of a character between double quotes. -/
def escaped (c : Char) : List Char :=
  let short := [('\x00', '0'), ('\x07', 'a'), ('\x08', 'b'), ('\t', 't'), ('\n', 'n'),
    ('\x0b', 'v'), ('\x0c', 'f'), ('\r', 'r'), ('\x1b', 'e'), ('"', '"'), ('\\', '\\'),
    ('\x85', 'N'), ('\xa0', '_'), ('\u2028', 'L'), ('\u2029', 'P')]
  match short.lookup c with
  | some letter => ['\\', letter]
  | none =>
    if c.toNat ≤ 0xFF then ['\\', 'x'] ++ hexDigits 2 c.toNat
    else if c.toNat ≤ 0xFFFF then ['\\', 'u'] ++ hexDigits 4 c.toNat
    else ['\\', 'U'] ++ hexDigits 8 c.toNat

def doubleQuoted (s : List Char) : List Char :=
  let body := s.flatMap fun c =>
    if !isPrintable c || isBreak c || c = '"' || c = '\\' then escaped c else [c]
  ['"'] ++ body ++ ['"']

/-- How the line ends behind a text over several lines are meant: one is usual, none or more are
marked. -/
def chompMark (s : List Char) : List Char :=
  match s.reverse with
  | [] => ['-']
  | c :: rest =>
    if !isBreak c then ['-']
    else match rest with
      | [] => ['+']
      | d :: _ => if isBreak d then ['+'] else []

/-- Text over several lines, behind a bar and its marks. -/
def literalText (indent : Nat) (s : List Char) : List Char :=
  let hint := match s.head? with
    | some c => if isSpace c || isBreak c then ['2'] else []
    | none => []
  ['|'] ++ hint ++ chompMark s ++ ['\n'] ++ indentLines indent true s

/-- A string in its style, with the indentation of its further lines. -/
def stringText (indent : Nat) (s : List Char) : List Char :=
  match Style.ofText s with
  | .plain => s
  | .single => singleQuoted indent s
  | .double => doubleQuoted s
  | .literal | .folded => literalText indent s

/-- A line end, unless the text has one at its end. -/
def endLine (s : List Char) : List Char :=
  match s.getLast? with
  | some c => if isBreak c then s else s ++ ['\n']
  | none => ['\n']

/-! ### Values -/

/-- Longer keys are written behind a question mark, and so are keys with line ends. -/
def isSimpleKey (key : String) : Bool := key.utf8ByteSize ≤ 128 && !key.toList.any isBreak

/-- Values that are written on the line of their key. -/
def leaf? (indent : Nat) : Json → Option (List Char)
  | .null => some "null".toList
  | .bool b => some (if b then "true" else "false").toList
  | .number n => some n.render.toList
  | .string s => some (stringText indent s.toList)
  | .array [] => some ['[', ']']
  | .object [] => some ['{', '}']
  | _ => none

/-- What stands in front of an entry: the indentation, or one blank behind a mark. -/
def lead (indent : Nat) (marked : Bool) : List Char := if marked then [' '] else pad indent

/-- The text behind a mark: a leaf on the same line, or the block of the parts. -/
def behindMark (leaf : Option (List Char)) (block : List Char) : List Char :=
  match leaf with
  | some text => ' ' :: endLine text
  | none => block

mutual

/-- A value that has parts, as a block whose items or members have their indentation. Only the first
part can stand behind a mark on the same line. -/
def block (itemIndent memberIndent : Nat) (marked : Bool) : Json → List Char
  | .array items => blockItems itemIndent marked items
  | .object members => blockMembers memberIndent marked members
  | _ => []

def blockItems (indent : Nat) (marked : Bool) : List Json → List Char
  | [] => []
  | item :: items =>
    lead indent marked ++ ['-']
      ++ behindMark (leaf? (indent + 2) item) (block (indent + 2) (indent + 2) true item)
      ++ blockItems indent false items

def blockMembers (indent : Nat) (marked : Bool) : List (String × Json) → List Char
  | [] => []
  | entry :: members =>
    lead indent marked ++ blockMember indent entry ++ blockMembers indent false members

/-- A member of an object. -/
def blockMember (indent : Nat) : String × Json → List Char
  | (key, v) =>
    let keyText := stringText (indent + 2) key.toList
    let leaf := leaf? (indent + 2) v
    if isSimpleKey key then
      keyText ++ [':'] ++ behindMark leaf ('\n' :: block indent (indent + 2) false v)
    else
      ['?', ' '] ++ endLine keyText ++ pad indent ++ [':']
        ++ behindMark leaf (block (indent + 2) (indent + 2) true v)

end

/-- The YAML text of a value. -/
def render (v : Json) : String :=
  String.ofList (match leaf? 2 v with
    | some text => endLine text
    | none => block 0 0 false v)

end ResourceApi.Yaml
