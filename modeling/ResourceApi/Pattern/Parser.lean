import ResourceApi.Pattern.Basic
import ResourceApi.Pattern.Property

/-!
The written form of patterns. There are two dialects: the plain one has neither references to
groups nor conditions on what stands around a place, the extended one has both and takes a brace
that starts no count for itself.
-/

namespace ResourceApi.Pattern

inductive Dialect where
  | plain
  | extended
  deriving DecidableEq, Repr

/-- The flags that a pattern can set for what follows in its group. -/
structure Flags where
  anyCase : Bool
  multiLine : Bool
  dotAll : Bool
  swapGreed : Bool
  unicode : Bool
  verbose : Bool
  crlf : Bool
  deriving DecidableEq, Repr, Inhabited

def Flags.initial : Flags := ⟨false, false, false, false, true, false, false⟩

/-- What the parser carries along: flags, the number of groups, and the names of groups. -/
structure Context where
  flags : Flags
  groups : Nat
  names : List (String × Nat)
  deriving Repr, Inhabited

/-- In the verbose form white space and comments do not count. -/
def skipSpace (flags : Flags) : List Char → List Char
  | [] => []
  | c :: rest =>
    if flags.verbose then
      if Text.isWhiteSpace c then skipSpace flags rest
      else if c = '#' then skipComment flags rest
      else c :: rest
    else c :: rest
where
  skipComment (flags : Flags) : List Char → List Char
    | [] => []
    | c :: rest => if c = '\n' then skipSpace flags rest else skipComment flags rest

/-- One element of a pattern that is no group and no bracket. -/
inductive Atom where
  | char (c : Char)
  | set (s : CharSet)
  | anchor (a : Anchor)
  | again (n : Nat)

/-- A set with the flags applied. -/
def withCase (flags : Flags) (s : CharSet) : CharSet :=
  if !flags.anyCase then s else if flags.unicode then .anyCase s else .asciiCase s

/-- A character as a set, with the flags applied. -/
def charSet (flags : Flags) (c : Char) : CharSet := withCase flags (.single c)

/-! ### Escapes -/

def hexValue? (c : Char) : Option Nat :=
  if '0' ≤ c ∧ c ≤ '9' then some (c.toNat - '0'.toNat)
  else if 'a' ≤ c ∧ c ≤ 'f' then some (c.toNat - 'a'.toNat + 10)
  else if 'A' ≤ c ∧ c ≤ 'F' then some (c.toNat - 'A'.toNat + 10)
  else none

def charOf? (n : Nat) : Option Char := if n.isValidChar then some (Char.ofNat n) else none

/-- A character by so many hexadecimal digits, or by any number of them between braces. -/
def hexEscape (flags : Flags) (count : Nat) (s : List Char) : Option (Char × List Char) :=
  match skipSpace flags s with
  | '{' :: rest =>
    let digits := (rest.takeWhile (· ≠ '}')).filter
      fun c => !(flags.verbose && Text.isWhiteSpace c)
    match rest.dropWhile (· ≠ '}') with
    | '}' :: rest =>
      if digits.isEmpty then none
      else do
        let values ← digits.mapM hexValue?
        let c ← charOf? (values.foldl (fun n d => 16 * n + d) 0)
        return (c, rest)
    | _ => none
  | s =>
    let digits := s.take count
    if digits.length < count then none
    else do
      let values ← digits.mapM hexValue?
      let c ← charOf? (values.foldl (fun n d => 16 * n + d) 0)
      return (c, s.drop count)

/-- Where a text holds `sep`: what is before it and what is behind. -/
def splitAt? (sep : List Char) : List Char → Option (List Char × List Char)
  | [] => none
  | c :: rest =>
    if sep.isPrefixOf (c :: rest) then some ([], (c :: rest).drop sep.length)
    else (splitAt? sep rest).map fun r => (c :: r.1, r.2)

/-- A property behind `\p` or `\P`. -/
def propertyEscape (flags : Flags) (negated : Bool) (s : List Char) :
    Option (CharSet × List Char) :=
  let finish (negated : Bool) (set : Option CharSet) (rest : List Char) :
      Option (CharSet × List Char) :=
    set.map fun set =>
      let set := withCase flags set
      (if negated then .complement set else set, rest)
  if !flags.unicode then none
  else match skipSpace flags s with
    | [] => none
    | '{' :: rest =>
      let name := (rest.takeWhile (· ≠ '}')).filter
        fun c => !(flags.verbose && Text.isWhiteSpace c)
      match rest.dropWhile (· ≠ '}') with
      | [] => none
      | _ :: rest =>
        match splitAt? ['!', '='] name with
        | some (property, value) => finish (!negated) (valueSet? property value) rest
        | none =>
          match (splitAt? [':'] name).or (splitAt? ['='] name) with
          | some (property, value) => finish negated (valueSet? property value) rest
          | none => finish negated (propertySet? name) rest
    | '\\' :: _ => none
    | c :: rest => finish negated (propertySet? [c]) rest

/-- A class that is written as one letter behind a backslash. -/
def letterClass (flags : Flags) (wide narrow : Named) (negated : Bool) : Option CharSet :=
  if flags.unicode then
    some (if negated then .complement (.named wide) else .named wide)
  else if negated then none
  else some (.named narrow)

/-- The names of word boundaries between braces. -/
def boundary? (ascii : Bool) (name : List Char) : Option Anchor :=
  match String.ofList name with
  | "start" => some (.wordStart ascii)
  | "end" => some (.wordEnd ascii)
  | "start-half" => some (.wordStartHalf ascii)
  | "end-half" => some (.wordEndHalf ascii)
  | _ => none

/-- The word boundary behind `\b`; a brace behind it may name a special one or start a count. -/
def wordBoundary (flags : Flags) (s : List Char) : Option (Anchor × List Char) :=
  let ascii := !flags.unicode
  let isName (c : Char) : Bool := c.isAlpha || c = '-'
  match s with
  | '{' :: rest =>
    match skipSpace flags rest with
    | [] => none
    | c :: more =>
      if isName c then
        let name := (c :: more).takeWhile isName
        match skipSpace flags ((c :: more).dropWhile isName) with
        | '}' :: rest => (boundary? ascii name).map fun a => (a, rest)
        | _ => none
      else some (.wordBoundary ascii, s)
  | s => some (.wordBoundary ascii, s)

/-- ASCII characters other than letters, digits and angle brackets stand for themselves behind a
backslash. -/
def isEscapable (c : Char) : Bool := c.toNat < 128 && !c.isAlphanum && c ≠ '<' && c ≠ '>'

/-- What stands behind a backslash. -/
def escape (dialect : Dialect) (context : Context) (s : List Char) : Option (Atom × List Char) :=
  let flags := context.flags
  match s with
  | [] => none
  | c :: rest =>
    if c.isDigit then
      if dialect = .extended ∧ c ≠ '0' then
        let digits := s.takeWhile Char.isDigit
        let n := digits.foldl (fun n d => 10 * n + (d.toNat - '0'.toNat)) 0
        some (.again n, s.dropWhile Char.isDigit)
      else none
    else match c with
      | 'x' => (hexEscape flags 2 rest).map fun r => (.char r.1, r.2)
      | 'u' => (hexEscape flags 4 rest).map fun r => (.char r.1, r.2)
      | 'U' => (hexEscape flags 8 rest).map fun r => (.char r.1, r.2)
      | 'p' => (propertyEscape flags false rest).map fun r => (.set r.1, r.2)
      | 'P' => (propertyEscape flags true rest).map fun r => (.set r.1, r.2)
      | 'd' => (letterClass flags .digit .asciiDigit false).map fun s => (.set s, rest)
      | 'D' => (letterClass flags .digit .asciiDigit true).map fun s => (.set s, rest)
      | 's' => (letterClass flags .space .asciiSpace false).map fun s => (.set s, rest)
      | 'S' => (letterClass flags .space .asciiSpace true).map fun s => (.set s, rest)
      | 'w' => (letterClass flags .word .asciiWord false).map fun s => (.set s, rest)
      | 'W' => (letterClass flags .word .asciiWord true).map fun s => (.set s, rest)
      | 'a' => some (.char '\x07', rest)
      | 'f' => some (.char '\x0c', rest)
      | 't' => some (.char '\t', rest)
      | 'n' => some (.char '\n', rest)
      | 'r' => some (.char '\r', rest)
      | 'v' => some (.char '\x0b', rest)
      | 'A' => some (.anchor .textStart, rest)
      | 'z' => some (.anchor .textEnd, rest)
      | 'b' => (wordBoundary flags rest).map fun r => (.anchor r.1, r.2)
      | 'B' => some (.anchor (.notWordBoundary (!flags.unicode)), rest)
      | '<' => some (.anchor (.wordStart (!flags.unicode)), rest)
      | '>' => some (.anchor (.wordEnd (!flags.unicode)), rest)
      | 'k' =>
        match dialect, rest with
        | .extended, '<' :: name =>
          match name.dropWhile (· ≠ '>') with
          | '>' :: rest =>
            (context.names.lookup (String.ofList (name.takeWhile (· ≠ '>')))).map
              fun n => (.again n, rest)
          | _ => none
        | _, _ => none
      | c => if isEscapable c then some (.char c, rest) else none

/-! ### Brackets -/

inductive SetOperation where
  | inter
  | difference
  | symmetricDifference

def SetOperation.apply : SetOperation → CharSet → CharSet → CharSet
  | .inter => .inter
  | .difference => .difference
  | .symmetricDifference => .symmetricDifference

/-- The set of what has been read so far between brackets: the operand before the last operator,
and the items behind it. -/
def operand (left : Option (CharSet × SetOperation)) (items : List CharSet) : CharSet :=
  let right := CharSet.unionAll items.reverse
  match left with
  | some (l, op) => op.apply l right
  | none => right

/-- A class between `[:` and `:]`, behind its first bracket. -/
def namedClass? (flags : Flags) : List Char → Option (CharSet × List Char)
  | ':' :: rest =>
    let (negated, rest) := match rest with
      | '^' :: rest => (true, rest)
      | rest => (false, rest)
    match rest.dropWhile (· ≠ ':') with
    | ':' :: ']' :: after =>
      (asciiClass? (String.ofList (rest.takeWhile (· ≠ ':')))).map fun s =>
        let s := withCase flags s
        (if negated then .complement s else s, after)
    | _ => none
  | _ => none

/-- One character or class between brackets. -/
def setItem (dialect : Dialect) (context : Context) : List Char → Option (Atom × List Char)
  | [] => none
  | '\\' :: rest => escape dialect context rest
  | c :: rest => some (.char c, rest)

def setOfAtom (flags : Flags) : Atom → Option CharSet
  | .char c => if !flags.unicode && 128 ≤ c.toNat then none else some (charSet flags c)
  | .set s => some s
  | _ => none

/-- A character or class, or a range of characters. -/
def setRange (dialect : Dialect) (context : Context) (s : List Char) :
    Option (CharSet × List Char) :=
  let flags := context.flags
  match setItem dialect context s with
  | none => none
  | some (first, rest) =>
    let alone (rest : List Char) : Option (CharSet × List Char) :=
      (setOfAtom flags first).map fun s => (s, rest)
    match skipSpace flags rest with
    | [] => none
    | '-' :: after =>
      match skipSpace flags after with
      | [] => none
      | ']' :: _ => alone ('-' :: after)
      | '-' :: _ => alone ('-' :: after)
      | after =>
        match first, setItem dialect context after with
        | .char low, some (.char high, rest) =>
          if high < low then none
          else if !flags.unicode && 128 ≤ high.toNat then none
          else some (withCase flags (.range low high), rest)
        | _, _ => none
    | rest => alone rest

mutual

/-- A set behind its opening bracket. -/
def setBody (dialect : Dialect) (context : Context) : Nat → List Char → Option (CharSet × List Char)
  | 0, _ => none
  | fuel + 1, s =>
    let flags := context.flags
    let s := skipSpace flags s
    let (negated, s) := match s with
      | '^' :: rest => (true, skipSpace flags rest)
      | s => (false, s)
    let hyphens := leadingHyphens flags s.length s
    let (items, s) : List CharSet × List Char := match hyphens with
      | (0, ']' :: rest) => ([charSet flags ']'], skipSpace flags rest)
      | (0, rest) => ([], rest)
      | (_ + 1, rest) => ([charSet flags '-'], rest)
    match setItems dialect context fuel none items s with
    | none => none
    | some (set, rest) =>
      if negated then
        if flags.unicode then some (.complement set, rest) else none
      else some (set, rest)

/-- The items of a set up to its closing bracket. -/
def setItems (dialect : Dialect) (context : Context) :
    Nat → Option (CharSet × SetOperation) → List CharSet → List Char → Option (CharSet × List Char)
  | 0, _, _, _ => none
  | fuel + 1, left, items, s =>
    let operator (op : SetOperation) (rest : List Char) : Option (CharSet × List Char) :=
      setItems dialect context fuel (some (operand left items, op)) [] rest
    match skipSpace context.flags s with
    | [] => none
    | ']' :: rest => some (operand left items, rest)
    | '&' :: '&' :: rest => operator .inter rest
    | '-' :: '-' :: rest => operator .difference rest
    | '~' :: '~' :: rest => operator .symmetricDifference rest
    | '[' :: rest =>
      match namedClass? context.flags rest with
      | some (set, rest) => setItems dialect context fuel left (set :: items) rest
      | none =>
        match setBody dialect context fuel rest with
        | some (set, rest) => setItems dialect context fuel left (set :: items) rest
        | none => none
    | s =>
      match setRange dialect context s with
      | some (set, rest) => setItems dialect context fuel left (set :: items) rest
      | none => none

/-- How many hyphens a set starts with. -/
def leadingHyphens (flags : Flags) : Nat → List Char → Nat × List Char
  | fuel + 1, '-' :: rest =>
    let (n, rest) := leadingHyphens flags fuel (skipSpace flags rest)
    (n + 1, rest)
  | _, s => (0, s)

end

/-! ### Counts, flags and names -/

/-- The decimal digits of a count, with the white space around them. -/
def decimal (s : List Char) : Option Nat × List Char :=
  let s := s.dropWhile Text.isWhiteSpace
  let digits := s.takeWhile Char.isDigit
  let rest := (s.dropWhile Char.isDigit).dropWhile Text.isWhiteSpace
  (if digits.isEmpty then none
    else some (digits.foldl (fun n d => 10 * n + (d.toNat - '0'.toNat)) 0), rest)

/-- A count behind its opening brace: the least and the greatest number of repetitions. -/
def count (dialect : Dialect) (flags : Flags) (s : List Char) :
    Option (Nat × Option Nat × List Char) :=
  let (low?, rest) := decimal (skipSpace flags s)
  let low? := if dialect = .extended then some (low?.getD 0) else low?
  match low?, skipSpace flags rest with
  | some low, '}' :: rest => some (low, some low, rest)
  | some low, ',' :: rest =>
    match skipSpace flags rest with
    | '}' :: rest => some (low, none, rest)
    | rest =>
      match decimal rest with
      | (some high, '}' :: rest) => some (low, some high, rest)
      | _ => none
  | _, _ => none

/-- Whether so many repetitions can be asked for. -/
def isCount (least : Nat) (most : Option Nat) : Bool :=
  let most := most.getD least
  least ≤ most && most < Nat.pow 2 32

/-- The lazy mark behind a repetition; which match is preferred does not count. -/
def skipLazy : List Char → List Char
  | '?' :: rest => rest
  | s => s

def setFlag (flags : Flags) (on : Bool) : Char → Option Flags
  | 'i' => some { flags with anyCase := on }
  | 'm' => some { flags with multiLine := on }
  | 's' => some { flags with dotAll := on }
  | 'U' => some { flags with swapGreed := on }
  | 'u' => some { flags with unicode := on }
  | 'x' => some { flags with verbose := on }
  | 'R' => some { flags with crlf := on }
  | _ => none

/-- Flags up to a colon or a closing parenthesis; a minus sign switches off those behind it. -/
def flagList (flags : Flags) (on : Bool) (seen : List Char) :
    List Char → Option (Flags × List Char × List Char)
  | [] => none
  | c :: rest =>
    if c = ':' ∨ c = ')' then
      if seen.head? = some '-' then none else some (flags, seen, c :: rest)
    else if seen.contains c then none
    else if c = '-' then flagList flags false ('-' :: seen) rest
    else match setFlag flags on c with
      | some flags => flagList flags on (c :: seen) rest
      | none => none

def isNameStart (c : Char) : Bool := c = '_' || Text.isAlphabetic c

def isNamePart (c : Char) : Bool :=
  c = '_' || c = '.' || c = '[' || c = ']' || Text.isAlphanumeric c

/-- The name of a group up to its closing angle bracket. -/
def groupName (s : List Char) : Option (String × List Char) :=
  match s.takeWhile (· ≠ '>'), s.dropWhile (· ≠ '>') with
  | c :: name, '>' :: rest =>
    if isNameStart c && name.all isNamePart then some (String.ofList (c :: name), rest) else none
  | _, _ => none

/-! ### Groups -/

/-- A character that stands for itself. Only an ASCII character can be taken without regard to case
if case is that of ASCII letters. -/
def literal? (flags : Flags) (c : Char) : Option Pattern :=
  if flags.anyCase && !flags.unicode && 128 ≤ c.toNat then none else some (.one (charSet flags c))

/-- An element with the flags applied. -/
def ofAtom? (flags : Flags) : Atom → Option Pattern
  | .char c => literal? flags c
  | .set s => some (.one s)
  | .anchor a => some (.anchor a)
  | .again n => some (.again n flags.anyCase)

/-- Any character but line ends, unless the flags say otherwise. -/
def dot (flags : Flags) : Option Pattern :=
  if !flags.unicode then none
  else if flags.dotAll then some (.one .all)
  else if flags.crlf then some (.one (.complement (.union (.single '\n') (.single '\r'))))
  else some (.one (.complement (.single '\n')))

/-- The elements of a sequence in reverse order; flags are elements that match nothing of their
own and cannot be repeated. -/
abbrev Elements := List (Option Pattern)

def sequenceOf (elements : Elements) : Pattern :=
  match elements.filterMap id with
  | [] => .empty
  | last :: before => before.foldl (fun p q => .seq q p) last

/-- What a group is, once its opening has been read. -/
inductive Opening where
  | flags (f : Flags)
  | capture (name : Option String)
  | plain (f : Flags)
  | look (ahead negative : Bool)

/-- The opening of a group behind its parenthesis. -/
def opening (dialect : Dialect) (context : Context) (s : List Char) :
    Option (Opening × List Char) :=
  let look (ahead negative : Bool) (rest : List Char) : Option (Opening × List Char) :=
    if dialect = .extended then some (.look ahead negative, rest) else none
  let named (rest : List Char) : Option (Opening × List Char) :=
    match groupName rest with
    | some (name, rest) =>
      if (context.names.lookup name).isSome then none else some (.capture (some name), rest)
    | none => none
  match skipSpace context.flags s with
  | '?' :: '=' :: rest => look true false rest
  | '?' :: '!' :: rest => look true true rest
  | '?' :: '<' :: '=' :: rest => look false false rest
  | '?' :: '<' :: '!' :: rest => look false true rest
  | '?' :: 'P' :: '<' :: rest => named rest
  | '?' :: '<' :: rest => named rest
  | '?' :: '>' :: rest =>
    if dialect = .extended then some (.plain context.flags, rest) else none
  | '?' :: rest =>
    match flagList context.flags true [] rest with
    | some (flags, seen, ')' :: rest) => if seen.isEmpty then none else some (.flags flags, rest)
    | some (flags, _, ':' :: rest) => some (.plain flags, rest)
    | _ => none
  | rest => some (.capture none, rest)

/-- Reads alternatives up to a closing parenthesis or the end. `done` holds the alternatives before
this one, in reverse order. -/
def alternatives (dialect : Dialect) :
    Nat → Context → List Pattern → Elements → List Char → Option (Pattern × Context × List Char)
  | 0, _, _, _, _ => none
  | fuel + 1, context, done, elements, s =>
    let flags := context.flags
    let go (context : Context) (elements : Elements) (rest : List Char) :
        Option (Pattern × Context × List Char) :=
      alternatives dialect fuel context done elements rest
    let finish (rest : List Char) : Option (Pattern × Context × List Char) :=
      some (done.foldl (fun p q => .alt q p) (sequenceOf elements), context, rest)
    let repeated (least : Nat) (most : Option Nat) (rest : List Char) :
        Option (Pattern × Context × List Char) :=
      match elements with
      | some p :: before => go context (some (.many least most p) :: before) (skipLazy rest)
      | _ => none
    match skipSpace flags s with
    | [] => finish []
    | ')' :: rest => finish (')' :: rest)
    | '|' :: rest => alternatives dialect fuel context (sequenceOf elements :: done) [] rest
    | '*' :: rest => repeated 0 none rest
    | '+' :: rest => repeated 1 none rest
    | '?' :: rest => repeated 0 (some 1) rest
    | '{' :: rest =>
      match count dialect flags rest with
      | some (least, most, rest) =>
        if isCount least most then repeated least most rest else none
      | none =>
        if dialect = .extended then go context (some (.one (charSet flags '{')) :: elements) rest
        else none
    | '(' :: rest =>
      match opening dialect context rest with
      | none => none
      | some (.flags flags, rest) => go { context with flags } (none :: elements) rest
      | some (kind, rest) =>
        let number := context.groups + 1
        let inner : Context := match kind with
          | .capture name =>
            { context with
              groups := number
              names := (name.map fun n => (n, number)).toList ++ context.names }
          | .plain flags => { context with flags }
          | _ => context
        match alternatives dialect fuel inner [] [] rest with
        | some (p, after, ')' :: rest) =>
          let p := match kind with
            | .capture _ => .group number p
            | .look ahead negative => .look ahead negative p
            | _ => p
          go { after with flags } (some p :: elements) rest
        | _ => none
    | '[' :: rest =>
      match setBody dialect context fuel rest with
      | some (set, rest) => go context (some (.one set) :: elements) rest
      | none => none
    | '.' :: rest =>
      match dot flags with
      | some p => go context (some p :: elements) rest
      | none => none
    | '^' :: rest =>
      let a : Anchor := if flags.multiLine then .lineStart flags.crlf else .textStart
      go context (some (.anchor a) :: elements) rest
    | '$' :: rest =>
      let a : Anchor := if flags.multiLine then .lineEnd flags.crlf else .textEnd
      go context (some (.anchor a) :: elements) rest
    | '\\' :: rest =>
      match (escape dialect context rest).bind fun r => (ofAtom? flags r.1).map (·, r.2) with
      | some (p, rest) => go context (some p :: elements) rest
      | none => none
    | c :: rest =>
      match literal? flags c with
      | some p => go context (some p :: elements) rest
      | none => none

/-- Whether a pattern refers to a group. -/
def refersBack : Pattern → Bool
  | .again _ _ => true
  | .seq p q => p.refersBack || q.refersBack
  | .alt p q => p.refersBack || q.refersBack
  | .many _ _ p => p.refersBack
  | .group _ p => p.refersBack
  | .look _ _ p => p.refersBack
  | _ => false

/-- The greatest group that a pattern refers to. -/
def greatestReference : Pattern → Nat
  | .again n _ => n
  | .seq p q => max p.greatestReference q.greatestReference
  | .alt p q => max p.greatestReference q.greatestReference
  | .many _ _ p => p.greatestReference
  | .group _ p => p.greatestReference
  | .look _ _ p => p.greatestReference
  | _ => 0

/-- Leaves out the groups, which is allowed when nothing refers to them. -/
def withoutGroups : Pattern → Pattern
  | .seq p q => .seq p.withoutGroups q.withoutGroups
  | .alt p q => .alt p.withoutGroups q.withoutGroups
  | .many least most p => .many least most p.withoutGroups
  | .group _ p => p.withoutGroups
  | .look ahead negative p => .look ahead negative p.withoutGroups
  | p => p

/-- How many characters and conditions a pattern has when its counts are written out. -/
def expandedSize : Pattern → Nat
  | .seq p q => p.expandedSize + q.expandedSize
  | .alt p q => p.expandedSize + q.expandedSize
  | .many least most p => max 1 (max least (most.getD 1)) * p.expandedSize
  | .group _ p => p.expandedSize
  | .look _ _ p => p.expandedSize
  | _ => 1

/-- Patterns that would be larger than this when written out are refused. -/
def sizeLimit : Nat := Nat.pow 2 18

/-- Reads a pattern of a dialect. -/
def ofText? (dialect : Dialect) (text : String) : Option Pattern :=
  let chars := text.toList
  match alternatives dialect (2 * chars.length + 2) ⟨.initial, 0, []⟩ [] [] chars with
  | some (p, context, []) =>
    if sizeLimit < p.expandedSize then none
    else if p.refersBack then
      if p.greatestReference ≤ context.groups then some p else none
    else some p.withoutGroups
  | _ => none

end ResourceApi.Pattern
