import ResourceApi.Toml.Basic

/-!
Strings of TOML: between double quotes with escapes or between single quotes without, on one line
or, with three quotes, on many. A line break in a string is a line feed.
-/

namespace ResourceApi.Toml

def hexValue? (c : Char) : Option Nat :=
  if '0' ≤ c ∧ c ≤ '9' then some (c.toNat - '0'.toNat)
  else if 'a' ≤ c ∧ c ≤ 'f' then some (c.toNat - 'a'.toNat + 10)
  else if 'A' ≤ c ∧ c ≤ 'F' then some (c.toNat - 'A'.toNat + 10)
  else none

/-- The character with a code in hexadecimal digits. -/
def codePoint? (digits : List Char) : Option Char :=
  match digits.foldlM (fun n c => (hexValue? c).map fun v => 16 * n + v) 0 with
  | some n => if n < 0xD800 ∨ (0xDFFF < n ∧ n < 0x110000) then some (Char.ofNat n) else none
  | none => none

def simpleEscape? : Char → Option Char
  | 'b' => some '\x08'
  | 'f' => some '\x0c'
  | 'n' => some '\n'
  | 'r' => some '\r'
  | 't' => some '\t'
  | '"' => some '"'
  | '\\' => some '\\'
  | _ => none

/-- The character that an escape stands for, behind its backslash. -/
def escape? : List Char → Option (Char × List Char)
  | 'u' :: s => (codePoint? (s.take 4)).bind fun c =>
    if s.length < 4 then none else some (c, s.drop 4)
  | 'U' :: s => (codePoint? (s.take 8)).bind fun c =>
    if s.length < 8 then none else some (c, s.drop 8)
  | c :: s => (simpleEscape? c).map fun e => (e, s)
  | [] => none

/-- The rest of a string on one line. -/
def basicString : Nat → List Char → Reader String
  | 0, _, s => stop s
  | fuel + 1, done, s =>
    match s with
    | '"' :: rest => .ok (String.ofList done.reverse, rest)
    | '\\' :: rest =>
      match escape? rest with
      | some (c, rest) => basicString fuel (c :: done) rest
      | none => stop rest
    | c :: rest => if isText c then basicString fuel (c :: done) rest else stop (c :: rest)
    | [] => stop []

/-- Skips the end of the line behind a backslash and all blanks and line breaks after it. -/
def foldedLine? (s : List Char) : Option (List Char) :=
  match skipBlank s with
  | '\n' :: rest => some (rest.dropWhile fun c => isBlank c || c = '\n' || c = '\r')
  | '\r' :: '\n' :: rest => some (rest.dropWhile fun c => isBlank c || c = '\n' || c = '\r')
  | _ => none

/-- Closes a string on many lines; up to two quotes in front of the last three belong to it. -/
def closeLines (quote : Char) (done : List Char) : Reader String
  | a :: b :: rest =>
    if a = quote ∧ b = quote then .ok (String.ofList (quote :: quote :: done).reverse, rest)
    else if a = quote then .ok (String.ofList (quote :: done).reverse, b :: rest)
    else .ok (String.ofList done.reverse, a :: b :: rest)
  | [a] =>
    if a = quote then .ok (String.ofList (quote :: done).reverse, [])
    else .ok (String.ofList done.reverse, [a])
  | [] => .ok (String.ofList done.reverse, [])

/-- The rest of a string on many lines. -/
def basicLines : Nat → List Char → Reader String
  | 0, _, s => stop s
  | fuel + 1, done, s =>
    match s with
    | '"' :: '"' :: '"' :: rest => closeLines '"' done rest
    | '\\' :: rest =>
      match foldedLine? rest with
      | some rest => basicLines fuel done rest
      | none =>
        match escape? rest with
        | some (c, rest) => basicLines fuel (c :: done) rest
        | none => stop rest
    | '\n' :: rest => basicLines fuel ('\n' :: done) rest
    | '\r' :: '\n' :: rest => basicLines fuel ('\n' :: done) rest
    | c :: rest => if isText c then basicLines fuel (c :: done) rest else stop (c :: rest)
    | [] => stop []

/-- The rest of a string without escapes. -/
def literalString (s : List Char) : Except Failure (String × List Char) :=
  let content := s.takeWhile fun c => isText c && c ≠ '\''
  match s.drop content.length with
  | '\'' :: rest => .ok (String.ofList content, rest)
  | rest => stop rest

/-- The rest of a string on many lines without escapes. -/
def literalLines (done : List Char) : Reader String
  | '\'' :: '\'' :: '\'' :: rest => closeLines '\'' done rest
  | '\n' :: rest => literalLines ('\n' :: done) rest
  | '\r' :: '\n' :: rest => literalLines ('\n' :: done) rest
  | c :: rest => if isText c then literalLines (c :: done) rest else stop (c :: rest)
  | [] => stop []

/-- A line break just behind the opening quotes is not part of the string. -/
def skipFirstBreak : List Char → List Char
  | '\n' :: s => s
  | '\r' :: '\n' :: s => s
  | s => s

/-- A string of any sort that starts here. -/
def string (s : List Char) : Except Failure (String × List Char) :=
  match s with
  | '"' :: '"' :: '"' :: rest => basicLines (rest.length + 1) [] (skipFirstBreak rest)
  | '"' :: rest => basicString (rest.length + 1) [] rest
  | '\'' :: '\'' :: '\'' :: rest => literalLines [] (skipFirstBreak rest)
  | '\'' :: rest => literalString rest
  | s => stop s

end ResourceApi.Toml
