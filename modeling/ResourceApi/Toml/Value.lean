import ResourceApi.Toml.Number
import ResourceApi.Toml.Table

/-!
Keys and values of TOML as they are written.
-/

namespace ResourceApi.Toml

def isBareCharacter (c : Char) : Bool := c.isAlphanum || c = '_' || c = '-'

/-- One part of a key, with the blanks around it. -/
def keyPart (s : List Char) : Except Failure (Key × List Char) :=
  let s := skipBlank s
  let found (name : String) (rest : List Char) : Key × List Char :=
    (⟨name, s.length⟩, skipBlank rest)
  match s with
  | '"' :: rest => (basicString (rest.length + 1) [] rest).map fun r => found r.1 r.2
  | '\'' :: rest => (literalString rest).map fun r => found r.1 r.2
  | s =>
    let name := s.takeWhile isBareCharacter
    if name.isEmpty then stop s else .ok (found (String.ofList name) (s.drop name.length))

/-- A key: its parts are separated by dots. The last part comes second. -/
def dottedKey : Nat → List Key → Reader (List Key × Key)
  | 0, _, s => stop s
  | fuel + 1, front, s =>
    match keyPart s with
    | .error f => .error f
    | .ok (key, '.' :: rest) => dottedKey fuel (front ++ [key]) rest
    | .ok (key, rest) => .ok ((front, key), rest)

def key (s : List Char) : Except Failure ((List Key × Key) × List Char) :=
  dottedKey (s.length + 1) [] s

/-- Consumes a word. -/
def word? (w : String) (s : List Char) : Option (List Char) :=
  if w.toList.isPrefixOf s then some (s.drop w.length) else none

/-- A value without parts. -/
def scalar (s : List Char) : Except Failure (Scalar × List Char) :=
  match s with
  | [] => stop s
  | c :: _ =>
    if c = '"' ∨ c = '\'' then (string s).map fun r => (.string r.1, r.2)
    else
      match word? "true" s, word? "false" s with
      | some rest, _ => .ok (.boolean true, rest)
      | _, some rest => .ok (.boolean false, rest)
      | none, none => number s

mutual

/-- A value that starts here. -/
def value : Nat → Reader Value
  | 0, s => stop s
  | fuel + 1, s =>
    match s with
    | '[' :: rest => (items fuel rest).map fun r => (.array s.length r.1, r.2)
    | '{' :: rest =>
      match skipBlank rest with
      | '}' :: rest => .ok (.table s.length .inline [], rest)
      | rest => (members fuel [] rest).map fun r => (.table s.length .inline r.1, r.2)
    | s => (scalar s).map fun r => (.scalar s.length r.1, r.2)

/-- The items of an array up to its bracket. Each may be followed by a comma, the last one, too. -/
def items : Nat → Reader (List Value)
  | 0, s => stop s
  | fuel + 1, s =>
    match skipLines (s.length + 1) s with
    | ']' :: rest => .ok ([], rest)
    | s =>
      match value fuel s with
      | .error f => .error f
      | .ok (v, rest) =>
        match skipLines (rest.length + 1) rest with
        | ',' :: rest => (items fuel rest).map fun r => (v :: r.1, r.2)
        | ']' :: rest => .ok ([v], rest)
        | rest => stop rest

/-- The members of a table in braces. -/
def members : Nat → Entries → Reader Entries
  | 0, _, s => stop s
  | fuel + 1, entries, s =>
    match key s with
    | .error f => .error f
    | .ok ((front, last), '=' :: rest) =>
      match value fuel (skipBlank rest) with
      | .error f => .error f
      | .ok (v, rest) =>
        match entries.insert v last front with
        | none => stop s
        | some entries =>
          match skipBlank rest with
          | ',' :: rest => members fuel entries rest
          | '}' :: rest => .ok (entries, rest)
          | rest => stop rest
    | .ok (_, rest) => stop rest

end

end ResourceApi.Toml
