import ResourceApi.Toml.Value

/-!
TOML texts: keys with their values, line by line, under headers that open tables.
-/

namespace ResourceApi.Toml

/-- What a header opens. -/
inductive Opening where
  | table (path : List Key) (last : Key)
  | oneOf (path : List Key) (last : Key)
  deriving DecidableEq, Repr, Inhabited

/-- A text on the way: the tables that are closed, and the one that is open. -/
structure Draft where
  closed : Entries
  opening : Option Opening
  current : Entries
  deriving Repr, Inhabited

namespace Draft

def empty : Draft := ⟨[], none, []⟩

/-- All tables, once the open one is closed. -/
def close (d : Draft) : Option Entries :=
  match d.opening with
  | none => some d.current
  | some (.table path last) => d.closed.closeTable path last d.current
  | some (.oneOf path last) => d.closed.closeOneOf path last d.current

def openTable (o : Opening) (d : Draft) : Option Draft := do
  let closed ← d.close
  let (current, closed) ← match o with
    | .table path last => closed.openTable path last
    | .oneOf path last => closed.openOneOf path last
  return ⟨closed, some o, current⟩

def add (front : List Key) (last : Key) (v : Value) (d : Draft) : Option Draft :=
  (d.current.insert v last front).map fun current => { d with current := current }

end Draft

/-- What may stand behind a value or a header on its line. -/
def restOfLine (s : List Char) : Except Failure (Unit × List Char) :=
  let s := skipComment (skipBlank s)
  match lineEnd? s with
  | some rest => .ok ((), rest)
  | none => stop s

/-- A header, behind its brackets. -/
def header (closing : String) (opening : List Key → Key → Opening) (d : Draft)
    (start s : List Char) : Except Failure (Draft × List Char) :=
  match key s with
  | .error f => .error f
  | .ok ((path, last), rest) =>
    match word? closing rest with
    | none => stop rest
    | some rest =>
      match restOfLine rest with
      | .error f => .error f
      | .ok (_, rest) =>
        match d.openTable (opening path last) with
        | some d => .ok (d, rest)
        | none => stop start

/-- A key with its value. -/
def pair (d : Draft) (s : List Char) : Except Failure (Draft × List Char) :=
  match key s with
  | .error f => .error f
  | .ok ((front, last), '=' :: rest) =>
    let rest := skipBlank rest
    match value (rest.length + 1) rest with
    | .error f => .error f
    | .ok (v, rest) =>
      match restOfLine rest with
      | .error f => .error f
      | .ok (_, rest) =>
        match d.add front last v with
        | some d => .ok (d, rest)
        | none => stop s
  | .ok (_, rest) => stop rest

/-- The lines of a text. -/
def lines : Nat → Draft → Reader Draft
  | 0, _, s => stop s
  | fuel + 1, d, s =>
    match skipLines (s.length + 1) s with
    | [] => .ok (d, [])
    | s =>
      let line := match s with
        | '[' :: '[' :: rest => header "]]" .oneOf d s rest
        | '[' :: rest => header "]" .table d s rest
        | s => pair d s
      match line with
      | .error f => .error f
      | .ok (d, rest) => lines fuel d rest

/-- A line and a column, both counted from one. -/
structure Position where
  line : Nat
  column : Nat
  deriving DecidableEq, Repr, Inhabited

/-- Where so many characters of a text are left. -/
def position (text : String) (place : Nat) : Position :=
  let before := text.toList.take (text.length - place)
  let line := before.reverse.takeWhile fun c => c ≠ '\n'
  ⟨before.count '\n' + 1, line.length + 1⟩

/-- A mark in front of a text that says how it is encoded. -/
def skipMark : List Char → List Char
  | '\ufeff' :: s => s
  | s => s

/-- Reads the entries of a text. -/
def parse (text : String) : Except Failure Entries :=
  let s := skipMark text.toList
  match lines (s.length + 1) .empty s with
  | .error f => .error f
  | .ok (d, _) =>
    match d.close with
    | some entries => .ok entries
    | none => stop []

end ResourceApi.Toml
