import ResourceApi.Json.Value
import ResourceApi.Text.Natural
import ResourceApi.Text.Split

/-!
Paths into a JSON value and their pointers. A pointer has a slash before each token, in which `~`
is written `~0` and a slash `~1`.
-/

namespace ResourceApi.Json

/-- One step from a value to a part of it. -/
inductive Step where
  | key (k : String)
  | index (i : Nat)
  deriving DecidableEq, Repr, Inhabited

abbrev Path := List Step

def Step.token : Step → String
  | .key k => k
  | .index i => toString i

namespace Pointer

def escapeChar (c : Char) : List Char :=
  if c = '~' then ['~', '0'] else if c = '/' then ['~', '1'] else [c]

/-- Adds a token at the end of a pointer. -/
def push (pointer token : String) : String :=
  pointer ++ String.ofList ('/' :: token.toList.flatMap escapeChar)

/-- The pointer of a path. -/
def ofPath (path : Path) : String := path.foldl (fun p step => push p step.token) ""

/-- Undoes the escapes of a token. -/
def unescape : List Char → List Char
  | '~' :: '1' :: rest => '/' :: unescape rest
  | '~' :: '0' :: rest => '~' :: unescape rest
  | c :: rest => c :: unescape rest
  | [] => []

/-- The tokens of a pointer. -/
def tokens (pointer : String) : List String :=
  (Text.split '/' pointer.toList).tail.map fun token => String.ofList (unescape token)

end Pointer

/-- The parts of a value with the steps to them, in their order. -/
def children : Json → List (Step × Json)
  | .object members => members.map fun entry => (.key entry.1, entry.2)
  | .array items => items.mapIdx fun i item => (.index i, item)
  | _ => []

/-- The part at the end of a step. -/
def step? (v : Json) : Step → Option Json
  | .key k => v.member? k
  | .index i => v.item? i

/-- The part at the end of a path. -/
def at? (v : Json) : Path → Option Json
  | [] => some v
  | step :: path => (v.step? step).bind (at? · path)

/-- The part of a value that a token names: a member, or an item by its index. -/
def part? (v : Json) (token : String) : Option Json :=
  match v with
  | .object members => Entries.find? token members
  | .array items => (Text.natural? token.toList).bind fun i => items[i]?
  | _ => none

/-- The part of a value at the end of several tokens. -/
def resolve? (v : Json) (tokens : List String) : Option Json :=
  tokens.foldlM part? v

end ResourceApi.Json
