import ResourceApi.Json.Pointer
import ResourceApi.Text.Trim

/-!
Selectors pick parts of a JSON value. They start with `$` and go on by `.key`, `['key']`, `[n]`,
the wildcards `.*` and `[*]`, and `..key` for a key at any depth.
-/

namespace ResourceApi.Json

namespace Selector

/-- One piece of a selector. -/
inductive Segment where
  | child (name : String)
  | index (n : Nat)
  | wildcard
  | descendant (name : String)
  deriving DecidableEq, Repr, Inhabited

end Selector

/-- A selector with the text it was read from. -/
structure Selector where
  source : String
  segments : List Selector.Segment
  deriving DecidableEq, Repr, Inhabited

/-- A part of a value and the path to it. -/
structure Selected where
  path : Path
  value : Json
  deriving Repr, Inhabited

def Selected.pointer (s : Selected) : String := Pointer.ofPath s.path

namespace Selector

/-- Why a text is no selector. -/
inductive Cause where
  | dollarExpected
  | nameExpectedAfterDots
  | nameExpectedAfterDot
  | bracketUnclosed
  | bracketMalformed
  | characterUnexpected
  deriving DecidableEq, Repr, Inhabited

def Cause.message : Cause → String
  | .dollarExpected => "must start with '$'"
  | .nameExpectedAfterDots => "expected a name after '..'"
  | .nameExpectedAfterDot => "expected a name after '.'"
  | .bracketUnclosed => "unclosed '['"
  | .bracketMalformed => "bad bracket expression"
  | .characterUnexpected => "unexpected character"

/-- A text that is no selector, and why. -/
structure Error where
  source : String
  cause : Cause
  deriving DecidableEq, Repr, Inhabited

def Error.message (e : Error) : String :=
  "Invalid selector '" ++ e.source ++ "': " ++ e.cause.message

/-- Names go up to the next dot or opening bracket. -/
def isNameCharacter (c : Char) : Bool := c ≠ '.' && c ≠ '['

/-- The text between two quotes of one kind. -/
def unquote? (q : Char) : List Char → Option (List Char)
  | [] => none
  | c :: rest =>
    if c = q then
      match rest.reverse with
      | d :: inner => if d = q then some inner.reverse else none
      | [] => none
    else none

/-- What stands between brackets: a star, an index or a quoted name. -/
def bracket? (inner : List Char) : Option Segment :=
  if inner = ['*'] then some .wildcard
  else match Text.natural? inner with
    | some n => some (.index n)
    | none => ((unquote? '\'' inner).or (unquote? '"' inner)).map
        fun name => .child (String.ofList name)

/-- The segments of a selector behind its `$`. -/
def segmentsOf : Nat → List Char → Except Cause (List Segment)
  | _, [] => .ok []
  | 0, _ :: _ => .error .characterUnexpected
  | fuel + 1, '.' :: '.' :: rest =>
    let name := rest.takeWhile isNameCharacter
    if name.isEmpty then .error .nameExpectedAfterDots
    else (segmentsOf fuel (rest.dropWhile isNameCharacter)).map
      (.descendant (String.ofList name) :: ·)
  | fuel + 1, '.' :: '*' :: rest => (segmentsOf fuel rest).map (.wildcard :: ·)
  | fuel + 1, '.' :: rest =>
    let name := rest.takeWhile isNameCharacter
    if name.isEmpty then .error .nameExpectedAfterDot
    else (segmentsOf fuel (rest.dropWhile isNameCharacter)).map (.child (String.ofList name) :: ·)
  | fuel + 1, '[' :: rest =>
    match rest.dropWhile (· ≠ ']') with
    | [] => .error .bracketUnclosed
    | _ :: after =>
      match bracket? (Text.trim (rest.takeWhile (· ≠ ']'))) with
      | none => .error .bracketMalformed
      | some segment => (segmentsOf fuel after).map (segment :: ·)
  | _ + 1, _ :: _ => .error .characterUnexpected

/-- Reads a selector; white space around it does not count. -/
def parse (source : String) : Except Error Selector :=
  match Text.trim source.toList with
  | '$' :: rest =>
    match segmentsOf rest.length rest with
    | .ok segments => .ok ⟨source, segments⟩
    | .error cause => .error ⟨source, cause⟩
  | _ => .error ⟨source, .dollarExpected⟩

/-! ### Selecting -/

/-- The member of an object with a key, as a list of at most one part. -/
def childAt (name : String) (s : Selected) : List Selected :=
  ((s.value.member? name).map fun v => ⟨s.path ++ [.key name], v⟩).toList

mutual

/-- All members with a key at any depth: the one of the value itself, then those inside its parts
from the first part to the last. -/
def descend (name : String) (path : Path) : Json → List Selected
  | .object ms =>
    childAt name ⟨path, .object ms⟩ ++ descendMembers name path ms
  | .array items => descendItems name path 0 items
  | _ => []

def descendItems (name : String) (path : Path) (index : Nat) : List Json → List Selected
  | [] => []
  | item :: items =>
    descend name (path ++ [.index index]) item ++ descendItems name path (index + 1) items

def descendMembers (name : String) (path : Path) : List (String × Json) → List Selected
  | [] => []
  | entry :: ms => descendMember name path entry ++ descendMembers name path ms

def descendMember (name : String) (path : Path) : String × Json → List Selected
  | (key, v) => descend name (path ++ [.key key]) v

end

/-- The parts that one segment picks. -/
def Segment.pick (segment : Segment) (s : Selected) : List Selected :=
  match segment with
  | .child name => childAt name s
  | .index n => ((s.value.item? n).map fun v => ⟨s.path ++ [.index n], v⟩).toList
  | .wildcard => s.value.children.map fun part => ⟨s.path ++ [part.1], part.2⟩
  | .descendant name => descend name s.path s.value

/-- The parts of a value that a selector picks, segment by segment. -/
def select (selector : Selector) (root : Json) : List Selected :=
  selector.segments.foldl (fun parts segment => parts.flatMap segment.pick) [⟨[], root⟩]

end Selector

end ResourceApi.Json
