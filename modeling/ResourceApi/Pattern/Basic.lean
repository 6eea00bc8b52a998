import ResourceApi.Pattern.CharSet

/-!
Regular expressions and the places where they match. A match is followed from one place of the text
to all the places where it can end; a text is matched if some place in it starts a match.
-/

namespace ResourceApi

namespace Pattern

/-- Conditions on a place in the text. -/
inductive Anchor where
  | textStart
  | textEnd
  | lineStart (crlf : Bool)
  | lineEnd (crlf : Bool)
  | wordBoundary (ascii : Bool)
  | notWordBoundary (ascii : Bool)
  | wordStart (ascii : Bool)
  | wordEnd (ascii : Bool)
  | wordStartHalf (ascii : Bool)
  | wordEndHalf (ascii : Bool)
  deriving DecidableEq, Repr, Inhabited

end Pattern

/-- A regular expression. -/
inductive Pattern where
  | empty
  | one (set : Pattern.CharSet)
  | anchor (a : Pattern.Anchor)
  | seq (p q : Pattern)
  | alt (p q : Pattern)
  | many (least : Nat) (most : Option Nat) (p : Pattern)
  | group (n : Nat) (p : Pattern)
  | again (n : Nat) (anyCase : Bool)
  | look (ahead negative : Bool) (p : Pattern)
  deriving DecidableEq, Repr, Inhabited

namespace Pattern

/-- A place in the text and what the groups before it have matched. -/
structure Place where
  offset : Nat
  groups : List (Nat × List Char)
  deriving DecidableEq, Repr, Inhabited

def isWordAt (ascii : Bool) (c : Option Char) : Bool :=
  match c with
  | some c => (if ascii then Named.asciiWord else Named.word).contains c
  | none => false

/-- Whether a condition holds between two characters of the text, or at an end of it. -/
def Anchor.holds (a : Anchor) (before after : Option Char) : Bool :=
  match a with
  | .textStart => before.isNone
  | .textEnd => after.isNone
  | .lineStart crlf =>
    match before with
    | none => true
    | some c => c = '\n' || (crlf && c = '\r' && after ≠ some '\n')
  | .lineEnd crlf =>
    match after with
    | none => true
    | some c => (c = '\n' && !(crlf && before = some '\r')) || (crlf && c = '\r')
  | .wordBoundary ascii => isWordAt ascii before != isWordAt ascii after
  | .notWordBoundary ascii => isWordAt ascii before == isWordAt ascii after
  | .wordStart ascii => !isWordAt ascii before && isWordAt ascii after
  | .wordEnd ascii => isWordAt ascii before && !isWordAt ascii after
  | .wordStartHalf ascii => !isWordAt ascii before
  | .wordEndHalf ascii => !isWordAt ascii after

/-- The character in front of a place. -/
def before (text : Array Char) (i : Nat) : Option Char :=
  if i = 0 then none else text[i - 1]?

/-- All places that can be reached by steps, those given included. -/
def closure (step : Place → List Place) : Nat → List Place → List Place → List Place
  | 0, _, done => done
  | _, [], done => done
  | fuel + 1, frontier, done =>
    let fresh := ((frontier.flatMap step).eraseDups).filter fun p => !done.contains p
    closure step fuel fresh (done ++ fresh)

/-- The places after exactly so many steps. -/
def iterate (step : Place → List Place) : Nat → List Place → List Place
  | 0, places => places
  | n + 1, places => iterate step n ((places.flatMap step).eraseDups)

/-- The places after at most so many steps. -/
def atMost (step : Place → List Place) (n : Nat) (places : List Place) : List Place :=
  closure step n places places

/-- Whether two characters are equal, or differ in case only where that does not count. -/
def sameCharacter (anyCase : Bool) (a b : Char) : Bool :=
  a = b || (anyCase && Text.foldCase a = Text.foldCase b)

/-- The places where a match that starts at a place can end. -/
def ends (text : Array Char) : Pattern → Place → List Place
  | .empty, p => [p]
  | .one set, p =>
    match text[p.offset]? with
    | some c => if set.contains c then [{ p with offset := p.offset + 1 }] else []
    | none => []
  | .anchor a, p => if a.holds (before text p.offset) text[p.offset]? then [p] else []
  | .seq a b, p => ((ends text a p).flatMap (ends text b)).eraseDups
  | .alt a b, p => (ends text a p ++ ends text b p).eraseDups
  | .many least most a, p =>
    let start := iterate (ends text a) least [p]
    match most with
    | some most => atMost (ends text a) (most - least) start
    | none => closure (ends text a) (text.size + 1) start start
  | .group n a, p =>
    (ends text a p).map fun q =>
      { q with groups := (n, (text.extract p.offset q.offset).toList) :: q.groups.filter (·.1 ≠ n) }
  | .again n anyCase, p =>
    match p.groups.lookup n with
    | none => []
    | some chars =>
      let found := (text.extract p.offset (p.offset + chars.length)).toList
      if found.length = chars.length
          ∧ (found.zip chars).all (fun x => sameCharacter anyCase x.1 x.2)
      then [{ p with offset := p.offset + chars.length }] else []
  | .look true negative a, p => if (ends text a p).isEmpty == negative then [p] else []
  | .look false negative a, p =>
    let found := (List.range (p.offset + 1)).any fun i =>
      (ends text a { p with offset := i }).any fun q => q.offset = p.offset
    if found == negative then [] else [p]

/-- Whether the text has a part that the pattern matches. -/
def matchesIn (pattern : Pattern) (text : String) : Bool :=
  let chars := text.toList.toArray
  (List.range (chars.size + 1)).any fun i => !(ends chars pattern ⟨i, []⟩).isEmpty

end Pattern

end ResourceApi
