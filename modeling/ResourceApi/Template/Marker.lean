import ResourceApi.Text.Property

/-!
Markers of templates: two opening braces, white space, a path, white space and two closing braces. A
template is a sequence of markers and single characters, found from left to right.
-/

namespace ResourceApi.Template

/-- Characters of the segments of a path. -/
def isPathCharacter (c : Char) : Bool := c.isAlphanum || c = '_' || c = '-'

/-- A marker: its path, as segments, and the white space around it. -/
structure Marker where
  left : List Char
  segments : List (List Char)
  right : List Char
  deriving DecidableEq, Repr, Inhabited

namespace Marker

/-- The path with dots between its segments. -/
def path (m : Marker) : List Char := List.intercalate ['.'] m.segments

/-- The marker as it stands in the template. -/
def written (m : Marker) : List Char :=
  '{' :: '{' :: (m.left ++ m.path ++ m.right ++ ['}', '}'])

end Marker

/-- Reads a path as far as it goes. -/
def segments? (s : List Char) : Option (List (List Char) × List Char) :=
  let segment := s.takeWhile isPathCharacter
  if segment.isEmpty then none
  else
    match h : s.dropWhile isPathCharacter with
    | '.' :: rest =>
      have : rest.length < s.length := by
        have := (List.dropWhile_suffix (l := s) isPathCharacter).length_le
        rw [h, List.length_cons] at this
        omega
      match segments? rest with
      | some (segments, rest) => some (segment :: segments, rest)
      | none => some ([segment], '.' :: rest)
    | rest => some ([segment], rest)
  termination_by s.length

/-- Reads a marker that stands in front. -/
def marker? : List Char → Option (Marker × List Char)
  | '{' :: '{' :: s =>
    match segments? (s.dropWhile Text.isWhiteSpace) with
    | none => none
    | some (segments, rest) =>
      match rest.dropWhile Text.isWhiteSpace with
      | '}' :: '}' :: after =>
        some (⟨s.takeWhile Text.isWhiteSpace, segments, rest.takeWhile Text.isWhiteSpace⟩, after)
      | _ => none
  | _ => none

theorem length_of_segments? {s : List Char} {segments : List (List Char)} {rest : List Char}
    (h : segments? s = some (segments, rest)) : rest.length ≤ s.length := by
  induction hn : s.length using Nat.strongRecOn generalizing s segments rest with
  | ind n ih =>
    have hle := (List.dropWhile_suffix (l := s) isPathCharacter).length_le
    unfold segments? at h
    simp only at h
    split at h
    · cases h
    · split at h
      · rename_i r hr
        rw [hr, List.length_cons] at hle
        split at h
        · rename_i ss t ht
          simp only [Option.some.injEq, Prod.mk.injEq] at h
          have := ih r.length (by omega) ht rfl
          rw [← h.2]
          omega
        · simp only [Option.some.injEq, Prod.mk.injEq] at h
          rw [← h.2, List.length_cons]
          omega
      · simp only [Option.some.injEq, Prod.mk.injEq] at h
        rw [← h.2]
        omega

/-- A marker takes some of the text. -/
theorem length_of_marker? {s : List Char} {m : Marker} {rest : List Char}
    (h : marker? s = some (m, rest)) : rest.length < s.length := by
  unfold marker? at h
  split at h
  · rename_i t
    split at h
    · cases h
    · rename_i segments r hr
      split at h
      · rename_i after ha
        simp only [Option.some.injEq, Prod.mk.injEq] at h
        have h₁ := length_of_segments? hr
        have h₂ := (List.dropWhile_suffix (l := t) Text.isWhiteSpace).length_le
        have h₃ := (List.dropWhile_suffix (l := r) Text.isWhiteSpace).length_le
        rw [ha] at h₃
        simp only [List.length_cons] at h₃ ⊢
        rw [← h.2]
        omega
      · cases h
  · cases h

/-- A part of a template. -/
inductive Piece where
  | character (c : Char)
  | marker (m : Marker)
  deriving DecidableEq, Repr, Inhabited

/-- The piece as it stands in the template. -/
def Piece.written : Piece → List Char
  | .character c => [c]
  | .marker m => m.written

def Piece.marker? : Piece → Option Marker
  | .character _ => none
  | .marker m => some m

/-- The pieces of a template. -/
def pieces : List Char → List Piece
  | [] => []
  | c :: rest =>
    match h : Template.marker? (c :: rest) with
    | some (m, after) =>
      have : after.length < (c :: rest).length := length_of_marker? h
      .marker m :: pieces after
    | none => .character c :: pieces rest
  termination_by s => s.length
  decreasing_by
    · exact this
    · exact Nat.lt_succ_self rest.length

/-- The markers of a template in their order. -/
def markers (template : String) : List Marker := (pieces template.toList).filterMap Piece.marker?

end ResourceApi.Template
