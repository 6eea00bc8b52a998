import ResourceApi.Json.Record
import ResourceApi.Proofs.Json.Leniency

/-!
Why reading fails. Whatever does not depend on what is expected fails for a reason of syntax: the
parts of the strict reader, passing over a value, and what stands between values. So a failure that
names a field comes from a record.
-/

namespace ResourceApi.Json

open Reader

/-- The text is no JSON or is beyond a limit, whatever is expected of it. -/
def Cause.isSyntax : Cause → Bool
  | .missingField _ | .duplicateField _ | .unknownVariant _ _ | .invalidType _ _
  | .invalidValue _ _ | .invalidLength _ _ | .noVariant _ | .custom _ => false
  | _ => true

theorem Failure.cause_place (f : Failure) (s : List Char) : (f.place s).cause = f.cause := by
  unfold place
  split <;> rfl

/-- A failure, if this is one, has a cause of this kind. -/
def FailsFor (kind : Cause → Bool) {α : Type} (r : Except Failure α) : Prop :=
  ∀ ⦃f⦄, r = .error f → kind f.cause = true

namespace FailsFor

variable {α β : Type} {kind other : Cause → Bool} {r : Except Failure α}

theorem ok (a : α) : FailsFor kind (.ok a) := by
  rintro f ⟨⟩

theorem error {f : Failure} (h : kind f.cause = true) :
    FailsFor kind (.error f : Except Failure α) := by
  rintro g ⟨⟩
  exact h

/-- A failure keeps its cause when it is handed on. -/
theorem pass (h : FailsFor kind r) {f : Failure} (hf : r = .error f) :
    FailsFor kind (.error f : Except Failure β) := .error (h hf)

theorem map (h : FailsFor kind r) (g : α → β) : FailsFor kind (r.map g) := by
  cases r with
  | ok a => exact .ok _
  | error f => exact h.pass rfl

theorem mono (h : FailsFor kind r) (hkind : ∀ cause, kind cause = true → other cause = true) :
    FailsFor other r := fun _ hf => hkind _ (h hf)

end FailsFor

/-- A failure, if this is one, is of syntax. -/
abbrev Syntactic {α : Type} (r : Except Failure α) : Prop := FailsFor Cause.isSyntax r

/-! ### Words, strings and numbers -/

theorem syntactic_word (w s : List Char) : Syntactic (word w s) := by
  induction w generalizing s with
  | nil => exact .ok _
  | cons expected w ih =>
      cases s with
      | nil => exact .error rfl
      | cons c s =>
          rw [word]
          split
          · exact ih s
          · exact .error rfl

theorem syntactic_hexUnit (s : List Char) : Syntactic (hexUnit s) := by
  unfold hexUnit
  dsimp only
  split
  · exact .error rfl
  · split
    · split
      · exact .ok _
      · exact .error rfl
    · exact .error rfl

theorem syntactic_unicodeEscape (s : List Char) : Syntactic (unicodeEscape s) := by
  unfold unicodeEscape
  split
  · rename_i hunit
    exact (syntactic_hexUnit s).pass hunit
  split
  · exact .error rfl
  split
  · exact .ok _
  -- A second unit has to follow.
  split
  · exact .error rfl
  · exact .error rfl
  · split
    · rename_i hlow
      exact (syntactic_hexUnit _).pass hlow
    · split
      · exact .error rfl
      · exact .ok _
  · exact .error rfl
  · exact .error rfl

theorem syntactic_escape (s : List Char) : Syntactic (escape s) := by
  unfold escape
  split
  · exact .error rfl
  · exact syntactic_unicodeEscape _
  · split
    · exact .ok _
    · exact .error rfl

theorem syntactic_stringBody (fuel : Nat) (done s : List Char) :
    Syntactic (stringBody fuel done s) := by
  induction fuel generalizing done s with
  | zero => exact .error rfl
  | succ fuel ih =>
      cases s with
      | nil => exact .error rfl
      | cons c s =>
          rw [stringBody]
          split
          · exact .ok _
          split
          · split
            · rename_i hescape
              exact (syntactic_escape s).pass hescape
            · exact ih _ _
          split
          · exact .error rfl
          · exact ih _ _

theorem syntactic_string (s : List Char) : Syntactic (Reader.string s) := by
  unfold Reader.string
  split
  · rename_i hbody
    exact (syntactic_stringBody _ _ s).pass hbody
  · exact .ok _

section Numbers

variable {negative : Bool} {digits : Nat} {e : Int}

theorem syntactic_double (s : List Char) : Syntactic (double negative digits e s) := by
  unfold double
  split
  · exact .error rfl
  · exact .ok _

theorem syntactic_exponentPart (s : List Char) :
    Syntactic (exponentPart negative digits e s) := by
  unfold exponentPart
  split
  split
  · exact .error rfl
  split
  · split
    split
    · split
      · split
        · exact .error rfl
        · exact .ok _
      · exact syntactic_double _
    · exact syntactic_double _
  · exact .error rfl

theorem syntactic_exponentPart? (s : List Char) :
    Syntactic (exponentPart? negative digits e s) := by
  unfold exponentPart?
  split
  · exact syntactic_exponentPart _
  · exact syntactic_exponentPart _
  · exact syntactic_double _

theorem syntactic_fractionPart (s : List Char) :
    Syntactic (fractionPart negative digits e s) := by
  unfold fractionPart
  dsimp only
  split
  · exact syntactic_exponentPart? _
  split
  · split
    · exact .error rfl
    · exact .error rfl
  · exact syntactic_exponentPart? _

theorem syntactic_afterInteger (n : Nat) (s : List Char) :
    Syntactic (afterInteger negative n s) := by
  unfold afterInteger
  split
  · exact syntactic_fractionPart _
  · exact syntactic_exponentPart _
  · exact syntactic_exponentPart _
  · split
    · split <;> exact .ok _
    · exact .ok _

theorem syntactic_number (s : List Char) : Syntactic (Reader.number negative s) := by
  unfold Reader.number
  split
  · exact .error rfl
  split
  · split
    · exact .error rfl
    · exact syntactic_afterInteger _ _
  split
  · dsimp only
    split
    · split
      · exact syntactic_fractionPart _
      · exact syntactic_exponentPart? _
    · exact syntactic_afterInteger _ _
  · exact .error rfl

end Numbers

/-! ### Between values -/

theorem syntactic_colon (s : List Char) : Syntactic (colon s) := by
  unfold colon
  split
  · exact .ok _
  · exact .error rfl
  · exact .error rfl

theorem syntactic_nextItem (first : Bool) (s : List Char) : Syntactic (nextItem first s) := by
  unfold nextItem
  split
  · exact .error rfl
  · exact .ok _
  split
  · exact .ok _
  split
  · split
    · exact .error rfl
    · exact .error rfl
    · exact .ok _
  · exact .error rfl

theorem syntactic_keyHere (s : List Char) : Syntactic (keyHere s) := by
  unfold keyHere
  split
  · split
    · rename_i hstring
      exact (syntactic_string _).pass hstring
    · exact .ok _
  · exact .error rfl
  · exact .error rfl
  · exact .error rfl

theorem syntactic_nextKey (first : Bool) (s : List Char) : Syntactic (nextKey first s) := by
  rw [nextKey_eq]
  split
  · exact .error rfl
  · exact .ok _
  split
  · exact syntactic_keyHere _
  split
  · exact syntactic_keyHere _
  · exact .error rfl

theorem isSyntax_of_closeArray {s rest : List Char} {f : Failure}
    (h : closeArray s = (some f, rest)) : f.cause.isSyntax = true := by
  unfold closeArray at h
  split at h
  · cases h
  · dsimp only at h
    split at h
    · cases h
      rfl
    · cases h
      rfl
  · cases h
    rfl
  · cases h
    rfl

theorem isSyntax_of_closeObject {s rest : List Char} {f : Failure}
    (h : closeObject s = (some f, rest)) : f.cause.isSyntax = true := by
  unfold closeObject at h
  split at h
  · cases h
  · cases h
    rfl
  · cases h
    rfl
  · cases h
    rfl

/-! ### Passing over values -/

theorem syntactic_skipString (fuel : Nat) (s : List Char) : Syntactic (skipString fuel s) := by
  induction fuel generalizing s with
  | zero => exact .error rfl
  | succ fuel ih =>
      cases s with
      | nil => exact .error rfl
      | cons c s =>
          rw [skipString.eq_def]
          dsimp only
          split
          · exact .ok _
          split
          · split
            · exact .error rfl
            · split
              · rename_i hunit
                exact (syntactic_hexUnit _).pass hunit
              · exact ih _
            · split
              · exact ih _
              · exact .error rfl
          split
          · exact .error rfl
          · exact ih _

theorem syntactic_skipExponent (s : List Char) : Syntactic (skipExponent s) := by
  unfold skipExponent
  extract_lets unsigned
  split
  · exact .ok _
  · exact .error rfl

theorem syntactic_skipExponent? (s : List Char) : Syntactic (skipExponent? s) := by
  unfold skipExponent?
  split
  · exact syntactic_skipExponent _
  · exact syntactic_skipExponent _
  · exact .ok _

theorem syntactic_skipFraction (s : List Char) : Syntactic (skipFraction s) := by
  unfold skipFraction
  split
  · split
    · exact syntactic_skipExponent? _
    · exact .error rfl
  · exact syntactic_skipExponent? _

theorem syntactic_skipNumber (s : List Char) : Syntactic (skipNumber s) := by
  cases s with
  | nil => exact .error rfl
  | cons c s =>
      rw [skipNumber_cons]
      split
      · split
        · exact .error rfl
        · exact syntactic_skipFraction s
      split
      · exact syntactic_skipFraction _
      · exact .error rfl

theorem syntactic_skipKey (s : List Char) : Syntactic (skipKey s) := by
  unfold skipKey
  split
  · split
    · rename_i hstring
      exact (syntactic_skipString _ _).pass hstring
    · exact syntactic_colon _
  · exact .error rfl
  · exact .error rfl

theorem syntactic_enter (frame : Frame) (frames : List Frame) (s : List Char) :
    Syntactic (enter frame frames s) := by
  cases frame with
  | array => exact .ok _
  | object => exact (syntactic_skipKey s).map _

theorem syntactic_skipBetween (comma : Bool) (frames : List Frame) (s : List Char) :
    Syntactic (skipBetween comma frames s) := by
  fun_induction skipBetween comma frames s with
  | case1 => exact .ok _
  | case2 | case3 | case7 | case8 => exact .error rfl
  | case4 | case5 => assumption
  | case6 | case9 => exact syntactic_enter _ _ _

section Loop

variable {fuel : Nat} {frames : List Frame}

theorem syntactic_goOn (h : ∀ frames s, Syntactic (skipValues fuel frames s)) (comma : Bool)
    (s : List Char) : Syntactic (goOn comma fuel frames s) := by
  unfold goOn
  split
  · rename_i hbetween
    exact (syntactic_skipBetween _ _ s).pass hbetween
  · exact .ok _
  · exact h _ _

theorem syntactic_goOnBehind (h : ∀ frames s, Syntactic (skipValues fuel frames s))
    {r : Except Failure (Unit × List Char)} (hr : Syntactic r) :
    Syntactic (goOnBehind fuel frames r) := by
  cases r with
  | error f => exact hr.pass rfl
  | ok p => exact syntactic_goOn h true p.2

theorem syntactic_skipValues (fuel : Nat) (frames : List Frame) (s : List Char) :
    Syntactic (skipValues fuel frames s) := by
  induction fuel generalizing frames s with
  | zero => exact .error rfl
  | succ fuel ih =>
      rw [skipValues]
      dsimp only
      split
      · exact .error rfl
      split
      · exact syntactic_goOnBehind ih (syntactic_word _ _)
      split
      · exact syntactic_goOnBehind ih (syntactic_word _ _)
      split
      · exact syntactic_goOnBehind ih (syntactic_word _ _)
      split
      · exact syntactic_goOnBehind ih (syntactic_skipNumber _)
      split
      · exact syntactic_goOnBehind ih (syntactic_skipNumber _)
      split
      · exact syntactic_goOnBehind ih (syntactic_skipString _ _)
      split
      · exact syntactic_goOn ih _ _
      split
      · exact syntactic_goOn ih _ _
      · exact .error rfl

end Loop

theorem syntactic_skipValue (s : List Char) : Syntactic (skipValue s) := syntactic_skipValues _ _ s

/-! ### Values of other kinds -/

/-- The failure for what is read instead of what is expected. -/
def foundInstead (expected : String) : Except Failure (Found × List Char) → Failure
  | .error f => f
  | .ok (found, rest) => .behind (.invalidType found expected) rest

/-- The cause is of syntax, or it is that something else is expected. -/
def Cause.IsMismatch (expected : String) (cause : Cause) : Prop :=
  cause.isSyntax = true ∨ ∃ found, cause = .invalidType found expected

theorem isMismatch_foundInstead {r : Except Failure (Found × List Char)} (h : Syntactic r)
    (expected : String) : (foundInstead expected r).cause.IsMismatch expected := by
  cases r with
  | error f => exact .inl (h rfl)
  | ok p => exact .inr ⟨p.1, rfl⟩

theorem isMismatch_unexpected (expected : String) (s : List Char) :
    (Reader.unexpected expected s).cause.IsMismatch expected := by
  rw [Reader.unexpected]
  dsimp only
  split
  · exact .inl rfl
  split
  · exact isMismatch_foundInstead ((syntactic_word _ _).map _) expected
  split
  · exact isMismatch_foundInstead ((syntactic_word _ _).map _) expected
  split
  · exact isMismatch_foundInstead ((syntactic_word _ _).map _) expected
  split
  · exact isMismatch_foundInstead ((syntactic_number _).map _) expected
  split
  · exact isMismatch_foundInstead ((syntactic_number _).map _) expected
  split
  · exact isMismatch_foundInstead ((syntactic_string _).map _) expected
  split
  · exact .inr ⟨_, rfl⟩
  split
  · exact .inr ⟨_, rfl⟩
  · exact .inl rfl

theorem cause_unexpected (expected name : String) (s : List Char) :
    (Reader.unexpected expected s).cause ≠ .missingField name := by
  intro hcause
  rcases isMismatch_unexpected expected s with hsyntax | ⟨found, hfound⟩
  · rw [hcause] at hsyntax
    cases hsyntax
  · rw [hcause] at hfound
    cases hfound

end ResourceApi.Json
