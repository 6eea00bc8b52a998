import ResourceApi.Proofs.Json.Skipping

/-!
Limits of the strict reader: a number out of range, a value nested too deep, and a surrogate that is
no part of a pair. They are no faults of grammar. Where a string or a number is passed over, the
strict reader gets to the same place or fails at one of them.
-/

namespace ResourceApi.Json

open Reader

/-- Failures that are no faults of grammar, but limits of what the strict reader can hold. -/
def Cause.isLimit : Cause → Bool
  | .numberOutOfRange | .tooDeep | .surrogateLone | .surrogateUnpaired => true
  | _ => false

/-- A failure at a limit; it is placed where it arises. -/
structure Failure.AtLimit (f : Failure) : Prop where
  placed : f.placed = true
  isLimit : f.cause.isLimit = true

/-- A reader has got to a place, or it has failed at a limit. -/
inductive GetsTo {α : Type} (rest : List Char) : Except Failure (α × List Char) → Prop where
  | read (a : α) : GetsTo rest (.ok (a, rest))
  | limit {f : Failure} (h : f.AtLimit) : GetsTo rest (.error f)

section Outcomes

variable {α β : Type} {rest : List Char} {r : Except Failure (α × List Char)}

theorem GetsTo.map (h : GetsTo rest r) (g : α → β) :
    GetsTo rest (r.map fun p => (g p.1, p.2)) := by
  cases h with
  | read a => exact .read (g a)
  | limit h => exact .limit h

end Outcomes

/-! ### Strings -/

/-- What stands behind a backslash, and the rest of the string. -/
def skipEscape (fuel : Nat) : Reader Unit
  | [] => .error (.behind .endInString [])
  | 'u' :: s =>
    match hexUnit s with
    | .error f => .error f
    | .ok (_, s) => skipString fuel s
  | e :: s =>
    if (simpleEscape? e).isSome then skipString fuel s else .error (.ahead1 .escapeUnknown (e :: s))

theorem skipString_cons (fuel : Nat) (c : Char) (s : List Char) :
    skipString (fuel + 1) (c :: s) =
      if c = '"' then .ok ((), s)
      else if c = '\\' then skipEscape fuel s
      else if c.toNat < 32 then .error (.behind .controlCharacter (c :: s))
      else skipString fuel s := rfl

theorem skipEscape_unit {fuel : Nat} {s rest : List Char}
    (h : skipEscape fuel ('u' :: s) = .ok ((), rest)) :
    ∃ unit t, hexUnit s = .ok (unit, t) ∧ skipString fuel t = .ok ((), rest) := by
  rw [skipEscape] at h
  split at h
  · cases h
  · rename_i unit t hunit
    exact ⟨unit, t, hunit, h⟩

/-- Behind the first half of a pair the second half is passed over as one more escape. -/
theorem unicodeEscape_of_skipString {fuel unit : Nat} {s t rest : List Char}
    (hunit : hexUnit s = .ok (unit, t)) (h : skipString fuel t = .ok ((), rest)) :
    (∃ c u n, n ≤ fuel ∧ unicodeEscape s = .ok (c, u) ∧ skipString n u = .ok ((), rest)) ∨
      ∃ f, unicodeEscape s = .error f ∧ f.AtLimit := by
  simp only [unicodeEscape, hunit]
  split_ifs with hlone hsingle
  · exact .inr ⟨_, rfl, rfl, rfl⟩
  · exact .inl ⟨_, t, fuel, Nat.le_refl fuel, rfl, h⟩
  · obtain ⟨fuel, rfl⟩ : ∃ n, fuel = n + 1 := by
      cases fuel with
      | zero => cases h
      | succ n => exact ⟨n, rfl⟩
    split
    · cases h
    · cases h
    · rename_i t
      obtain ⟨low, u, hlow, hrest⟩ := skipEscape_unit h
      rw [hlow]
      dsimp only
      split_ifs with hpair
      · exact .inr ⟨_, rfl, rfl, rfl⟩
      · exact .inl ⟨_, u, fuel, Nat.le_succ fuel, rfl, hrest⟩
    · exact .inr ⟨_, rfl, rfl, rfl⟩
    · exact .inr ⟨_, rfl, rfl, rfl⟩

theorem escape_of_skipEscape {fuel : Nat} {s rest : List Char}
    (h : skipEscape fuel s = .ok ((), rest)) :
    (∃ c u n, n ≤ fuel ∧ escape s = .ok (c, u) ∧ skipString n u = .ok ((), rest)) ∨
      ∃ f, escape s = .error f ∧ f.AtLimit := by
  cases s with
  | nil => cases h
  | cons e s =>
      by_cases hu : e = 'u'
      · subst hu
        obtain ⟨unit, t, hunit, hrest⟩ := skipEscape_unit h
        exact unicodeEscape_of_skipString hunit hrest
      · left
        unfold skipEscape at h
        split at h
        · cases h
        · rename_i heq
          exact absurd (List.cons.inj heq).1 hu
        · rename_i heq
          obtain ⟨rfl, rfl⟩ := List.cons.inj heq
          split at h
          · rename_i hletter
            obtain ⟨c, hc⟩ := Option.isSome_iff_exists.mp hletter
            refine ⟨c, s, fuel, Nat.le_refl fuel, ?_, h⟩
            unfold escape
            split
            · rename_i heq'
              cases heq'
            · rename_i heq'
              exact absurd (List.cons.inj heq').1 hu
            · rename_i heq'
              obtain ⟨rfl, rfl⟩ := List.cons.inj heq'
              rw [hc]
          · cases h

/-- Where a string is passed over it is read, unless one of its surrogates stands alone. -/
theorem getsTo_stringBody {fuel limit : Nat} {s rest done : List Char} (hfuel : fuel ≤ limit)
    (h : skipString fuel s = .ok ((), rest)) : GetsTo rest (stringBody limit done s) := by
  induction fuel using Nat.strongRecOn generalizing limit s done with
  | ind fuel ih =>
      cases fuel with
      | zero => cases h
      | succ fuel =>
          obtain ⟨limit, rfl⟩ : ∃ n, limit = n + 1 := ⟨limit - 1, by omega⟩
          cases s with
          | nil => cases h
          | cons c s =>
              rw [skipString_cons] at h
              rw [stringBody]
              split_ifs at h ⊢ with hquote hslash hcontrol
              · obtain ⟨-, rfl⟩ := Prod.mk.inj (Except.ok.inj h)
                exact .read _
              · rcases escape_of_skipEscape h with ⟨d, u, n, hn, hescape, hrest⟩ |
                  ⟨f, hescape, hlimit⟩
                · rw [hescape]
                  exact ih n (by omega) (by omega) hrest
                · rw [hescape]
                  exact .limit hlimit
              · exact ih fuel (by omega) (by omega) h

theorem getsTo_string {s rest : List Char} (h : skipString (s.length + 1) s = .ok ((), rest)) :
    GetsTo rest (Reader.string s) := by
  have hbody : GetsTo rest (stringBody (s.length + 1) [] s) :=
    getsTo_stringBody (Nat.le_refl _) h
  rw [Reader.string]
  cases hread : stringBody (s.length + 1) [] s with
  | error f =>
      rw [hread] at hbody
      cases hbody with
      | limit h => exact .limit h
  | ok r =>
      rw [hread] at hbody
      cases hbody with
      | read chars => exact .read _

/-! ### Numbers -/

section Numbers

variable {negative : Bool} {digits : Nat} {e : Int} {s rest : List Char}

theorem getsTo_double (negative : Bool) (digits : Nat) (e : Int) (s : List Char) :
    GetsTo s (double negative digits e s) := by
  rw [double]
  cases scale 8 (Binary64.ofInt digits) e with
  | none => exact .limit ⟨rfl, rfl⟩
  | some x => exact .read _

theorem dropWhile_gather {limit n count m total : Nat} {s t : List Char}
    (h : gather limit n count s = (m, total, t)) : s.dropWhile isDigit = t.dropWhile isDigit := by
  obtain ⟨ds, rfl, hds, -, -⟩ := gather_split h
  exact List.dropWhile_append_of_pos hds

theorem dropWhile_of_not_digit {s : List Char} (h : startsWithDigit s = false) :
    s.dropWhile isDigit = s := by
  cases s with
  | nil => rfl
  | cons c s => exact List.dropWhile_cons_of_neg (by simpa [startsWithDigit] using h)

theorem getsTo_exponentDigits {down : Bool} (hs : startsWithDigit s = true) :
    GetsTo (s.dropWhile isDigit) (exponentDigits negative digits e down s) := by
  cases s with
  | nil => cases hs
  | cons c s =>
      change isDigit c = true at hs
      rcases hgather : gather exponentLimit (digitValue c) 1 s with ⟨n, count, r⟩
      have hdrop := dropWhile_gather hgather
      rw [List.dropWhile_cons_of_pos hs, hdrop]
      cases hr : startsWithDigit r with
      | false =>
          rw [exponentDigits_of_fit hs hgather hr, dropWhile_of_not_digit hr]
          exact getsTo_double _ _ _ _
      | true =>
          cases r with
          | nil => cases hr
          | cons d more =>
              change isDigit d = true at hr
              simp only [exponentDigits, hs, if_true, hgather, hr]
              rw [List.dropWhile_cons_of_pos hr]
              split
              · exact .limit ⟨rfl, rfl⟩
              · exact .read _

/-- Behind the sign of an exponent both readers want a digit. -/
theorem exponentPart_skipExponent (negative : Bool) (digits : Nat) (e : Int) (s : List Char) :
    ∃ down t, exponentPart negative digits e s = exponentDigits negative digits e down t ∧
      skipExponent s = if startsWithDigit t then .ok ((), t.dropWhile isDigit)
        else .error (.ahead1 .numberMalformed t) := by
  unfold skipExponent
  split
  · exact ⟨false, _, rfl, rfl⟩
  · exact ⟨true, _, rfl, rfl⟩
  · rename_i hplus hminus
    refine ⟨false, s, ?_, rfl⟩
    unfold exponentPart
    split
    rename_i heq
    split at heq
    · exact absurd rfl (hplus _)
    · exact absurd rfl (hminus _)
    · obtain ⟨rfl, rfl⟩ := Prod.mk.inj heq
      rfl

theorem getsTo_exponentPart (h : skipExponent s = .ok ((), rest)) :
    GetsTo rest (exponentPart negative digits e s) := by
  obtain ⟨down, t, heq, hskip⟩ := exponentPart_skipExponent negative digits e s
  rw [hskip] at h
  split at h
  · rename_i hdigit
    obtain ⟨-, rfl⟩ := Prod.mk.inj (Except.ok.inj h)
    rw [heq]
    exact getsTo_exponentDigits hdigit
  · cases h

theorem getsTo_exponentPart? (h : skipExponent? s = .ok ((), rest)) :
    GetsTo rest (exponentPart? negative digits e s) := by
  unfold skipExponent? at h
  split at h
  · exact getsTo_exponentPart h
  · exact getsTo_exponentPart h
  · rename_i hlow hup
    obtain ⟨-, rfl⟩ := Prod.mk.inj (Except.ok.inj h)
    rw [exponentPart?_of_no_mark]
    · exact getsTo_double _ _ _ _
    · intro hhead
      obtain ⟨t, rfl⟩ := List.head?_eq_some_iff.mp hhead
      exact hlow t rfl
    · intro hhead
      obtain ⟨t, rfl⟩ := List.head?_eq_some_iff.mp hhead
      exact hup t rfl

theorem getsTo_fractionPart (hs : startsWithDigit s = true)
    (h : skipExponent? (s.dropWhile isDigit) = .ok ((), rest)) :
    GetsTo rest (fractionPart negative digits e s) := by
  rcases hgather : gather integerLimit digits 0 s with ⟨n, count, r⟩
  have hdrop := dropWhile_gather hgather
  rw [hdrop] at h
  simp only [fractionPart, hgather]
  cases hr : startsWithDigit r with
  | true =>
      rw [if_pos rfl]
      exact getsTo_exponentPart? h
  | false =>
      obtain ⟨ds, rfl, -, hcount, -⟩ := gather_split hgather
      have hne : count ≠ 0 := by
        intro hzero
        have hnil : ds = [] := List.length_eq_zero_iff.mp (by omega)
        rw [hnil, List.nil_append, hr] at hs
        cases hs
      rw [dropWhile_of_not_digit hr] at h
      rw [if_neg (by decide), if_neg hne]
      exact getsTo_exponentPart? h

/-- Behind the integer part: a fraction, an exponent or the end of the number. -/
theorem getsTo_afterInteger {n : Nat} (h : skipFraction s = .ok ((), rest)) :
    GetsTo rest (afterInteger negative n s) := by
  unfold skipFraction at h
  split at h
  · split at h
    · rename_i hdigit
      exact getsTo_fractionPart hdigit h
    · cases h
  · rename_i hpoint
    unfold skipExponent? at h
    split at h
    · exact getsTo_exponentPart h
    · exact getsTo_exponentPart h
    · rename_i hlow hup
      obtain ⟨-, rfl⟩ := Prod.mk.inj (Except.ok.inj h)
      unfold afterInteger
      split
      · exact absurd rfl (hpoint _)
      · exact absurd rfl (hlow _)
      · exact absurd rfl (hup _)
      · split_ifs
        · exact .read _
        · exact .read _
        · exact .read _

/-- Where a number is passed over it is read, unless it is out of range. -/
theorem getsTo_number (h : skipNumber s = .ok ((), rest)) :
    GetsTo rest (Reader.number negative s) := by
  cases s with
  | nil => cases h
  | cons c s =>
      rw [skipNumber_cons] at h
      rw [Reader.number]
      split_ifs at h ⊢ with hzero hdigit hdigit
      · exact getsTo_afterInteger h
      · rcases hgather : gather integerLimit (digitValue c) 1 s with ⟨n, count, r⟩
        have hdrop := dropWhile_gather hgather
        rw [hdrop] at h
        dsimp only
        cases hr : startsWithDigit r with
        | false =>
            rw [dropWhile_of_not_digit hr] at h
            exact getsTo_afterInteger h
        | true =>
            -- The digits that did not fit are dropped, and the number goes on behind them.
            rw [if_pos rfl]
            split
            · rename_i hpoint
              rw [hpoint] at h
              rw [skipFraction] at h
              split at h
              · rename_i hfraction
                exact getsTo_fractionPart hfraction h
              · cases h
            · rename_i hpoint
              unfold skipFraction at h
              split at h
              · rename_i heq
                exact absurd heq (hpoint _)
              · exact getsTo_exponentPart? h

end Numbers

end ResourceApi.Json
