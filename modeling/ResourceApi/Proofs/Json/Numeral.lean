import Mathlib.Tactic.Common
import ResourceApi.Proofs.Json.Grammar

/-!
Numbers are read by their grammar. Each part of the reader that succeeds has consumed a text of its
shape, and it consumes the same text with the same result wherever a number may end behind it.
-/

namespace ResourceApi.Json

open Reader

theorem isDigit_eq (c : Char) : isDigit c = c.isDigit := by
  simp only [isDigit, Char.isDigit, Char.le_def, UInt32.le_iff_toNat_le, ge_iff_le]

/-! ### Where a number may end -/

theorem stops_nil : Stops [] := by
  intro c h
  simp at h

theorem stops_cons {c : Char} {s : List Char} :
    Stops (c :: s) ↔ Spans.isNumberCharacter c = false := by
  simp [Stops]

theorem startsWithDigit_of_stops {s : List Char} (h : Stops s) : startsWithDigit s = false := by
  cases s with
  | nil => rfl
  | cons c s =>
      have hc := stops_cons.mp h
      simp only [Spans.isNumberCharacter, Bool.or_eq_false_iff] at hc
      simp only [startsWithDigit, isDigit_eq, hc]

theorem ne_of_stops {c d : Char} {s : List Char} (h : Stops (c :: s))
    (hd : Spans.isNumberCharacter d = true) : c ≠ d := by
  rintro rfl
  rw [stops_cons.mp h] at hd
  cases hd

theorem startsWithDigit_exponent {e s : List Char} (he : ExponentPart e) (h : Stops s) :
    startsWithDigit (e ++ s) = false := by
  cases he with
  | absent => exact startsWithDigit_of_stops h
  | digits hmark => rcases hmark with rfl | rfl <;> rfl

theorem dropWhile_digits {s t : List Char} (hs : Digits s) (ht : startsWithDigit t = false) :
    (s ++ t).dropWhile isDigit = t := by
  induction s with
  | nil =>
      cases t with
      | nil => rfl
      | cons c t =>
          simp only [startsWithDigit] at ht
          simp [ht]
  | cons c s ih =>
      simp only [Digits, List.mem_cons, forall_eq_or_imp] at hs
      simpa [hs.1] using ih hs.2

theorem takeWhile_digits {s t : List Char} (hs : Digits s) (ht : startsWithDigit t = false) :
    (s ++ t).takeWhile isDigit = s := by
  induction s with
  | nil =>
      cases t with
      | nil => rfl
      | cons c t =>
          simp only [startsWithDigit] at ht
          simp [ht]
  | cons c s ih =>
      simp only [Digits, List.mem_cons, forall_eq_or_imp] at hs
      simpa [hs.1] using ih hs.2

theorem digits_takeWhile (s : List Char) : Digits (s.takeWhile isDigit) :=
  fun _ hc => List.all_eq_true.mp List.all_takeWhile _ hc

theorem startsWithDigit_append {ds t : List Char} (hds : Digits ds) (hne : ds ≠ []) :
    startsWithDigit (ds ++ t) = true := by
  cases ds with
  | nil => exact absurd rfl hne
  | cons d ds => exact hds d List.mem_cons_self

theorem takeWhile_of_startsWithDigit {s : List Char} (h : startsWithDigit s = true) :
    s.takeWhile isDigit ≠ [] ∧ ∀ t, (s.takeWhile isDigit ++ t).head? = s.head? := by
  cases s with
  | nil => simp [startsWithDigit] at h
  | cons c s =>
      simp only [startsWithDigit] at h
      simp [h]

/-! ### The parts of a number -/

/-- A reader that succeeded has consumed a text of a shape, and consumes it wherever it stands. -/
def Consumes {α : Type} (shape : List Char → Prop) (reader : Reader α) (s : List Char) (a : α)
    (rest : List Char) : Prop :=
  ∃ text, s = text ++ rest ∧ shape text ∧ Takes reader text a

theorem gather_of_not_digit {limit n count : Nat} {s : List Char}
    (h : startsWithDigit s = false) : gather limit n count s = (n, count, s) := by
  cases s with
  | nil => rfl
  | cons c s =>
      simp only [startsWithDigit] at h
      simp [gather, h]

/-- Gathering stops before a digit only if that digit does not fit any more, and so it stops there
whatever follows. -/
theorem gather_split {limit n count m total : Nat} {s rest : List Char}
    (h : gather limit n count s = (m, total, rest)) :
    ∃ ds, s = ds ++ rest ∧ Digits ds ∧ total = count + ds.length ∧
      ∀ t, (startsWithDigit t = true → t.head? = rest.head?) →
        gather limit n count (ds ++ t) = (m, total, t) := by
  induction s generalizing n count with
  | nil =>
      simp only [gather, Prod.mk.injEq] at h
      obtain ⟨rfl, rfl, rfl⟩ := h
      refine ⟨[], rfl, by simp [Digits], rfl, fun t ht => gather_of_not_digit ?_⟩
      cases t with
      | nil => rfl
      | cons d t =>
          refine Bool.eq_false_iff.mpr fun hd => ?_
          have := ht hd
          simp at this
  | cons c s ih =>
      rw [gather] at h
      split at h
      · rename_i hc
        obtain ⟨ds, hs, hds, htotal, hlocal⟩ := ih h
        simp only [Bool.and_eq_true] at hc
        refine ⟨c :: ds, by rw [hs]; rfl, ?_, by simp only [List.length_cons]; omega,
          fun t ht => ?_⟩
        · simp only [Digits, List.mem_cons, forall_eq_or_imp]
          exact ⟨hc.1, hds⟩
        · rw [List.cons_append, gather, if_pos (by simp [hc.1, hc.2])]
          exact hlocal t ht
      · rename_i hc
        simp only [Prod.mk.injEq] at h
        obtain ⟨rfl, rfl, rfl⟩ := h
        refine ⟨[], rfl, by simp [Digits], rfl, fun t ht => ?_⟩
        by_cases hd : startsWithDigit t = true
        · cases t with
          | nil => simp [startsWithDigit] at hd
          | cons d t =>
              have := ht hd
              simp only [List.head?_cons, Option.some.injEq] at this
              subst this
              rw [List.nil_append, gather, if_neg hc]
        · exact gather_of_not_digit (by simpa using hd)

theorem double_eq_ok {negative : Bool} {digits : Nat} {e : Int} {s rest : List Char} {x : Number}
    (h : double negative digits e s = .ok (x, rest)) :
    rest = s ∧ ∀ t, double negative digits e t = .ok (x, t) := by
  unfold double at h ⊢
  cases hx : scale 8 (Binary64.ofInt digits) e with
  | none => simp [hx] at h
  | some y =>
      simp only [hx, Except.ok.injEq, Prod.mk.injEq] at h
      obtain ⟨rfl, rfl⟩ := h
      exact ⟨rfl, fun _ => rfl⟩

/-- What stands behind the sign of an exponent. -/
def exponentDigits (negative : Bool) (digits : Nat) (e : Int) (down : Bool) : Reader Number :=
  fun s => match s with
  | [] => .error (.behind .endInValue [])
  | c :: rest =>
    if isDigit c then
      let (n, _, rest) := gather exponentLimit (digitValue c) 1 rest
      match rest with
      | d :: more =>
        if isDigit d then
          if digits ≠ 0 ∧ down = false then .error (.behind .numberOutOfRange more)
          else .ok (.real (.zero negative), more.dropWhile isDigit)
        else double negative digits (if down then e - n else e + n) rest
      | [] => double negative digits (if down then e - n else e + n) rest
    else .error (.ahead1 .numberMalformed s)

section Parts

variable {negative : Bool} {digits : Nat} {e : Int} {s rest : List Char} {x : Number}

theorem exponentPart_of_sign {sign : List Char} (hsign : ExponentSign sign)
    (hs : startsWithDigit s = true) :
    exponentPart negative digits e (sign ++ s) =
      exponentDigits negative digits e (decide (sign = ['-'])) s := by
  rcases hsign with rfl | rfl | rfl
  · cases s with
    | nil => simp [startsWithDigit] at hs
    | cons c s =>
        simp only [startsWithDigit] at hs
        have hplus : c ≠ '+' := by
          rintro rfl
          revert hs
          decide
        have hminus : c ≠ '-' := by
          rintro rfl
          revert hs
          decide
        unfold exponentPart exponentDigits
        split
        rename_i heq
        split at heq
        · simp_all
        · simp_all
        · simp only [List.nil_append, Prod.mk.injEq] at heq
          obtain ⟨rfl, rfl⟩ := heq
          rfl
  · rfl
  · rfl

theorem exponentDigits_of_fit {down : Bool} {c : Char} {n count : Nat} (hc : isDigit c = true)
    (hgather : gather exponentLimit (digitValue c) 1 s = (n, count, rest))
    (hrest : startsWithDigit rest = false) :
    exponentDigits negative digits e down (c :: s) =
      double negative digits (if down then e - n else e + n) rest := by
  simp only [exponentDigits, hc, if_true, hgather]
  cases rest with
  | nil => rfl
  | cons d rest =>
      simp only [startsWithDigit] at hrest
      simp only [hrest, Bool.false_eq_true, if_false]

theorem exponentDigits_eq_ok {down : Bool}
    (h : exponentDigits negative digits e down s = .ok (x, rest)) :
    startsWithDigit s = true ∧
      Consumes (fun t => Digits t ∧ t ≠ []) (exponentDigits negative digits e down) s x rest := by
  cases s with
  | nil => simp [exponentDigits] at h
  | cons c s =>
      by_cases hc : isDigit c = true
      swap
      · simp [exponentDigits, hc] at h
      refine ⟨hc, ?_⟩
      rcases hgather : gather exponentLimit (digitValue c) 1 s with ⟨n, count, r⟩
      obtain ⟨ds, hs, hds, -, hlocal⟩ := gather_split hgather
      cases hr : startsWithDigit r with
      | false =>
          rw [exponentDigits_of_fit hc hgather hr] at h
          obtain ⟨rfl, hdouble⟩ := double_eq_ok h
          refine ⟨c :: ds, by rw [hs]; rfl, ⟨List.forall_mem_cons.mpr ⟨hc, hds⟩, by simp⟩,
            fun t ht => ?_⟩
          have hstop := startsWithDigit_of_stops ht
          rw [List.cons_append, exponentDigits_of_fit hc
            (hlocal t fun hd => by rw [hstop] at hd; cases hd) hstop]
          exact hdouble t
      | true =>
          -- The exponent is too large to be gathered, so all its digits are passed over.
          cases r with
          | nil => simp [startsWithDigit] at hr
          | cons d more =>
              simp only [startsWithDigit] at hr
              simp only [exponentDigits, hc, if_true, hgather, hr] at h
              split at h
              · simp at h
              · rename_i hzero
                simp only [Except.ok.injEq, Prod.mk.injEq] at h
                obtain ⟨rfl, rfl⟩ := h
                have htail : Digits (d :: more.takeWhile isDigit) :=
                  List.forall_mem_cons.mpr ⟨hr, digits_takeWhile more⟩
                refine ⟨c :: (ds ++ d :: more.takeWhile isDigit), ?_,
                  ⟨List.forall_mem_cons.mpr ⟨hc, List.forall_mem_append.mpr ⟨hds, htail⟩⟩,
                    by simp⟩, fun t ht => ?_⟩
                · rw [hs]
                  simp [List.takeWhile_append_dropWhile]
                · have hagain := hlocal (d :: (more.takeWhile isDigit ++ t)) (fun _ => rfl)
                  simp only [List.cons_append, List.append_assoc, exponentDigits, hc, if_true,
                    hagain, hr, hzero, if_false]
                  rw [dropWhile_digits (digits_takeWhile more) (startsWithDigit_of_stops ht)]

/-- Every text splits into a sign, perhaps an empty one, and what the exponent is read from. -/
theorem exponentPart_eq (negative : Bool) (digits : Nat) (e : Int) (s : List Char) :
    ∃ sign t, ExponentSign sign ∧ s = sign ++ t ∧
      exponentPart negative digits e s =
        exponentDigits negative digits e (decide (sign = ['-'])) t := by
  unfold exponentPart
  split
  rename_i down t heq
  split at heq
  · simp only [Prod.mk.injEq] at heq
    obtain ⟨rfl, rfl⟩ := heq
    exact ⟨['+'], _, .inr (.inl rfl), rfl, rfl⟩
  · simp only [Prod.mk.injEq] at heq
    obtain ⟨rfl, rfl⟩ := heq
    exact ⟨['-'], _, .inr (.inr rfl), rfl, rfl⟩
  · simp only [Prod.mk.injEq] at heq
    obtain ⟨rfl, rfl⟩ := heq
    exact ⟨[], _, .inl rfl, rfl, rfl⟩

theorem exponentPart_eq_ok (h : exponentPart negative digits e s = .ok (x, rest)) :
    Consumes (fun t => ∃ sign ds, t = sign ++ ds ∧ ExponentSign sign ∧ Digits ds ∧ ds ≠ [])
      (exponentPart negative digits e) s x rest := by
  obtain ⟨sign, t, hsign, hs, heq⟩ := exponentPart_eq negative digits e s
  rw [heq] at h
  obtain ⟨-, ds, ht, ⟨hds, hne⟩, htakes⟩ := exponentDigits_eq_ok h
  refine ⟨sign ++ ds, by rw [hs, ht, List.append_assoc], ⟨sign, ds, rfl, hsign, hds, hne⟩,
    fun t ht => ?_⟩
  rw [List.append_assoc, exponentPart_of_sign hsign (startsWithDigit_append hds hne)]
  exact htakes t ht

theorem exponentPart?_of_no_mark (hlow : s.head? ≠ some 'e') (hup : s.head? ≠ some 'E') :
    exponentPart? negative digits e s = double negative digits e s := by
  unfold exponentPart?
  split
  · simp at hlow
  · simp at hup
  · rfl

theorem exponentPart?_eq_ok (h : exponentPart? negative digits e s = .ok (x, rest)) :
    Consumes ExponentPart (exponentPart? negative digits e) s x rest := by
  unfold exponentPart? at h
  split at h
  · obtain ⟨t, hs, ⟨sign, ds, ht, hsign, hds, hne⟩, htakes⟩ := exponentPart_eq_ok h
    refine ⟨'e' :: t, by rw [hs]; rfl, ?_, fun t ht => htakes t ht⟩
    rw [ht]
    exact .digits (.inl rfl) hsign hds hne
  · obtain ⟨t, hs, ⟨sign, ds, ht, hsign, hds, hne⟩, htakes⟩ := exponentPart_eq_ok h
    refine ⟨'E' :: t, by rw [hs]; rfl, ?_, fun t ht => htakes t ht⟩
    rw [ht]
    exact .digits (.inr rfl) hsign hds hne
  · obtain ⟨rfl, hdouble⟩ := double_eq_ok h
    refine ⟨[], rfl, .absent, fun t ht => ?_⟩
    rw [List.nil_append, exponentPart?_of_no_mark]
    · exact hdouble t
    · intro hhead
      have := ht _ hhead
      revert this
      decide
    · intro hhead
      have := ht _ hhead
      revert this
      decide

theorem fractionPart_eq_ok (h : fractionPart negative digits e s = .ok (x, rest)) :
    Consumes (fun t => ∃ ds p, t = ds ++ p ∧ Digits ds ∧ ds ≠ [] ∧ ExponentPart p)
      (fractionPart negative digits e) s x rest := by
  rcases hgather : gather integerLimit digits 0 s with ⟨n, count, r⟩
  obtain ⟨ds, hs, hds, hcount, hlocal⟩ := gather_split hgather
  simp only [fractionPart, hgather] at h
  cases hr : startsWithDigit r with
  | true =>
      -- Digits that do not fit any more are dropped before the exponent is read.
      simp only [hr, if_true] at h
      obtain ⟨p, hp, hexponent, htakes⟩ := exponentPart?_eq_ok h
      have htail := digits_takeWhile r
      obtain ⟨hne, hhead⟩ := takeWhile_of_startsWithDigit hr
      refine ⟨ds ++ r.takeWhile isDigit ++ p, ?_,
        ⟨_, p, rfl, List.forall_mem_append.mpr ⟨hds, htail⟩, by simp [hne], hexponent⟩,
        fun t ht => ?_⟩
      · rw [hs, List.append_assoc, List.append_assoc, ← hp, List.takeWhile_append_dropWhile]
      · have hstop := startsWithDigit_exponent hexponent ht
        have hagain := hlocal (r.takeWhile isDigit ++ (p ++ t)) (fun _ => hhead _)
        simp only [List.append_assoc, fractionPart, hagain,
          startsWithDigit_append htail hne, if_true, dropWhile_digits htail hstop]
        exact htakes t ht
  | false =>
      simp only [hr, Bool.false_eq_true, if_false] at h
      split at h
      · split at h <;> simp at h
      · rename_i hzero
        obtain ⟨p, hp, hexponent, htakes⟩ := exponentPart?_eq_ok h
        refine ⟨ds ++ p, by rw [hs, hp, List.append_assoc], ⟨ds, p, rfl, hds, ?_, hexponent⟩,
          fun t ht => ?_⟩
        · rintro rfl
          simp only [List.length_nil, Nat.add_zero] at hcount
          exact hzero hcount
        · have hstop := startsWithDigit_exponent hexponent ht
          have hagain := hlocal (p ++ t) (fun hd => by rw [hstop] at hd; cases hd)
          simp only [List.append_assoc, fractionPart, hagain, hstop, Bool.false_eq_true,
            if_false, hzero]
          exact htakes t ht

/-- The number is complete behind its integer part. -/
theorem afterInteger_of_stops {n : Nat} (hs : Stops s) :
    afterInteger negative n s =
      if negative then
        if n = 0 ∨ Nat.pow 2 63 < n then .ok (.real (Binary64.ofInt n).neg, s)
        else .ok (.integer (-(n : Int)), s)
      else .ok (.integer n, s) := by
  unfold afterInteger
  split
  · exact absurd rfl (ne_of_stops hs (by decide))
  · exact absurd rfl (ne_of_stops hs (by decide))
  · exact absurd rfl (ne_of_stops hs (by decide))
  · rfl

theorem afterInteger_eq_ok {n : Nat} (h : afterInteger negative n s = .ok (x, rest)) :
    Consumes Fractional (afterInteger negative n) s x rest := by
  unfold afterInteger at h
  split at h
  · obtain ⟨t, hs, ⟨ds, p, ht, hds, hne, hp⟩, htakes⟩ := fractionPart_eq_ok h
    refine ⟨'.' :: t, by rw [hs]; rfl, ⟨'.' :: ds, p, by rw [ht]; rfl, .digits hds hne, hp⟩,
      fun t ht => htakes t ht⟩
  · obtain ⟨t, hs, ⟨sign, ds, ht, hsign, hds, hne⟩, htakes⟩ := exponentPart_eq_ok h
    refine ⟨'e' :: t, by rw [hs]; rfl, ⟨[], 'e' :: t, rfl, .absent, ?_⟩, fun t ht => htakes t ht⟩
    rw [ht]
    exact .digits (.inl rfl) hsign hds hne
  · obtain ⟨t, hs, ⟨sign, ds, ht, hsign, hds, hne⟩, htakes⟩ := exponentPart_eq_ok h
    refine ⟨'E' :: t, by rw [hs]; rfl, ⟨[], 'E' :: t, rfl, .absent, ?_⟩, fun t ht => htakes t ht⟩
    rw [ht]
    exact .digits (.inr rfl) hsign hds hne
  · have hrest : rest = s ∧ ∀ t, Stops t → afterInteger negative n t = .ok (x, t) := by
      split at h
      · rename_i hnegative
        split at h <;> rename_i hn <;> simp only [Except.ok.injEq, Prod.mk.injEq] at h <;>
          obtain ⟨rfl, rfl⟩ := h
        · exact ⟨rfl, fun t ht => by rw [afterInteger_of_stops ht, if_pos hnegative, if_pos hn]⟩
        · exact ⟨rfl, fun t ht => by rw [afterInteger_of_stops ht, if_pos hnegative, if_neg hn]⟩
      · rename_i hnegative
        simp only [Except.ok.injEq, Prod.mk.injEq] at h
        obtain ⟨rfl, rfl⟩ := h
        exact ⟨rfl, fun t ht => by rw [afterInteger_of_stops ht, if_neg hnegative]⟩
    obtain ⟨rfl, htakes⟩ := hrest
    exact ⟨[], rfl, ⟨[], [], rfl, .absent, .absent⟩, htakes⟩

theorem startsWithDigit_fractional {f : List Char} (hf : Fractional f) (hs : Stops s) :
    startsWithDigit (f ++ s) = false := by
  obtain ⟨p, q, rfl, hp, hq⟩ := hf
  cases hp with
  | absent => exact startsWithDigit_exponent hq hs
  | digits => rfl

/-- Once digits have been dropped, a fraction or an exponent is read by the same two readers. -/
theorem dropped_eq_ok
    (h : (match s with
      | '.' :: s => fractionPart negative digits e s
      | s => exponentPart? negative digits e s) = .ok (x, rest)) :
    Consumes Fractional (fun s => match s with
      | '.' :: s => fractionPart negative digits e s
      | s => exponentPart? negative digits e s) s x rest := by
  split at h
  · obtain ⟨t, hs, ⟨ds, p, ht, hds, hne, hp⟩, htakes⟩ := fractionPart_eq_ok h
    exact ⟨'.' :: t, by rw [hs]; rfl, ⟨'.' :: ds, p, by rw [ht]; rfl, .digits hds hne, hp⟩,
      fun t ht => htakes t ht⟩
  · obtain ⟨t, hs, hp, htakes⟩ := exponentPart?_eq_ok h
    refine ⟨t, hs, ⟨[], t, rfl, .absent, hp⟩, fun r hr => ?_⟩
    have := htakes r hr
    dsimp only
    split
    · rename_i heq
      cases hp with
      | absent =>
          rw [List.nil_append] at heq
          subst heq
          exact absurd rfl (ne_of_stops hr (by decide))
      | digits hmark =>
          simp only [List.cons_append, List.cons.injEq] at heq
          obtain ⟨rfl, -⟩ := heq
          simp at hmark
    · exact this

theorem number_eq_ok (h : Reader.number negative s = .ok (x, rest)) :
    Consumes Unsigned (Reader.number negative) s x rest := by
  cases s with
  | nil => simp [Reader.number] at h
  | cons c s =>
      by_cases hzero : c = '0'
      · subst hzero
        simp only [Reader.number, if_true] at h
        split at h
        · simp at h
        · obtain ⟨f, hs, hf, htakes⟩ := afterInteger_eq_ok h
          refine ⟨'0' :: f, by rw [hs]; rfl, ⟨['0'], f, rfl, .zero, hf⟩, fun t ht => ?_⟩
          simp only [List.cons_append, Reader.number, if_true, startsWithDigit_fractional hf ht,
            Bool.false_eq_true, if_false]
          exact htakes t ht
      · by_cases hc : isDigit c = true
        swap
        · simp [Reader.number, hzero, hc] at h
        rcases hgather : gather integerLimit (digitValue c) 1 s with ⟨n, count, r⟩
        obtain ⟨ds, hs, hds, -, hlocal⟩ := gather_split hgather
        simp only [Reader.number, hzero, hc, if_false, if_true, hgather] at h
        cases hr : startsWithDigit r with
        | true =>
            simp only [hr, if_true] at h
            obtain ⟨f, hf, hshape, htakes⟩ := dropped_eq_ok h
            have htail := digits_takeWhile r
            obtain ⟨hne, hhead⟩ := takeWhile_of_startsWithDigit hr
            refine ⟨c :: (ds ++ r.takeWhile isDigit) ++ f, ?_,
              ⟨_, f, rfl, .digits hc hzero (List.forall_mem_append.mpr ⟨hds, htail⟩), hshape⟩,
              fun t ht => ?_⟩
            · rw [hs, List.cons_append, List.cons_append, List.append_assoc, List.append_assoc,
                ← hf, List.takeWhile_append_dropWhile]
            · have hstop := startsWithDigit_fractional hshape ht
              have hagain := hlocal (r.takeWhile isDigit ++ (f ++ t)) (fun _ => hhead _)
              simp only [List.cons_append, List.append_assoc, Reader.number, hzero, hc, if_false,
                if_true, hagain, startsWithDigit_append htail hne, dropWhile_digits htail hstop,
                takeWhile_digits htail hstop]
              exact htakes t ht
        | false =>
            simp only [hr, Bool.false_eq_true, if_false] at h
            obtain ⟨f, hf, hshape, htakes⟩ := afterInteger_eq_ok h
            refine ⟨c :: ds ++ f, by rw [hs, hf, List.cons_append, List.cons_append,
              List.append_assoc], ⟨_, f, rfl, .digits hc hzero hds, hshape⟩, fun t ht => ?_⟩
            have hstop := startsWithDigit_fractional hshape ht
            have hagain := hlocal (f ++ t) (fun hd => by rw [hstop] at hd; cases hd)
            simp only [List.cons_append, List.append_assoc, Reader.number, hzero, hc, if_false,
              if_true, hagain, hstop, Bool.false_eq_true]
            exact htakes t ht

end Parts

/-! ### Numerals -/

theorem numeral_of_number {s rest : List Char} {n : Number}
    (h : Reader.number false s = .ok (n, rest)) : ∃ text, s = text ++ rest ∧ Numeral text n := by
  obtain ⟨text, hs, hshape, htakes⟩ := number_eq_ok h
  exact ⟨text, hs, .plain hshape htakes⟩

theorem numeral_of_minus {s rest : List Char} {n : Number}
    (h : Reader.number true s = .ok (n, rest)) :
    ∃ text, '-' :: s = text ++ rest ∧ Numeral text n := by
  obtain ⟨text, hs, hshape, htakes⟩ := number_eq_ok h
  exact ⟨'-' :: text, by rw [hs]; rfl, .minus hshape htakes⟩

theorem isNumberCharacter_of_digit {c : Char} (h : isDigit c = true) :
    Spans.isNumberCharacter c = true := by
  rw [isDigit_eq] at h
  simp [Spans.isNumberCharacter, h]

/-- Only characters of numbers. -/
def NumberCharacters (s : List Char) : Prop := ∀ c ∈ s, Spans.isNumberCharacter c = true

theorem numberCharacters_of_digits {s : List Char} (h : Digits s) : NumberCharacters s :=
  fun c hc => isNumberCharacter_of_digit (h c hc)

theorem numberCharacters_exponent {e : List Char} (h : ExponentPart e) : NumberCharacters e := by
  cases h with
  | absent => simp [NumberCharacters]
  | digits hmark hsign hs =>
      refine List.forall_mem_cons.mpr ⟨?_, List.forall_mem_append.mpr
        ⟨?_, numberCharacters_of_digits hs⟩⟩
      · rcases hmark with rfl | rfl <;> decide
      · rcases hsign with rfl | rfl | rfl <;> simp [Spans.isNumberCharacter]

theorem numberCharacters_fraction {f : List Char} (h : FractionPart f) : NumberCharacters f := by
  cases h with
  | absent => simp [NumberCharacters]
  | digits hs =>
      exact List.forall_mem_cons.mpr ⟨by decide, numberCharacters_of_digits hs⟩

theorem numberCharacters_unsigned {u : List Char} (h : Unsigned u) : NumberCharacters u := by
  obtain ⟨i, _, rfl, hi, f, e, rfl, hf, he⟩ := h
  refine List.forall_mem_append.mpr ⟨?_, List.forall_mem_append.mpr
    ⟨numberCharacters_fraction hf, numberCharacters_exponent he⟩⟩
  cases hi with
  | zero => simp [Spans.isNumberCharacter]
  | digits hc _ hs =>
      exact List.forall_mem_cons.mpr
        ⟨isNumberCharacter_of_digit hc, numberCharacters_of_digits hs⟩

theorem Unsigned.cons {u : List Char} (h : Unsigned u) :
    ∃ c t, u = c :: t ∧ isDigit c = true := by
  obtain ⟨i, f, rfl, hi, -⟩ := h
  cases hi with
  | zero => exact ⟨'0', f, rfl, by decide⟩
  | digits hc => exact ⟨_, _, rfl, hc⟩

theorem Numeral.numberCharacters {text : List Char} {n : Number} (h : Numeral text n) :
    NumberCharacters text := by
  cases h with
  | plain shape => exact numberCharacters_unsigned shape
  | minus shape =>
      exact List.forall_mem_cons.mpr ⟨by decide, numberCharacters_unsigned shape⟩

theorem Numeral.cons {text : List Char} {n : Number} (h : Numeral text n) :
    ∃ c t, text = c :: t ∧ (c = '-' ∨ isDigit c = true) := by
  cases h with
  | plain shape =>
      obtain ⟨c, t, rfl, hc⟩ := shape.cons
      exact ⟨c, t, rfl, .inr hc⟩
  | minus => exact ⟨'-', _, rfl, .inl rfl⟩

end ResourceApi.Json
