import Mathlib.Data.List.Basic
import Mathlib.Data.List.TakeWhile
import ResourceApi.Text.Natural
import ResourceApi.Text.Trim

/-!
The edges of texts: where a run of characters stops, texts that trimming leaves alone, and the digits
of a number with nothing around them.
-/

namespace ResourceApi.Text

variable {s front rest : List Char}

theorem takeWhile_append_stop {p : Char → Bool} (hfront : ∀ c ∈ front, p c = true)
    (hrest : ∀ c ∈ rest.head?, p c = false) :
    (front ++ rest).takeWhile p = front ∧ (front ++ rest).dropWhile p = rest := by
  rw [List.takeWhile_append_of_pos hfront, List.dropWhile_append_of_pos hfront]
  cases rest with
  | nil => simp
  | cons c rest =>
      have hc : p c = false := hrest c rfl
      simp [hc]

/-! ### Trimming -/

/-- The text has no white space at its end. -/
def EndsVisibly (s : List Char) : Prop := ∀ c ∈ s.getLast?, isWhiteSpace c = false

theorem EndsVisibly.append (h : EndsVisibly rest) (hne : rest ≠ []) : EndsVisibly (front ++ rest) := by
  intro c hc
  rw [List.getLast?_append_of_ne_nil _ hne] at hc
  exact h c hc

theorem EndsVisibly.cons {c : Char} (h : EndsVisibly s) (hc : isWhiteSpace c = false) :
    EndsVisibly (c :: s) := by
  cases s with
  | nil => simpa [EndsVisibly] using hc
  | cons d s =>
      show EndsVisibly ([c] ++ d :: s)
      exact h.append (List.cons_ne_nil d s)

theorem endsVisibly_concat {c : Char} (hc : isWhiteSpace c = false) : EndsVisibly (s ++ [c]) := by
  simpa [EndsVisibly] using hc

theorem EndsVisibly.of_append (h : EndsVisibly (front ++ rest)) : EndsVisibly rest := by
  cases rest with
  | nil => exact fun c hc => by cases hc
  | cons d rest =>
      intro c hc
      apply h c
      rwa [List.getLast?_append_cons]

theorem dropWhile_of_head? {p : Char → Bool} (h : ∀ c ∈ s.head?, p c = false) :
    s.dropWhile p = s := by
  cases s with
  | nil => rfl
  | cons c s => rw [List.dropWhile_cons_of_neg (by simp [h c rfl])]

theorem mem_of_mem_trim {c : Char} (h : c ∈ trim s) : c ∈ s := by
  rw [trim, dropEndWhile, List.mem_reverse] at h
  exact (List.dropWhile_suffix _).subset (List.mem_reverse.mp ((List.dropWhile_suffix _).subset h))

theorem endsVisibly_trim (s : List Char) : EndsVisibly (trim s) := by
  intro c hc
  rw [trim, dropEndWhile, List.getLast?_reverse] at hc
  have hstop := List.head?_dropWhile_not isWhiteSpace (s.dropWhile isWhiteSpace).reverse
  rw [Option.mem_def.mp hc] at hstop
  exact hstop

/-- A text without white space at its ends is not changed. -/
theorem trim_eq_self (hhead : ∀ c ∈ s.head?, isWhiteSpace c = false) (hlast : EndsVisibly s) :
    trim s = s := by
  have hreverse : ∀ c ∈ s.reverse.head?, isWhiteSpace c = false := by
    intro c hc
    rw [List.head?_reverse] at hc
    exact hlast c hc
  rw [trim, dropWhile_of_head? hhead, dropEndWhile, dropWhile_of_head? hreverse,
    List.reverse_reverse]

theorem trim_of_forall (h : ∀ c ∈ s, isWhiteSpace c = false) : trim s = s :=
  trim_eq_self (fun c hc => h c (List.mem_of_mem_head? hc)) fun c hc =>
    h c (List.mem_of_mem_getLast? hc)

/-! ### Numbers -/

theorem not_whiteSpace_of_digit {c : Char} (h : c.isDigit = true) : isWhiteSpace c = false := by
  have hall : (whiteSpace.all fun c => !c.isDigit) = true := by decide
  by_contra hspace
  have hmem : c ∈ whiteSpace := by simpa [isWhiteSpace] using hspace
  have hdigit := List.all_eq_true.mp hall c hmem
  rw [h] at hdigit
  cases hdigit

theorem isDigit_of_mem_toDigits {n : Nat} {c : Char} (h : c ∈ Nat.toDigits 10 n) :
    c.isDigit = true :=
  Nat.isDigit_of_mem_toDigits (by decide) (by decide) h

theorem digitsValue?_cons_of_not_digit {c : Char} (hc : c.isDigit = false) (s : List Char) :
    digitsValue? (c :: s) = none := by
  simp [digitsValue?, hc]

theorem foldlM_digits {digits : List Char} (h : ∀ c ∈ digits, c.isDigit = true) (n : Nat) :
    digits.foldlM (fun n c => if c.isDigit then some (10 * n + (c.toNat - '0'.toNat)) else none) n =
      some (Nat.ofDigitChars 10 digits n) := by
  induction digits generalizing n with
  | nil => rfl
  | cons c digits ih =>
      obtain ⟨hc, hdigits⟩ := List.forall_mem_cons.mp h
      rw [List.foldlM_cons, if_pos hc]
      exact ih hdigits _

theorem isDigit_of_foldlM {digits : List Char} {m n : Nat}
    (h : digits.foldlM (fun n c => if c.isDigit then some (10 * n + (c.toNat - '0'.toNat)) else none)
      m = some n) : ∀ c ∈ digits, c.isDigit = true := by
  induction digits generalizing m with
  | nil => simp
  | cons c digits ih =>
      rw [List.foldlM_cons] at h
      split at h
      · rename_i hc
        exact List.forall_mem_cons.mpr ⟨hc, ih h⟩
      · cases h

theorem digit_bounds {c : Char} (h : c.isDigit = true) : 48 ≤ c.toNat ∧ c.toNat ≤ 57 := by
  simpa [Char.isDigit, UInt32.le_iff_toNat_le] using h

theorem digit_lt {c : Char} (h : c.isDigit = true) : c.toNat - '0'.toNat < 10 := by
  have hbounds := digit_bounds h
  have hzero : '0'.toNat = 48 := rfl
  omega

theorem toDigits_digit {c : Char} (h : c.isDigit = true) :
    Nat.toDigits 10 (c.toNat - '0'.toNat) = [c] := by
  have hbounds := digit_bounds h
  have hzero : '0'.toNat = 48 := rfl
  have htoNat : (c.toNat - '0'.toNat).digitChar.toNat = c.toNat := by
    rw [Nat.toNat_digitChar_of_lt_ten (digit_lt h)]
    omega
  rw [Nat.toDigits_of_lt_base (digit_lt h), Char.toNat_inj.mp htoNat]

/-- Digits behind a number other than zero are the last digits of a greater one. -/
theorem toDigits_ofDigitChars {digits : List Char} (h : ∀ c ∈ digits, c.isDigit = true) {n : Nat}
    (hn : 0 < n) : Nat.toDigits 10 (Nat.ofDigitChars 10 digits n) = Nat.toDigits 10 n ++ digits := by
  induction digits generalizing n with
  | nil => simp
  | cons c digits ih =>
      obtain ⟨hc, hdigits⟩ := List.forall_mem_cons.mp h
      rw [Nat.ofDigitChars_cons, ih hdigits (by omega),
        ← Nat.toDigits_append_toDigits (by decide) hn (digit_lt hc), toDigits_digit hc,
        List.append_assoc]
      rfl

/-- Digits are those of a number, with zeros in front. -/
theorem exists_zeros {digits : List Char} (hne : digits ≠ [])
    (h : ∀ c ∈ digits, c.isDigit = true) :
    ∃ zeros,
      digits = List.replicate zeros '0' ++ Nat.toDigits 10 (Nat.ofDigitChars 10 digits 0) := by
  induction digits with
  | nil => exact absurd rfl hne
  | cons c digits ih =>
      obtain ⟨hc, hdigits⟩ := List.forall_mem_cons.mp h
      rw [Nat.ofDigitChars_cons, Nat.mul_zero, Nat.zero_add]
      by_cases hzero : c = '0'
      · subst hzero
        by_cases hlast : digits = []
        · exact ⟨0, by simp [hlast]⟩
        · obtain ⟨zeros, hzeros⟩ := ih hlast hdigits
          refine ⟨zeros + 1, ?_⟩
          rw [List.replicate_succ, List.cons_append]
          exact congrArg ('0' :: ·) hzeros
      · have hpos : 0 < c.toNat - '0'.toNat := by
          apply Nat.pos_of_ne_zero
          intro hvalue
          have hdigit := toDigits_digit hc
          rw [hvalue] at hdigit
          exact hzero (List.cons.inj hdigit).1.symm
        exact ⟨0, by rw [toDigits_ofDigitChars hdigits hpos, toDigits_digit hc]; rfl⟩

/-- Without a sign, what is read as a number is its digits, with any number of zeros in front. -/
theorem natural?_eq_some (hsign : '+' ∉ s) {n : Nat} :
    natural? s = some n ↔
      n < Nat.pow 2 64 ∧ ∃ zeros, s = List.replicate zeros '0' ++ Nat.toDigits 10 n := by
  have hplain : natural? s =
      if s.isEmpty then none
      else (digitsValue? s).bind fun n => if n < Nat.pow 2 64 then some n else none := by
    unfold natural?
    split
    · exact absurd List.mem_cons_self hsign
    · rfl
  rw [hplain]
  constructor
  · intro h
    rw [Option.ite_none_left_eq_some, Option.bind_eq_some_iff] at h
    obtain ⟨hne, m, hvalue, hlt⟩ := h
    rw [Option.ite_none_right_eq_some, Option.some.injEq] at hlt
    obtain ⟨hlt, rfl⟩ := hlt
    have hdigits := isDigit_of_foldlM hvalue
    rw [digitsValue?, foldlM_digits hdigits, Option.some.injEq] at hvalue
    exact ⟨hlt, hvalue ▸ exists_zeros (by simpa using hne) hdigits⟩
  · rintro ⟨hlt, zeros, rfl⟩
    have hdigits : ∀ c ∈ List.replicate zeros '0' ++ Nat.toDigits 10 n, c.isDigit = true := by
      intro c hc
      rcases List.mem_append.mp hc with hc | hc
      · rw [List.eq_of_mem_replicate hc]
        rfl
      · exact isDigit_of_mem_toDigits hc
    have hvalue : digitsValue? (List.replicate zeros '0' ++ Nat.toDigits 10 n) = some n := by
      rw [digitsValue?, foldlM_digits hdigits, Nat.ofDigitChars_append,
        Nat.ofDigitChars_replicate_zero, Nat.mul_zero, Nat.ofDigitChars_ten_toDigits]
    rw [if_neg (by simp), hvalue, Option.bind_some, if_pos hlt]

theorem natural?_toDigits {n : Nat} (h : n < Nat.pow 2 64) :
    natural? (Nat.toDigits 10 n) = some n := by
  have hsign : '+' ∉ Nat.toDigits 10 n := by
    intro hmem
    cases isDigit_of_mem_toDigits hmem
  exact (natural?_eq_some hsign).mpr ⟨h, 0, rfl⟩

theorem natural?_lt {n : Nat} (h : natural? s = some n) : n < Nat.pow 2 64 := by
  simp only [natural?, Option.ite_none_left_eq_some, Option.bind_eq_some_iff] at h
  obtain ⟨-, m, -, h⟩ := h
  rw [Option.ite_none_right_eq_some] at h
  exact Option.some.inj h.2 ▸ h.1

end ResourceApi.Text
