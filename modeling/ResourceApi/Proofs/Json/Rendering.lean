import ResourceApi.Proofs.Json.Printing
import ResourceApi.Proofs.Json.Skipping

/-!
The text of every number is one of the grammar, whatever it reads back as. A double is laid out from
the digits of a decimal; these do not start with a zero unless zero is all there is, so the integer
part never has a zero too many.
-/

namespace ResourceApi

open Json

/-! ### Digits of doubles -/

namespace Decimal

/-- A decimal that is not zero, or zero without a scale. -/
def Sound (d : Decimal) : Prop := 0 < d.digits ∨ d.exponent = 0

theorem sound_strip (fuel n : Nat) (e : Int) (h : 0 < n ∨ e = 0) :
    Sound (normalize.strip fuel n e) := by
  induction fuel generalizing n e with
  | zero => exact h
  | succ fuel ih =>
      rw [normalize.strip]
      by_cases hstrip : n % 10 = 0 ∧ n ≠ 0
      · rw [if_pos hstrip]
        exact ih (n / 10) (e + 1) (.inl (by omega))
      · rw [if_neg hstrip]
        exact h

theorem Sound.normalize {d : Decimal} (h : d.Sound) : d.normalize.Sound :=
  sound_strip 20 d.digits d.exponent h

end Decimal

namespace Binary64

/-- A grid point in the cell of a number is not zero. -/
theorem pos_of_onlyDigitsAt {c : Cell} {e p : Int} {k : Nat} (h : onlyDigitsAt c e p = some k) :
    0 < k := by
  unfold onlyDigitsAt at h
  dsimp only at h
  split at h
  · rename_i hbelow _
    rw [Bool.and_eq_true, decide_eq_true_eq] at hbelow
    split at h
    · exact Option.some.inj h ▸ hbelow.2
    · exact Option.some.inj h ▸ Nat.succ_pos _
  · rename_i hbelow _
    rw [Bool.and_eq_true, decide_eq_true_eq] at hbelow
    exact Option.some.inj h ▸ hbelow.2
  · exact Option.some.inj h ▸ Nat.succ_pos _
  · cases h

theorem sound_search (c : Cell) (e top : Int) (fuel n : Nat) :
    (shortest.search c e top fuel n).Sound := by
  induction fuel generalizing n with
  | zero => exact .inr rfl
  | succ fuel ih =>
      rw [shortest.search]
      split
      · rename_i hdigits
        exact .inl (pos_of_onlyDigitsAt hdigits)
      · exact ih (n + 1)

theorem sound_shortest (x : Binary64) : x.shortest.Sound := sound_search _ _ _ 18 1

end Binary64

/-! ### Layouts of decimals -/

namespace Decimal

open Reader (isDigit)

theorem digits_replicate (n : Nat) : Digits (List.replicate n '0') := by
  intro c hc
  rw [List.eq_of_mem_replicate hc]
  decide

theorem digits_append {s t : List Char} (hs : Digits s) (ht : Digits t) : Digits (s ++ t) :=
  List.forall_mem_append.mpr ⟨hs, ht⟩

theorem integerPart_digit {c : Char} (hc : isDigit c = true) : IntegerPart [c] := by
  by_cases hzero : c = '0'
  · rw [hzero]
    exact .zero
  · exact .digits hc hzero (by simp [Digits])

/-- A decimal without a fraction is written by its digits and zeros behind them. -/
theorem integerPart_padded {d : Decimal} (h : d.Sound) :
    IntegerPart (Nat.toDigits 10 d.digits ++ List.replicate d.exponent.toNat '0') := by
  by_cases hzero : d.digits = 0
  · have hexponent : d.exponent = 0 := h.resolve_left (by omega)
    rw [hzero, hexponent]
    exact .zero
  · obtain ⟨c, ds, hds, hc⟩ := toDigits_eq_cons (Nat.pos_of_ne_zero hzero)
    have hdigits := digits_toDigits d.digits
    rw [hds] at hdigits ⊢
    obtain ⟨hdigit, hdigits⟩ := List.forall_mem_cons.mp hdigits
    exact .digits hdigit hc (digits_append hdigits (digits_replicate _))

/-- Some of the digits of a number, but not all, are an integer part if there is one at all. -/
theorem integerPart_take {n k : Nat} (hpos : 0 < k) (hk : k < (Nat.toDigits 10 n).length) :
    IntegerPart ((Nat.toDigits 10 n).take k) := by
  have hn : n ≠ 0 := by
    rintro rfl
    change k < 1 at hk
    omega
  obtain ⟨c, ds, hds, hc⟩ := toDigits_eq_cons (Nat.pos_of_ne_zero hn)
  obtain ⟨k, rfl⟩ : ∃ j, k = j + 1 := ⟨k - 1, by omega⟩
  have hdigits := digits_toDigits n
  rw [hds] at hdigits ⊢
  obtain ⟨hdigit, hdigits⟩ := List.forall_mem_cons.mp hdigits
  exact .digits hdigit hc fun d hd => hdigits d (List.mem_of_mem_take hd)

/-- A positional text: an integer part, a point and digits. -/
theorem unsigned_positional {i f : List Char} (hi : IntegerPart i) (hf : Digits f) (hne : f ≠ []) :
    Unsigned (i ++ '.' :: f) :=
  ⟨i, '.' :: f, rfl, hi, '.' :: f, [], (List.append_nil _).symm, .digits hf hne, .absent⟩

/-- One digit, and the others behind a point if there are any. -/
def mantissa : List Char → List Char
  | [] => []
  | [c] => [c]
  | c :: rest => c :: '.' :: rest

/-- A scientific text: a mantissa and an exponent with its sign. -/
theorem unsigned_scientific {ds : List Char} (hds : Digits ds) (hne : ds ≠ []) {sign : Char}
    (hsign : sign = '+' ∨ sign = '-') (n : Nat) :
    Unsigned (mantissa ds ++ ['e', sign] ++ Nat.toDigits 10 n) := by
  have hexponent : ExponentPart ('e' :: ([sign] ++ Nat.toDigits 10 n)) := by
    refine .digits (.inl rfl) ?_ (digits_toDigits n) ?_
    · rcases hsign with rfl | rfl
      · exact .inr (.inl rfl)
      · exact .inr (.inr rfl)
    · exact List.length_pos_iff.mp Nat.length_toDigits_pos
  match ds with
  | [] => exact absurd rfl hne
  | [c] =>
      have hc := (List.forall_mem_cons.mp hds).1
      exact ⟨[c], _, rfl, integerPart_digit hc, [], _, rfl, .absent, hexponent⟩
  | c :: d :: rest =>
      obtain ⟨hc, hrest⟩ := List.forall_mem_cons.mp hds
      refine ⟨[c], '.' :: d :: rest ++ _, ?_, integerPart_digit hc, '.' :: d :: rest, _, rfl,
        .digits hrest (by simp), hexponent⟩
      simp [mantissa]

/-- Every layout of a decimal is a number of the grammar. -/
theorem Sound.unsigned_render {d : Decimal} (h : d.Sound) (layout : Layout) :
    Unsigned (d.render layout).toList := by
  have hdigits := digits_toDigits d.digits
  have hlength : 0 < (Nat.toDigits 10 d.digits).length := Nat.length_toDigits_pos
  unfold render
  dsimp only
  split_ifs with hrange hwhole hpoint hdown
  · rw [String.toList_ofList]
    exact unsigned_positional (integerPart_padded h) (digits_replicate 1) (by simp)
  · rw [String.toList_ofList]
    refine unsigned_positional (integerPart_take (by omega) (by omega)) ?_ ?_
    · exact fun c hc => hdigits c (List.mem_of_mem_drop hc)
    · rw [ne_eq, List.drop_eq_nil_iff]
      omega
  · rw [String.toList_ofList]
    refine unsigned_positional (i := ['0']) .zero
      (digits_append (digits_replicate _) hdigits) ?_
    simp
  · rw [String.toList_ofList]
    exact unsigned_scientific hdigits (List.length_pos_iff.mp hlength) (.inr rfl) _
  · rw [String.toList_ofList]
    exact unsigned_scientific hdigits (List.length_pos_iff.mp hlength) (.inl rfl) _

end Decimal

/-! ### Numbers -/

namespace Json

/-- A number with a sign or without one. -/
def Signed (text : List Char) : Prop :=
  Unsigned text ∨ ∃ u, text = '-' :: u ∧ Unsigned u

theorem signed_real (x : Binary64) : Signed x.render.toList := by
  have hbody : Unsigned (if x.isZero then "0.0" else
      (x.shortest.normalize).render Binary64.layout).toList := by
    by_cases hzero : x.isZero = true
    · have hzeros : Digits ['0'] := Decimal.digits_replicate 1
      rw [if_pos hzero]
      exact Decimal.unsigned_positional .zero hzeros (by simp)
    · rw [if_neg hzero]
      exact x.sound_shortest.normalize.unsigned_render Binary64.layout
  unfold Binary64.render
  dsimp only
  split
  · rw [String.toList_append]
    exact .inr ⟨_, rfl, hbody⟩
  · exact .inl hbody

theorem signed_integer (i : Int) : Signed (toString i).toList := by
  cases i with
  | ofNat n =>
      change Signed (toString n).toList
      rw [toList_toString]
      exact .inl (unsigned_toDigits n)
  | negSucc n =>
      change Signed ("-" ++ toString (n + 1)).toList
      rw [String.toList_append, toList_toString]
      exact .inr ⟨_, rfl, unsigned_toDigits (n + 1)⟩

/-- The text of a number is a number of the grammar, though not always of the same value. -/
theorem Number.signed_render (n : Number) : Signed n.render.toList := by
  cases n with
  | integer i => exact signed_integer i
  | real x => exact signed_real x

theorem Signed.skips {text : List Char} (h : Signed text) : Skips text := by
  rcases h with h | ⟨u, rfl, h⟩
  · exact skips_unsigned h
  · exact skips_minus h

theorem Signed.cons {text : List Char} (h : Signed text) :
    ∃ c t, text = c :: t ∧ (c = '-' ∨ Reader.isDigit c = true) := by
  rcases h with h | ⟨u, rfl, -⟩
  · obtain ⟨c, t, rfl, hc⟩ := h.cons
    exact ⟨c, t, rfl, .inr hc⟩
  · exact ⟨'-', u, rfl, .inl rfl⟩

theorem Number.opens_render (n : Number) : ∃ c t, n.render.toList = c :: t ∧ Opens c := by
  obtain ⟨c, t, hrender, hc⟩ := n.signed_render.cons
  refine ⟨c, t, hrender, ?_⟩
  rcases hc with rfl | hc
  · decide
  · simp [Opens, hc]

theorem opens_quote (s : String) : ∃ c t, (quote s).toList = c :: t ∧ Opens c := by
  obtain ⟨t, ht⟩ := (quoted_quote s).cons
  exact ⟨_, t, ht, by decide⟩

/-- The text of every value starts as a value may, whatever numbers are in it. -/
theorem opens_compactChars (v : Json) : ∃ c t, compactChars v = c :: t ∧ Opens c := by
  cases v with
  | null => exact ⟨_, _, rfl, by decide⟩
  | bool b => cases b <;> exact ⟨_, _, rfl, by decide⟩
  | number n =>
      rw [compactChars, compact]
      exact n.opens_render
  | string s =>
      rw [compactChars, compact]
      exact opens_quote s
  | array vs =>
      rw [compactChars_array]
      exact ⟨_, _, rfl, by decide⟩
  | object ms =>
      rw [compactChars_object]
      exact ⟨_, _, rfl, by decide⟩

end Json

end ResourceApi
