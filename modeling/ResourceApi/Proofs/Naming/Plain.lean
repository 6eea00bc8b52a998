import ResourceApi.Proofs.Naming

/-!
Plain names: an ASCII letter, then ASCII letters, digits, underscores and blanks. In kebab case such a
name is made of lower case words with hyphens between them, in camel case of letters and digits
alone; in either case a letter comes first.
-/

namespace ResourceApi

namespace Text

theorem isAlphanum_of_isAlpha {c : Char} (h : c.isAlpha = true) : c.isAlphanum = true := by
  rw [Char.isAlphanum, h, Bool.true_or]

theorem lt_of_isAlphanum {c : Char} (h : c.isAlphanum = true) : c.toNat < 128 := by
  unfold Char.isAlphanum Char.isAlpha Char.isUpper Char.isLower Char.isDigit at h
  simp only [Bool.or_eq_true, Bool.and_eq_true, decide_eq_true_eq, UInt32.le_iff_toNat_le,
    ge_iff_le] at h
  have hlast : 'Z'.val.toNat < 128 ∧ 'z'.val.toNat < 128 ∧ '9'.val.toNat < 128 := by decide
  rw [← Char.toNat_val]
  omega

theorem isAlphanumeric_of_lt {c : Char} (h : c.toNat < 128) : isAlphanumeric c = c.isAlphanum := by
  rw [isAlphanumeric, isAlphabetic, isNumeric, if_pos h, if_pos h, Char.isAlphanum]

end Text

namespace Naming

/-! ### Forms of names -/

/-- Words with blanks and underscores between them; the name starts with a letter. -/
def IsPlain (s : String) : Prop :=
  ∃ first rest, s.toList = first :: rest ∧ first.isAlpha = true ∧
    ∀ c ∈ rest, c.isAlphanum = true ∨ c = '_' ∨ c = ' '

def IsLowerOrDigit (c : Char) : Prop := c.isLower = true ∨ c.isDigit = true

instance (c : Char) : Decidable (IsLowerOrDigit c) := inferInstanceAs (Decidable (_ ∨ _))

/-- Parts of lower case letters and digits with hyphens between them, none of them empty; the first
one starts with a letter. -/
def IsHyphenated (s : String) : Prop :=
  ∃ first more parts, s.toList = List.intercalate ['-'] ((first :: more) :: parts) ∧
    first.isLower = true ∧ (∀ c ∈ more, IsLowerOrDigit c) ∧
    ∀ part ∈ parts, part ≠ [] ∧ ∀ c ∈ part, IsLowerOrDigit c

/-- Letters and digits, the first one an upper case letter. -/
def IsCapitalised (s : String) : Prop :=
  ∃ first rest, s.toList = first :: rest ∧ first.isUpper = true ∧
    ∀ c ∈ rest, c.isAlphanum = true

/-! ### Words of plain names -/

/-- A word is cut off only when it has a character. -/
theorem ne_nil_of_mem_cutRun {mode : Mode} {word s : List Char}
    (hmode : mode = .uppercase → word ≠ []) {cut : List Char} (h : cut ∈ cutRun mode word s) :
    cut ≠ [] := by
  fun_induction cutRun mode word s with
  | case1 => cases h
  | case2 mode word hempty =>
      obtain rfl := List.mem_singleton.mp h
      rw [List.isEmpty_iff] at hempty
      exact List.reverse_ne_nil_iff.mpr hempty
  | case3 =>
      obtain rfl := List.mem_singleton.mp h
      exact List.reverse_ne_nil_iff.mpr (List.cons_ne_nil _ _)
  | case4 mode word c next rest hcut ih =>
      rcases List.mem_cons.mp h with rfl | h
      · exact List.reverse_ne_nil_iff.mpr (List.cons_ne_nil _ _)
      · exact ih (fun h => by cases h) h
  | case5 mode word c next rest hstay hcut ih =>
      rcases List.mem_cons.mp h with rfl | h
      · exact List.reverse_ne_nil_iff.mpr (hmode hcut.1)
      · exact ih (fun h => by cases h) h
  | case6 mode word c next rest hstay hgo ih => exact ih (fun _ => List.cons_ne_nil _ _) h

theorem ne_nil_of_mem_words {s : String} {word : List Char} (h : word ∈ words s) : word ≠ [] := by
  obtain ⟨run, -, h⟩ := List.mem_flatMap.mp h
  exact ne_nil_of_mem_cutRun (fun h => by cases h) h

theorem IsPlain.isAlphanum {s : String} (h : IsPlain s) {c : Char} (hc : c ∈ s.toList)
    (halphanumeric : Text.isAlphanumeric c = true) : c.isAlphanum = true := by
  obtain ⟨first, rest, hs, hfirst, hrest⟩ := h
  rw [hs] at hc
  have hunderscore : Text.isAlphanumeric '_' = false := by decide
  have hblank : Text.isAlphanumeric ' ' = false := by decide
  rcases List.mem_cons.mp hc with rfl | hc
  · exact Text.isAlphanum_of_isAlpha hfirst
  · rcases hrest c hc with hc | rfl | rfl
    · exact hc
    · rw [hunderscore] at halphanumeric
      cases halphanumeric
    · rw [hblank] at halphanumeric
      cases halphanumeric

/-- The words of a plain name are not empty and have nothing but letters and digits, and the first
word starts with a letter. -/
theorem IsPlain.words {s : String} (h : IsPlain s) : ∃ first more others,
    Naming.words s = (first :: more) :: others ∧ first.isAlpha = true ∧
    ∀ word ∈ Naming.words s, word ≠ [] ∧ ∀ c ∈ word, c.isAlphanum = true := by
  have hall : ∀ word ∈ Naming.words s, word ≠ [] ∧ ∀ c ∈ word, c.isAlphanum = true := by
    refine fun word hword => ⟨ne_nil_of_mem_words hword, fun c hc => ?_⟩
    have hmem := List.mem_flatten.mpr ⟨word, hword, hc⟩
    rw [flatten_words] at hmem
    obtain ⟨hs, halphanumeric⟩ := List.mem_filter.mp hmem
    exact h.isAlphanum hs halphanumeric
  obtain ⟨first, rest, hs, hfirst, -⟩ := h
  have halphanum := Text.isAlphanum_of_isAlpha hfirst
  have hkept : Text.isAlphanumeric first = true := by
    rw [Text.isAlphanumeric_of_lt (Text.lt_of_isAlphanum halphanum), halphanum]
  have hflatten := flatten_words s
  rw [hs, List.filter_cons_of_pos hkept] at hflatten
  cases hwords : Naming.words s with
  | nil =>
      rw [hwords] at hflatten
      cases hflatten
  | cons word others =>
      obtain ⟨c, more, rfl⟩ :=
        List.exists_cons_of_ne_nil (hall word (hwords ▸ List.mem_cons_self)).1
      rw [hwords, List.flatten_cons, List.cons_append] at hflatten
      obtain rfl := (List.cons.inj hflatten).1
      exact ⟨c, more, others, rfl, hfirst, hwords ▸ hall⟩

/-! ### Letter case of plain words -/

section Ascii

variable {c : Char}

theorem isLower_toLower (h : c.isAlpha = true) : c.toLower.isLower = true :=
  Text.of_ascii (P := fun c => c.isAlpha = true → c.toLower.isLower = true) (by decide)
    (Text.lt_of_isAlphanum (Text.isAlphanum_of_isAlpha h)) h

theorem isUpper_toUpper (h : c.isAlpha = true) : c.toUpper.isUpper = true :=
  Text.of_ascii (P := fun c => c.isAlpha = true → c.toUpper.isUpper = true) (by decide)
    (Text.lt_of_isAlphanum (Text.isAlphanum_of_isAlpha h)) h

theorem isLowerOrDigit_toLower (h : c.isAlphanum = true) : IsLowerOrDigit c.toLower :=
  Text.of_ascii (P := fun c => c.isAlphanum = true → IsLowerOrDigit c.toLower) (by decide)
    (Text.lt_of_isAlphanum h) h

theorem isAlphanum_toUpper (h : c.isAlphanum = true) : c.toUpper.isAlphanum = true :=
  Text.of_ascii (P := fun c => c.isAlphanum = true → c.toUpper.isAlphanum = true) (by decide)
    (Text.lt_of_isAlphanum h) h

theorem IsLowerOrDigit.isAlphanum (h : IsLowerOrDigit c) : c.isAlphanum = true := by
  unfold Char.isAlphanum Char.isAlpha
  rcases h with h | h <;> simp [h]

theorem textToLower_of_isAlphanum (h : c.isAlphanum = true) : Text.toLower c = [c.toLower] := by
  rw [Text.toLower, if_pos (Text.lt_of_isAlphanum h)]

theorem textToUpper_of_isAlphanum (h : c.isAlphanum = true) : Text.toUpper c = [c.toUpper] := by
  rw [Text.toUpper, if_pos (Text.lt_of_isAlphanum h)]

end Ascii

theorem lowerWord_of_isAlphanum {word : List Char} (h : ∀ c ∈ word, c.isAlphanum = true) :
    lowerWord word = word.map Char.toLower := by
  fun_induction lowerWord word with
  | case1 => rfl
  | case2 =>
      have hsigma := h 'Σ' List.mem_cons_self
      revert hsigma
      decide
  | case3 c hc =>
      rw [textToLower_of_isAlphanum (h c List.mem_cons_self)]
      rfl
  | case4 c rest hrest ih =>
      obtain ⟨hc, hrest⟩ := List.forall_mem_cons.mp h
      rw [textToLower_of_isAlphanum hc, ih hrest]
      rfl

theorem isLowerOrDigit_of_mem_lowerWord {word : List Char} (h : ∀ c ∈ word, c.isAlphanum = true)
    {c : Char} (hc : c ∈ lowerWord word) : IsLowerOrDigit c := by
  rw [lowerWord_of_isAlphanum h] at hc
  obtain ⟨d, hd, rfl⟩ := List.mem_map.mp hc
  exact isLowerOrDigit_toLower (h d hd)

theorem isAlphanum_of_mem_capitalWord {word : List Char} (h : ∀ c ∈ word, c.isAlphanum = true)
    {c : Char} (hc : c ∈ capitalWord word) : c.isAlphanum = true := by
  cases word with
  | nil => cases hc
  | cons first rest =>
      obtain ⟨hfirst, hrest⟩ := List.forall_mem_cons.mp h
      rw [capitalWord, textToUpper_of_isAlphanum hfirst] at hc
      rcases List.mem_cons.mp hc with rfl | hc
      · exact isAlphanum_toUpper hfirst
      · exact (isLowerOrDigit_of_mem_lowerWord hrest hc).isAlphanum

/-! ### Plain names in either case -/

theorem IsPlain.kebabCase {s : String} (h : IsPlain s) : IsHyphenated (Naming.kebabCase s) := by
  obtain ⟨first, more, others, hwords, hfirst, hall⟩ := h.words
  rw [hwords] at hall
  obtain ⟨⟨-, hword⟩, hothers⟩ := List.forall_mem_cons.mp hall
  obtain ⟨-, hmore⟩ := List.forall_mem_cons.mp hword
  refine ⟨first.toLower, more.map Char.toLower, others.map lowerWord, ?_, isLower_toLower hfirst,
    ?_, ?_⟩
  · rw [Naming.kebabCase, String.toList_ofList, hwords, List.map_cons,
      lowerWord_of_isAlphanum hword, List.map_cons]
  · intro c hc
    obtain ⟨d, hd, rfl⟩ := List.mem_map.mp hc
    exact isLowerOrDigit_toLower (hmore d hd)
  · intro part hpart
    obtain ⟨word, hmem, rfl⟩ := List.mem_map.mp hpart
    obtain ⟨hne, hchars⟩ := hothers word hmem
    refine ⟨?_, fun c hc => isLowerOrDigit_of_mem_lowerWord hchars hc⟩
    rw [lowerWord_of_isAlphanum hchars]
    exact fun hnil => hne (List.map_eq_nil_iff.mp hnil)

theorem IsPlain.upperCamelCase {s : String} (h : IsPlain s) :
    IsCapitalised (Naming.upperCamelCase s) := by
  obtain ⟨first, more, others, hwords, hfirst, hall⟩ := h.words
  rw [hwords] at hall
  obtain ⟨⟨-, hword⟩, hothers⟩ := List.forall_mem_cons.mp hall
  obtain ⟨halphanum, hmore⟩ := List.forall_mem_cons.mp hword
  refine ⟨first.toUpper, lowerWord more ++ others.flatMap capitalWord, ?_,
    isUpper_toUpper hfirst, List.forall_mem_append.mpr ⟨?_, ?_⟩⟩
  · rw [Naming.upperCamelCase, String.toList_ofList, hwords, List.flatMap_cons, capitalWord,
      textToUpper_of_isAlphanum halphanum]
    rfl
  · exact fun c hc => (isLowerOrDigit_of_mem_lowerWord hmore hc).isAlphanum
  · intro c hc
    obtain ⟨word, hmem, hc⟩ := List.mem_flatMap.mp hc
    exact isAlphanum_of_mem_capitalWord (hothers word hmem).2 hc

end Naming

end ResourceApi
