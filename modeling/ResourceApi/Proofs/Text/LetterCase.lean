import Mathlib.Tactic.Common
import ResourceApi.Text.LetterCase
import ResourceApi.Text.Property

/-!
What letters become in lower and in upper case. The images are read from tables, so statements about
all of them are decided on the characters of the tables; no letter or number becomes a slash or a
tilde.
-/

namespace ResourceApi.Text

/-! ### Tables -/

theorem search_mem {α : Type} {entries : Array α} {key : α → Nat} {n fuel low high : Nat}
    {entry : α} (h : lastAtMost.search entries key n fuel low high = some entry) :
    entry ∈ entries := by
  induction fuel generalizing low high with
  | zero =>
      rw [lastAtMost.search] at h
      split at h
      · cases h
      · exact Array.mem_of_getElem? h
  | succ fuel ih =>
      rw [lastAtMost.search] at h
      split at h
      · split at h
        · cases h
        · exact Array.mem_of_getElem? h
      · dsimp only at h
        split at h
        · split at h
          · exact ih h
          · exact ih h
        · cases h

theorem lastAtMost_mem {α : Type} {entries : Array α} {key : α → Nat} {n : Nat} {entry : α}
    (h : lastAtMost entries key n = some entry) : entry ∈ entries :=
  search_mem h

/-- The strings have these characters, one string after the other. -/
inductive Spelled : List String → List Char → Prop where
  | nil : Spelled [] []
  | cons {chars rest : List Char} {parts : List String} (h : Spelled parts rest) :
      Spelled (String.ofList chars :: parts) (chars ++ rest)

theorem Spelled.toList_join {parts : List String} {chars : List Char} (h : Spelled parts chars) :
    (String.join parts).toList = chars := by
  induction h with
  | nil => rfl
  | @cons chars rest parts _ ih => simp [String.join_cons, String.toList_append, ih]

theorem caseRuns_join {parts : List String} {chars : List Char} (h : Spelled parts chars) :
    caseRuns (String.join parts) = caseRuns.build (numbersOf chars) #[] := by
  rw [caseRuns, numbers, h.toList_join]

theorem longImages_join {parts : List String} {chars : List Char} (h : Spelled parts chars) :
    longImages (String.join parts) = longImages.build (numbersOf chars) := by
  rw [longImages, numbers, h.toList_join]

/-! ### Marks -/

/-- The characters that have a meaning of their own in pointers. -/
def IsMark (c : Char) : Prop := c = '/' ∨ c = '~'

instance (c : Char) : Decidable (IsMark c) := inferInstanceAs (Decidable (_ ∨ _))

theorem isMark_iff {c : Char} : IsMark c ↔ c.toNat = '/'.toNat ∨ c.toNat = '~'.toNat := by
  rw [IsMark, Char.toNat_inj, Char.toNat_inj]

/-- No character of the text is a mark. -/
def Unmarked (s : List Char) : Prop := ∀ c ∈ s, ¬ IsMark c

-- The instance is given in full: the one that is found for a statement about all characters goes
-- through every code point.
instance (s : List Char) : Decidable (Unmarked s) := List.decidableBAll (fun c => ¬ IsMark c) s

/-- No image of the run is a mark: they all stand between the two marks or behind them. -/
def CaseRun.Unmarked (run : CaseRun) : Prop :=
  '~'.toNat < run.image ∨
    ('/'.toNat < run.image ∧ run.image + run.count * run.step ≤ '~'.toNat)

instance (run : CaseRun) : Decidable run.Unmarked := inferInstanceAs (Decidable (_ ∨ _))

set_option maxRecDepth 100000 in
theorem unmarked_of_mem_lowerRuns : ∀ run ∈ lowerRuns.toList, run.Unmarked := by
  -- The strings of the table are taken apart before anything is computed, since strings do not
  -- compute well themselves.
  rw [lowerRuns, caseRuns_join (by repeat first | exact .nil | apply Spelled.cons)]
  decide +kernel

set_option maxRecDepth 100000 in
theorem unmarked_of_mem_upperRuns : ∀ run ∈ upperRuns.toList, run.Unmarked := by
  rw [upperRuns, caseRuns_join (by repeat first | exact .nil | apply Spelled.cons)]
  decide +kernel

theorem unmarked_of_mem_lowerLong : ∀ entry ∈ lowerLong, Unmarked entry.2 := by
  decide +kernel

set_option maxRecDepth 100000 in
theorem unmarked_of_mem_upperLong : ∀ entry ∈ upperLong, Unmarked entry.2 := by
  rw [upperLong, longImages_join (by repeat first | exact .nil | apply Spelled.cons)]
  decide +kernel

theorem not_isMark_ofNat {n : Nat} (hslash : n ≠ '/'.toNat) (htilde : n ≠ '~'.toNat) :
    ¬ IsMark (Char.ofNat n) := by
  by_cases hvalid : n.isValidChar
  · have hn : (Char.ofNat n).toNat = n := by
      rw [Char.ofNat, dif_pos hvalid]
      rfl
    rw [isMark_iff, hn, not_or]
    exact ⟨hslash, htilde⟩
  · rw [Char.ofNat, dif_neg hvalid]
    decide

theorem CaseRun.Unmarked.image {run : CaseRun} (h : run.Unmarked) {n m : Nat}
    (hm : run.image? n = some m) : m ≠ '/'.toNat ∧ m ≠ '~'.toNat := by
  rw [CaseRun.image?] at hm
  split at hm
  · cases hm
  · rename_i hinside
    obtain rfl := Option.some.inj hm
    rw [not_or, not_or, not_or, Nat.not_le] at hinside
    obtain ⟨-, hstep, -, hcount⟩ := hinside
    have hdistance : n - run.first < run.count * run.step :=
      (Nat.div_lt_iff_lt_mul (Nat.pos_of_ne_zero hstep)).mp hcount
    have hmarks : '/'.toNat < '~'.toNat := by decide
    rw [CaseRun.Unmarked] at h
    omega

theorem not_isMark_mapBy {runs : Array CaseRun} (h : ∀ run ∈ runs.toList, run.Unmarked) {c d : Char}
    (hd : mapBy runs c = some d) : ¬ IsMark d := by
  rw [mapBy] at hd
  split at hd
  · rename_i run hrun
    obtain ⟨n, hn, rfl⟩ := Option.map_eq_some_iff.mp hd
    obtain ⟨hslash, htilde⟩ :=
      (h run (Array.mem_toList_iff.mpr (lastAtMost_mem hrun))).image hn
    exact not_isMark_ofNat hslash htilde
  · cases hd

/-! ### Letter case -/

theorem unmarked_lookup {long : List (Nat × List Char)} (h : ∀ entry ∈ long, Unmarked entry.2)
    {n : Nat} {image : List Char} (himage : long.lookup n = some image) : Unmarked image := by
  obtain ⟨before, after, hlong, -⟩ := List.lookup_eq_some_iff.mp himage
  exact h (n, image) (by simp [hlong])

theorem unmarked_getD_mapBy {runs : Array CaseRun} (h : ∀ run ∈ runs.toList, run.Unmarked)
    {c : Char} (hc : ¬ IsMark c) : Unmarked [(mapBy runs c).getD c] := by
  rw [Unmarked, List.forall_mem_singleton]
  cases hmap : mapBy runs c with
  | none => exact hc
  | some e => exact not_isMark_mapBy h hmap

/-- What holds of the first 128 code points holds of all ASCII characters. -/
theorem of_ascii {P : Char → Prop} (h : ∀ n < 128, P (Char.ofNat n)) {c : Char}
    (hc : c.toNat < 128) : P c := by
  have hn := h c.toNat hc
  rwa [Char.ofNat_toNat] at hn

/-- Only a mark has a mark in its lower case. -/
theorem unmarked_toLower {c : Char} (hc : ¬ IsMark c) : Unmarked (toLower c) := by
  rw [toLower]
  split
  · rename_i hascii
    rw [Unmarked, List.forall_mem_singleton]
    exact of_ascii (P := fun c => ¬ IsMark c → ¬ IsMark c.toLower) (by decide) hascii hc
  · split
    · rename_i image himage
      exact unmarked_lookup unmarked_of_mem_lowerLong himage
    · exact unmarked_getD_mapBy unmarked_of_mem_lowerRuns hc

/-- Only a mark has a mark in its upper case. -/
theorem unmarked_toUpper {c : Char} (hc : ¬ IsMark c) : Unmarked (toUpper c) := by
  rw [toUpper]
  split
  · rename_i hascii
    rw [Unmarked, List.forall_mem_singleton]
    exact of_ascii (P := fun c => ¬ IsMark c → ¬ IsMark c.toUpper) (by decide) hascii hc
  · split
    · rename_i image himage
      exact unmarked_lookup unmarked_of_mem_upperLong himage
    · exact unmarked_getD_mapBy unmarked_of_mem_upperRuns hc

theorem not_isMark_of_isAlphanumeric {c : Char} (h : isAlphanumeric c = true) : ¬ IsMark c := by
  have hslash : isAlphanumeric '/' = false := by decide
  have htilde : isAlphanumeric '~' = false := by decide
  rintro (rfl | rfl)
  · rw [hslash] at h
    cases h
  · rw [htilde] at h
    cases h

end ResourceApi.Text
