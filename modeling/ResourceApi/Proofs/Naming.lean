import ResourceApi.Naming
import ResourceApi.Proofs.Text.LetterCase

/-!
Words of names. Cutting a text into words drops exactly the characters that are no letters and no
numbers, and keeps all others in their order. Neither letter case puts a slash into a name.
-/

namespace ResourceApi.Naming

/-! ### Words -/

theorem flatten_cutRun (mode : Mode) (word s : List Char) :
    (cutRun mode word s).flatten = word.reverse ++ s := by
  fun_induction cutRun mode word s with
  | case1 mode word hempty =>
      rw [List.isEmpty_iff] at hempty
      simp [hempty]
  | case2 mode word hempty => simp
  | case3 mode word c => simp
  | case4 mode word c next rest hcut ih => simp [ih]
  | case5 mode word c next rest hstay hcut ih => simp [ih]
  | case6 mode word c next rest hstay hgo ih => simp [ih]

theorem flatten_runs (run s : List Char) :
    (runs run s).flatten = run.reverse ++ s.filter Text.isAlphanumeric := by
  fun_induction runs run s with
  | case1 run hempty =>
      rw [List.isEmpty_iff] at hempty
      simp [hempty]
  | case2 run hempty => simp
  | case3 run c rest hc ih => simp [ih, hc]
  | case4 run c rest hc hempty ih =>
      rw [List.isEmpty_iff] at hempty
      simp [ih, hc, hempty]
  | case5 run c rest hc hempty ih => simp [ih, hc]

/-- The words of a text are its letters and numbers, in their order. -/
theorem flatten_words (s : String) : (words s).flatten = s.toList.filter Text.isAlphanumeric := by
  have hcut : ∀ run ∈ runs [] s.toList, (cutRun .boundary [] run).flatten = run := fun run _ =>
    flatten_cutRun .boundary [] run
  calc (words s).flatten
      = ((runs [] s.toList).map fun run => (cutRun .boundary [] run).flatten).flatten := by
        rw [words, List.flatMap, List.flatten_flatten, List.map_map]
        rfl
    _ = (runs [] s.toList).flatten := by
        rw [List.map_congr_left hcut, List.map_id']
    _ = s.toList.filter Text.isAlphanumeric := flatten_runs [] s.toList

theorem isAlphanumeric_of_mem_words {s : String} {word : List Char} (hword : word ∈ words s)
    {c : Char} (hc : c ∈ word) : Text.isAlphanumeric c = true := by
  have hmem := List.mem_flatten.mpr ⟨word, hword, hc⟩
  rw [flatten_words] at hmem
  exact (List.mem_filter.mp hmem).2

/-! ### Letter case -/

/-- The characters of a word in lower case are those of its characters in lower case, but for a
sigma at its end. -/
theorem mem_lowerWord {word : List Char} {c : Char} (h : c ∈ lowerWord word) :
    c = 'ς' ∨ ∃ d ∈ word, c ∈ Text.toLower d := by
  fun_induction lowerWord word with
  | case1 => cases h
  | case2 => exact .inl (List.mem_singleton.mp h)
  | case3 d hd => exact .inr ⟨d, List.mem_cons_self, h⟩
  | case4 d rest hrest ih =>
      rcases List.mem_append.mp h with h | h
      · exact .inr ⟨d, List.mem_cons_self, h⟩
      · rcases ih h with h | ⟨e, he, h⟩
        · exact .inl h
        · exact .inr ⟨e, List.mem_cons_of_mem _ he, h⟩

theorem mem_intercalate {sep : List Char} {parts : List (List Char)} {c : Char}
    (h : c ∈ List.intercalate sep parts) : c ∈ sep ∨ ∃ part ∈ parts, c ∈ part := by
  induction parts with
  | nil => cases h
  | cons part parts ih =>
      cases parts with
      | nil =>
          rw [List.intercalate_singleton] at h
          exact .inr ⟨part, List.mem_cons_self, h⟩
      | cons next parts =>
          rw [List.intercalate_cons_cons, List.mem_append, List.mem_append] at h
          rcases h with h | h
          · exact h.symm.imp_right fun h => ⟨part, List.mem_cons_self, h⟩
          · exact (ih h).imp_right fun ⟨part, hpart, h⟩ => ⟨part, List.mem_cons_of_mem _ hpart, h⟩

theorem unmarked_of_mem_words {s : String} {word : List Char} (hword : word ∈ words s) :
    Text.Unmarked word :=
  fun _ hc => Text.not_isMark_of_isAlphanumeric (isAlphanumeric_of_mem_words hword hc)

theorem unmarked_lowerWord {word : List Char} (hword : Text.Unmarked word) :
    Text.Unmarked (lowerWord word) := by
  intro c h
  rcases mem_lowerWord h with rfl | ⟨d, hd, h⟩
  · decide
  · exact Text.unmarked_toLower (hword d hd) c h

/-- A name in kebab case is one segment of a path. -/
theorem slash_not_mem_kebabCase (s : String) : '/' ∉ (kebabCase s).toList := by
  intro h
  rw [kebabCase, String.toList_ofList] at h
  rcases mem_intercalate h with h | ⟨part, hpart, h⟩
  · cases List.mem_singleton.mp h
  · obtain ⟨word, hword, rfl⟩ := List.mem_map.mp hpart
    exact unmarked_lowerWord (unmarked_of_mem_words hword) '/' h (.inl rfl)

/-- A name in camel case stands in a pointer as it is. -/
theorem unmarked_upperCamelCase (s : String) : Text.Unmarked (upperCamelCase s).toList := by
  intro c h
  rw [upperCamelCase, String.toList_ofList] at h
  obtain ⟨word, hword, h⟩ := List.mem_flatMap.mp h
  have hmarks := unmarked_of_mem_words hword
  cases word with
  | nil => cases h
  | cons first rest =>
      obtain ⟨hfirst, hrest⟩ := List.forall_mem_cons.mp hmarks
      rcases List.mem_append.mp h with h | h
      · exact Text.unmarked_toUpper hfirst c h
      · exact unmarked_lowerWord hrest c h

end ResourceApi.Naming
