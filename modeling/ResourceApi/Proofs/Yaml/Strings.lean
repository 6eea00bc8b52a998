import ResourceApi.Proofs.Yaml.Leaves

/-!
Strings in the style that is chosen for them. Each style is one that the string can be read from,
and the text of a short key has no line ends and is short as well.
-/

namespace ResourceApi.Yaml

open Token.Scan (Scalar)

variable {s w chars : List Char} {style : Style} {x : Char} {n : Nat}

theorem isPrintable_of_hasUnprintable (h : hasUnprintable s = false) :
    ∀ x ∈ s, isPrintable x = true := by
  rw [hasUnprintable, Bool.not_eq_false'] at h
  exact List.all_eq_true.mp h

/-- Text that may be written without quotes is a scalar as it is. -/
theorem scalar_plain (hs : s ≠ []) (h : plainAllowed s = true) : Scalar .plain s s := by
  have hwords := words_of_plainAllowed hs h
  simp only [plainAllowed, Bool.not_eq_true', Bool.or_eq_false_iff] at h
  obtain ⟨⟨⟨⟨-, hprint⟩, -⟩, hbegins⟩, -⟩ := h
  refine .plain hwords hbegins fun hhead => ?_
  have hmark := isPrintable_of_hasUnprintable hprint _ (List.mem_of_mem_head? hhead)
  exact absurd hmark (by decide)

/-- A string that is not written over several lines is a scalar in its style. -/
theorem scalar_stringText (n : Nat) (h : Style.ofText s ≠ .literal) :
    Scalar (Style.ofText s) (stringText (n + 1) s) s := by
  have hdouble : Scalar .double (doubleQuoted s) s := .double (spells_doubleChar s 0)
  rw [stringText]
  rw [Style.ofText] at h ⊢
  split_ifs at h ⊢ with hfeed hliteral hplain hsingle
  · exact absurd rfl h
  · exact hdouble
  · rw [Bool.and_eq_true, Bool.not_eq_true'] at hplain
    refine scalar_plain ?_ hplain.1
    rintro rfl
    exact absurd hplain.2 (by decide)
  · have hfeed' : '\n' ∉ s := by simpa using hfeed
    have hbody := (spells_singleBody n hsingle hfeed').1 0 (by simp)
    change Scalar .single (singleQuoted (n + 1) s) s
    rw [singleQuoted_eq]
    exact .single hbody
  · exact hdouble

/-- Text over several lines may hold such characters as may be written as they are. -/
theorem isPrintable_of_literal (h : Style.ofText s = .literal) :
    s ≠ [] ∧ ∀ x ∈ s, isPrintable x = true := by
  rw [Style.ofText] at h
  split_ifs at h with hfeed hliteral hplain hsingle
  rw [List.contains_iff_mem] at hfeed
  simp only [literalAllowed, Bool.not_eq_true', Bool.or_eq_false_iff] at hliteral
  exact ⟨List.ne_nil_of_mem hfeed, isPrintable_of_hasUnprintable hliteral.1.1⟩

theorem endLine_of_getLast? (h : w.getLast? = some x) (hx : isBreak x = false) :
    endLine w = w ++ ['\n'] := by
  rw [endLine, h]
  simp [hx]

theorem endLine_scalar (h : Scalar style w chars) : endLine w = w ++ ['\n'] := by
  cases h with
  | plain hs hbegins hbom =>
      obtain ⟨x, t, rfl, -⟩ := hs.exists_cons
      have hne := List.cons_ne_nil x t
      exact endLine_of_getLast? (List.getLast?_eq_some_getLast hne)
        (hs.flat _ (List.getLast_mem hne))
  | @single t chars h =>
      have hlast : ('\'' :: (t ++ ['\''])).getLast? = some '\'' := by
        rw [← List.cons_append, List.getLast?_concat]
      exact endLine_of_getLast? hlast (by decide)
  | @double t chars h =>
      have hlast : ('"' :: (t ++ ['"'])).getLast? = some '"' := by
        rw [← List.cons_append, List.getLast?_concat]
      exact endLine_of_getLast? hlast (by decide)

/-! ### Short keys -/

/-- How many bytes the characters take. -/
def byteSize : List Char → Nat
  | [] => 0
  | x :: s => x.utf8Size + byteSize s

theorem utf8ByteSize_ofList (s : List Char) : (String.ofList s).utf8ByteSize = byteSize s := by
  induction s with
  | nil => rfl
  | cons x s ih =>
      rw [byteSize, ← ih, ← String.utf8ByteSize_singleton, ← String.utf8ByteSize_append,
        ← List.singleton_append, String.ofList_append]
      rfl

theorem length_le_byteSize (s : List Char) : s.length ≤ byteSize s := by
  induction s with
  | nil => exact Nat.le_refl _
  | cons x s ih =>
      have hpos := x.utf8Size_pos
      rw [byteSize, List.length_cons]
      omega

theorem length_flatMap_le {f : Char → List Char} {k : Nat} (h : ∀ x, (f x).length ≤ k * x.utf8Size)
    (s : List Char) : (s.flatMap f).length ≤ k * byteSize s := by
  induction s with
  | nil => exact Nat.zero_le _
  | cons x s ih =>
      have hx := h x
      rw [List.flatMap_cons, List.length_append, byteSize, Nat.mul_add]
      omega

theorem length_singleChar_le (x : Char) : (singleChar x).length ≤ 2 * x.utf8Size := by
  have hpos := x.utf8Size_pos
  rw [singleChar]
  split <;> simp <;> omega

theorem utf8Size_eq (x : Char) :
    x.utf8Size = if x.toNat ≤ 0x7F then 1 else if x.toNat ≤ 0x7FF then 2
      else if x.toNat ≤ 0xFFFF then 3 else 4 := by
  simp only [Char.utf8Size, UInt32.le_iff_toNat_le]
  rfl

theorem length_escaped_le (x : Char) : (escaped x).length ≤ 4 * x.utf8Size := by
  have hpos := x.utf8Size_pos
  unfold escaped
  simp only
  split
  · simp
    omega
  · split_ifs with hbyte hplane
    · rw [List.length_append, length_hexDigits (length_toDigits_byte hbyte)]
      simp
      omega
    · rw [List.length_append, length_hexDigits (length_toDigits_plane hplane), utf8Size_eq]
      simp
      split_ifs <;> omega
    · rw [List.length_append, length_hexDigits (length_toDigits_char x), utf8Size_eq]
      simp
      split_ifs <;> omega

theorem length_doubleChar_le (x : Char) : (doubleChar x).length ≤ 4 * x.utf8Size := by
  have hpos := x.utf8Size_pos
  rw [doubleChar]
  split
  · exact length_escaped_le x
  · rw [List.length_singleton]
    omega

theorem flat_doubleChar (x : Char) : ∀ y ∈ doubleChar x, isBreak y = false := by
  rw [doubleChar]
  split
  · obtain ⟨e, he, hread⟩ := exists_escaped x
    rw [he]
    exact List.forall_mem_cons.mpr ⟨by decide, hread.flat⟩
  · next h =>
      simp only [Bool.or_eq_true, Bool.not_eq_true', decide_eq_true_eq, not_or,
        Bool.not_eq_false, Bool.not_eq_true] at h
      simpa using h.1.1.2

theorem flat_singleChar (hx : isBreak x = false) : ∀ y ∈ singleChar x, isBreak y = false := by
  rw [singleChar]
  split
  · simp
    decide
  · simpa using hx

theorem singleBody_flat (n : Nat) (h : ∀ x ∈ s, isBreak x = false) :
    singleBody n false s = s.flatMap singleChar := by
  induction s with
  | nil => rfl
  | cons x s ih =>
      obtain ⟨hx, hs⟩ := List.forall_mem_cons.mp h
      rw [singleBody_solid n false hx, ih hs]
      rfl

theorem flat_quoted {quote : Char} {f : Char → List Char} (hquote : isBreak quote = false)
    (hf : ∀ x ∈ s, ∀ y ∈ f x, isBreak y = false) :
    ∀ y ∈ quote :: (s.flatMap f ++ [quote]), isBreak y = false := by
  intro y hy
  simp only [List.mem_cons, List.mem_append, List.mem_flatMap, List.not_mem_nil, or_false] at hy
  rcases hy with rfl | ⟨x, hx, hy⟩ | rfl
  · exact hquote
  · exact hf x hx y hy
  · exact hquote

/-- The text of a short key is on one line and short as well. -/
theorem stringText_simpleKey {key : String} (h : isSimpleKey key = true) (n : Nat) :
    Style.ofText key.toList ≠ .literal ∧
      (∀ x ∈ stringText (n + 1) key.toList, isBreak x = false) ∧
      (stringText (n + 1) key.toList).length ≤ 1024 := by
  rw [isSimpleKey, Bool.and_eq_true, decide_eq_true_eq, Bool.not_eq_true'] at h
  obtain ⟨hsize, hbreak⟩ := h
  have hflat : ∀ x ∈ key.toList, isBreak x = false := by simpa using hbreak
  have hbytes : byteSize key.toList ≤ 128 := by
    rwa [← utf8ByteSize_ofList, String.ofList_toList]
  have hlength := length_le_byteSize key.toList
  have hfeed : key.toList.contains '\n' = false := by
    rw [← Bool.not_eq_true, List.contains_iff_mem]
    exact fun hmem => absurd (hflat _ hmem) (by decide)
  have hdouble : (∀ x ∈ doubleQuoted key.toList, isBreak x = false) ∧
      (doubleQuoted key.toList).length ≤ 1024 := by
    have hle := length_flatMap_le length_doubleChar_le key.toList
    rw [doubleQuoted_eq]
    refine ⟨flat_quoted (by decide) fun x _ => flat_doubleChar x, ?_⟩
    simp only [List.length_cons, List.length_append, List.length_nil]
    omega
  have hsingle : (∀ x ∈ singleQuoted (n + 1) key.toList, isBreak x = false) ∧
      (singleQuoted (n + 1) key.toList).length ≤ 1024 := by
    have hle := length_flatMap_le length_singleChar_le key.toList
    rw [singleQuoted_eq, singleBody_flat _ hflat]
    refine ⟨flat_quoted (by decide) fun x hx => flat_singleChar (hflat x hx), ?_⟩
    simp only [List.length_cons, List.length_append, List.length_nil]
    omega
  rw [stringText, Style.ofText, hfeed]
  simp only [Bool.false_eq_true, if_false]
  split_ifs
  · exact ⟨by decide, hflat, by simp only; omega⟩
  · exact ⟨by decide, hsingle⟩
  · exact ⟨by decide, hdouble⟩

end ResourceApi.Yaml
