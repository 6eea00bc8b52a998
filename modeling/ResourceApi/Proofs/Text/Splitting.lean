import Mathlib.Tactic.Common
import ResourceApi.Text.Split

/-!
Splitting at separators. No part has a separator, and parts that are put together with separators
between or before them are found again.
-/

namespace ResourceApi.Text

variable {separator : Char} {part : List Char}

theorem split_cons_of_ne {c : Char} (h : c ≠ separator) (rest : List Char) : ∃ part parts,
    split separator rest = part :: parts ∧ split separator (c :: rest) = (c :: part) :: parts := by
  have hne : ∀ s, split separator s ≠ [] := by
    intro s
    induction s with
    | nil => exact List.cons_ne_nil _ _
    | cons d s ih =>
        rw [split]
        split
        · exact List.cons_ne_nil _ _
        · split
          · exact List.cons_ne_nil _ _
          · exact List.cons_ne_nil _ _
  obtain ⟨part, parts, hparts⟩ := List.exists_cons_of_ne_nil (hne rest)
  exact ⟨part, parts, hparts, by rw [split, if_neg h, hparts]⟩

theorem not_mem_of_mem_split {s : List Char} (h : part ∈ split separator s) :
    separator ∉ part := by
  induction s generalizing part with
  | nil =>
      obtain rfl := List.mem_singleton.mp h
      exact List.not_mem_nil
  | cons c s ih =>
      by_cases hc : c = separator
      · rw [split, if_pos hc] at h
        rcases List.mem_cons.mp h with rfl | h
        · exact List.not_mem_nil
        · exact ih h
      · obtain ⟨first, parts, hparts, hcons⟩ := split_cons_of_ne hc s
        rw [hcons] at h
        rw [hparts] at ih
        rcases List.mem_cons.mp h with rfl | h
        · exact List.not_mem_cons_of_ne_of_not_mem (Ne.symm hc) (ih List.mem_cons_self)
        · exact ih (List.mem_cons_of_mem _ h)

/-- A separator ends one part and begins another one, whatever stands around it. -/
theorem split_append_separator (s rest : List Char) :
    split separator (s ++ separator :: rest) = split separator s ++ split separator rest := by
  induction s with
  | nil => exact if_pos rfl
  | cons c s ih =>
      by_cases hc : c = separator
      · rw [List.cons_append, split, if_pos hc, ih, split, if_pos hc, List.cons_append]
      · obtain ⟨part, parts, hparts, hcons⟩ := split_cons_of_ne hc s
        rw [hcons, List.cons_append, split, if_neg hc, ih, hparts]
        rfl

theorem split_of_not_mem (h : separator ∉ part) : split separator part = [part] := by
  induction part with
  | nil => rfl
  | cons c part ih =>
      simp only [List.mem_cons, not_or] at h
      rw [split, if_neg (Ne.symm h.1), ih h.2]

theorem split_append (h : separator ∉ part) (rest : List Char) :
    split separator (part ++ separator :: rest) = part :: split separator rest := by
  rw [split_append_separator, split_of_not_mem h, List.singleton_append]

/-- Text in which a separator stands before each part splits into those parts. -/
theorem split_flatMap {parts : List (List Char)} (h : ∀ part ∈ parts, separator ∉ part) :
    split separator (parts.flatMap fun part => separator :: part) = [] :: parts := by
  suffices hbehind : ∀ part, separator ∉ part →
      split separator (part ++ parts.flatMap fun part => separator :: part) = part :: parts from
    hbehind [] (by simp)
  induction parts with
  | nil =>
      intro part hpart
      rw [List.flatMap_nil, List.append_nil, split_of_not_mem hpart]
  | cons next parts ih =>
      obtain ⟨hnext, hparts⟩ := List.forall_mem_cons.mp h
      intro part hpart
      rw [List.flatMap_cons, List.cons_append, split_append hpart, ih hparts next hnext]

/-- Text in which a separator stands between two parts each splits into those parts. -/
theorem split_intercalate {parts : List (List Char)} (hne : parts ≠ [])
    (h : ∀ part ∈ parts, separator ∉ part) :
    split separator (List.intercalate [separator] parts) = parts := by
  induction parts with
  | nil => exact absurd rfl hne
  | cons part parts ih =>
      obtain ⟨hpart, hparts⟩ := List.forall_mem_cons.mp h
      cases parts with
      | nil => rw [List.intercalate_singleton, split_of_not_mem hpart]
      | cons next parts =>
          rw [List.intercalate_cons_cons, List.append_assoc, List.singleton_append,
            split_append hpart, ih (List.cons_ne_nil _ _) hparts]

end ResourceApi.Text
