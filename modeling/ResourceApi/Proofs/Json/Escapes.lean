import Mathlib.Data.List.Basic
import ResourceApi.Proofs.Json.Pointers

/-!
Pointers by replacements. A token is escaped by replacing first its tildes and then its slashes, and
read back by replacing the escapes of slashes and then those of tildes. No replacement takes what
another one has put in for its own, so a pointer leads back to the tokens that were pushed.
-/

namespace ResourceApi

namespace Text

/-- Replaces each occurrence of a text, from left to right; what has been put in is not looked at
again. The text is `first` with `more` behind it, so that it is never empty. -/
def replaceAll (first : Char) (more new : List Char) : List Char → List Char
  | [] => []
  | c :: rest =>
    if c = first ∧ more <+: rest then new ++ replaceAll first more new (rest.drop more.length)
    else c :: replaceAll first more new rest
termination_by s => s.length

section Replace

variable {first c d : Char} {more new rest : List Char}

theorem replaceAll_nil : replaceAll first more new [] = [] := by
  rw [replaceAll]

theorem replaceAll_match (rest : List Char) :
    replaceAll first more new (first :: (more ++ rest)) =
      new ++ replaceAll first more new rest := by
  rw [replaceAll, if_pos ⟨rfl, List.prefix_append more rest⟩, List.drop_left]

theorem replaceAll_cons (h : ¬ (c = first ∧ more <+: rest)) :
    replaceAll first more new (c :: rest) = c :: replaceAll first more new rest := by
  rw [replaceAll, if_neg h]

/-- A single character is replaced wherever it stands. -/
theorem replaceAll_char (c : Char) (new s : List Char) :
    replaceAll c [] new s = s.flatMap fun d => if d = c then new else [d] := by
  induction s with
  | nil => exact replaceAll_nil
  | cons d s ih =>
      rw [List.flatMap_cons]
      by_cases hd : d = c
      · subst hd
        rw [if_pos rfl, ← ih]
        exact replaceAll_match s
      · rw [if_neg hd, ← ih]
        exact replaceAll_cons fun h => hd h.1

/-- A character that is put in does not make up an occurrence of another two characters. -/
theorem singleton_prefix_replaceAll {a b : Char} (hnew : c ≠ d)
    (h : [d] <+: replaceAll a [b] [c] rest) : [d] <+: rest := by
  cases rest with
  | nil => rwa [replaceAll_nil] at h
  | cons e rest =>
      rw [replaceAll] at h
      split at h
      · obtain ⟨hd, -⟩ := List.cons_prefix_cons.mp h
        exact absurd hd.symm hnew
      · obtain ⟨hd, -⟩ := List.cons_prefix_cons.mp h
        exact List.cons_prefix_cons.mpr ⟨hd, List.nil_prefix⟩

end Replace

end Text

namespace Json.Pointer

open Text

/-- Escaping character by character is replacing tildes first and then slashes. -/
theorem flatMap_escapeChar (token : List Char) :
    token.flatMap escapeChar =
      replaceAll '/' [] ['~', '1'] (replaceAll '~' [] ['~', '0'] token) := by
  rw [replaceAll_char, replaceAll_char, List.flatMap_assoc]
  apply List.flatMap_congr
  intro c _
  by_cases htilde : c = '~'
  · subst htilde
    rfl
  · rw [escapeChar, if_neg htilde, if_neg htilde, List.flatMap_singleton]

theorem push_eq_replaceAll (pointer token : String) :
    push pointer token = pointer ++ "/" ++
      String.ofList (replaceAll '/' [] ['~', '1'] (replaceAll '~' [] ['~', '0'] token.toList)) := by
  rw [push, flatMap_escapeChar, String.append_assoc]
  congr 1
  apply String.toList_inj.mp
  simp only [String.toList_append, String.toList_ofList]
  rfl

/-- Undoing the escapes in one pass is replacing those of slashes first and then those of tildes:
the slashes that are put in come between no tilde and a zero. -/
theorem unescape_eq_replaceAll (s : List Char) :
    unescape s = replaceAll '~' ['0'] ['~'] (replaceAll '~' ['1'] ['/'] s) := by
  fun_induction unescape s with
  | case1 rest ih =>
      have hslash : replaceAll '~' ['1'] ['/'] ('~' :: '1' :: rest) =
          '/' :: replaceAll '~' ['1'] ['/'] rest := replaceAll_match rest
      rw [hslash, replaceAll_cons (by simp), ih]
  | case2 rest ih =>
      have hkeep : replaceAll '~' ['1'] ['/'] ('~' :: '0' :: rest) =
          '~' :: '0' :: replaceAll '~' ['1'] ['/'] rest := by
        rw [replaceAll_cons (by simp), replaceAll_cons (by simp)]
      have htilde : replaceAll '~' ['0'] ['~'] ('~' :: '0' :: replaceAll '~' ['1'] ['/'] rest) =
          '~' :: replaceAll '~' ['0'] ['~'] (replaceAll '~' ['1'] ['/'] rest) :=
        replaceAll_match _
      rw [hkeep, htilde, ih]
  | case3 c rest hone hzero ih =>
      have hslash : ¬ (c = '~' ∧ ['1'] <+: rest) := by
        rintro ⟨rfl, more, rfl⟩
        exact hone more rfl rfl
      have htilde : ¬ (c = '~' ∧ ['0'] <+: replaceAll '~' ['1'] ['/'] rest) := by
        rintro ⟨rfl, h⟩
        obtain ⟨more, rfl⟩ := singleton_prefix_replaceAll (by decide) h
        exact hzero more rfl rfl
      rw [replaceAll_cons hslash, replaceAll_cons htilde, ih]
  | case4 => rw [replaceAll_nil, replaceAll_nil]

/-- **Pushing tokens loses nothing.** Pushing escapes a token by two replacements, and the tokens
are read back from between the slashes by the two opposite ones. So different tokens give different
pointers, whatever characters they hold. -/
theorem pushed_tokens_read_back (pushed : List String) :
    (∀ pointer token, push pointer token = pointer ++ "/" ++
      String.ofList (replaceAll '/' [] ['~', '1'] (replaceAll '~' [] ['~', '0'] token.toList))) ∧
    (Text.split '/' (pushed.foldl push "").toList).map (fun part =>
      String.ofList (replaceAll '~' ['0'] ['~'] (replaceAll '~' ['1'] ['/'] part))) =
        "" :: pushed ∧
    ∀ others, pushed.foldl push "" = others.foldl push "" ↔ pushed = others := by
  refine ⟨push_eq_replaceAll, ?_, fun others => ?_⟩
  · have hread : ∀ token ∈ pushed, String.ofList (replaceAll '~' ['0'] ['~']
        (replaceAll '~' ['1'] ['/'] (token.toList.flatMap escapeChar))) = token := by
      intro token _
      rw [← unescape_eq_replaceAll, unescape_escape, String.ofList_toList]
    have hsplit := split_ofTokens pushed
    rw [ofTokens] at hsplit
    rw [hsplit, List.map_cons, List.map_map, replaceAll_nil, replaceAll_nil]
    congr 1
    exact (List.map_congr_left hread).trans (List.map_id' pushed)
  · constructor
    · intro h
      exact ofTokens_injective h
    · rintro rfl
      rfl

end Json.Pointer

end ResourceApi
