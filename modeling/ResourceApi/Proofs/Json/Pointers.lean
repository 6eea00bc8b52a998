import Mathlib.Tactic.Common
import Std.Data.String.ToNat
import ResourceApi.Json.Pointer
import ResourceApi.Proofs.Text.Splitting

/-!
Pointers name paths. The tokens of a pointer are those it was built from, whatever characters they
hold, so different tokens make different pointers.
-/

namespace ResourceApi

namespace Json.Pointer

theorem slash_not_mem_escapeChar (c : Char) : '/' ∉ escapeChar c := by
  unfold escapeChar
  split
  · decide
  · split
    · decide
    · rename_i h
      simpa using Ne.symm h

theorem slash_not_mem_escape (s : List Char) : '/' ∉ s.flatMap escapeChar := by
  simp only [List.mem_flatMap, not_exists, not_and]
  exact fun c _ => slash_not_mem_escapeChar c

theorem unescape_cons {c : Char} (h : c ≠ '~') (s : List Char) :
    unescape (c :: s) = c :: unescape s := by
  rw [unescape] <;> simp_all

theorem unescape_escape (s : List Char) : unescape (s.flatMap escapeChar) = s := by
  induction s with
  | nil => rfl
  | cons c s ih =>
      rw [List.flatMap_cons]
      by_cases htilde : c = '~'
      · subst htilde
        simp only [escapeChar, if_true, List.cons_append, List.nil_append, unescape, ih]
      by_cases hslash : c = '/'
      · subst hslash
        simp only [escapeChar, htilde, if_false, if_true, List.cons_append, List.nil_append,
          unescape, ih]
      · simp only [escapeChar, htilde, hslash, if_false, List.cons_append, List.nil_append,
          unescape_cons htilde, ih]

/-- The pointer with these tokens. -/
def ofTokens (ts : List String) : String := ts.foldl push ""

theorem ofTokens_concat (ts : List String) (token : String) :
    ofTokens (ts ++ [token]) = push (ofTokens ts) token := by
  rw [ofTokens, List.foldl_append]
  rfl

theorem ofPath_eq_ofTokens (path : Path) : ofPath path = ofTokens (path.map Step.token) := by
  rw [ofPath, ofTokens, List.foldl_map]

theorem toList_foldl_push (pointer : String) (ts : List String) :
    (ts.foldl push pointer).toList =
      pointer.toList ++ (ts.map fun token => token.toList.flatMap escapeChar).flatMap
        fun part => '/' :: part := by
  induction ts generalizing pointer with
  | nil => simp
  | cons token ts ih => simp [ih, push]

/-- Between its slashes a pointer has nothing and then its escaped tokens. -/
theorem split_ofTokens (ts : List String) : Text.split '/' (ofTokens ts).toList =
    [] :: ts.map fun token => token.toList.flatMap escapeChar := by
  rw [ofTokens, toList_foldl_push]
  refine Text.split_flatMap fun part hpart => ?_
  obtain ⟨token, -, rfl⟩ := List.mem_map.mp hpart
  exact slash_not_mem_escape token.toList

/-- The tokens of a pointer are those it was built from. -/
theorem tokens_ofTokens (ts : List String) : tokens (ofTokens ts) = ts := by
  rw [tokens, split_ofTokens, List.tail_cons, List.map_map]
  conv => rhs; rw [← List.map_id' ts]
  refine List.map_congr_left fun token _ => ?_
  simp only [Function.comp_apply, unescape_escape, String.ofList_toList]

theorem ofTokens_injective {ts us : List String} (h : ofTokens ts = ofTokens us) : ts = us := by
  rw [← tokens_ofTokens ts, h, tokens_ofTokens]

end Json.Pointer

end ResourceApi
