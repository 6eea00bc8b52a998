import Mathlib.Tactic.Common
import ResourceApi.Proofs.Json.Grammar

/-!
Strings are read by their grammar: a reader that succeeds has consumed a string, and it consumes
the same string, with the same characters, whatever follows.
-/

namespace ResourceApi.Json

open Reader

/-! ### Escapes -/

theorem hexUnit_eq_ok {s rest : List Char} {n : Nat} (h : hexUnit s = .ok (n, rest)) :
    ∃ ds, s = ds ++ rest ∧ HexUnit ds n := by
  simp only [hexUnit] at h
  split at h
  · simp at h
  · split at h
    · split at h
      · rename_i hi hj hk hl
        simp only [Except.ok.injEq, Prod.mk.injEq] at h
        obtain ⟨rfl, rfl⟩ := h
        exact ⟨[_, _, _, _], rfl, .digits hi hj hk hl⟩
      · simp at h
    · simp at h

theorem hexUnit_append {ds : List Char} {n : Nat} (h : HexUnit ds n) (rest : List Char) :
    hexUnit (ds ++ rest) = .ok (n, rest) := by
  cases h with
  | @digits a b c d i j k l ha hb hc hd =>
      have hbytes : ¬ 0 + a.utf8Size + b.utf8Size + c.utf8Size + d.utf8Size < 4 := by
        have h1 := a.utf8Size_pos
        have h2 := b.utf8Size_pos
        have h3 := c.utf8Size_pos
        have h4 := d.utf8Size_pos
        omega
      simp only [hexUnit, List.cons_append, List.nil_append, List.take_succ_cons, List.take_zero,
        List.foldl_cons, List.foldl_nil, hbytes, if_false, ha, hb, hc, hd]

theorem HexUnit.length_eq {ds : List Char} {n : Nat} (h : HexUnit ds n) : ds.length = 4 := by
  cases h with
  | digits => rfl

theorem unicodeEscape_eq_ok {s rest : List Char} {c : Char}
    (h : unicodeEscape s = .ok (c, rest)) : ∃ e, s = e ++ rest ∧ Escape ('u' :: e) c := by
  simp only [unicodeEscape] at h
  split at h
  · simp at h
  · rename_i unit tail hunit
    obtain ⟨ds, rfl, hds⟩ := hexUnit_eq_ok hunit
    split at h
    · simp at h
    · rename_i hlow
      split at h
      · rename_i hsingle
        simp only [Except.ok.injEq, Prod.mk.injEq] at h
        obtain ⟨rfl, rfl⟩ := h
        exact ⟨ds, rfl, .unit hds (by omega)⟩
      · rename_i hhigh
        split at h
        · simp at h
        · simp at h
        · rename_i tail
          split at h
          · simp at h
          · rename_i low tail hunit
            obtain ⟨es, rfl, hes⟩ := hexUnit_eq_ok hunit
            split at h
            · simp at h
            · simp only [Except.ok.injEq, Prod.mk.injEq] at h
              obtain ⟨rfl, rfl⟩ := h
              refine ⟨ds ++ '\\' :: 'u' :: es, by simp, .pair hds hes (by omega) (by omega)⟩
        · simp at h
        · simp at h

theorem unicodeEscape_append {e : List Char} {c : Char} (h : Escape ('u' :: e) c)
    (rest : List Char) : unicodeEscape (e ++ rest) = .ok (c, rest) := by
  cases h with
  | letter h => simp [simpleEscape?] at h
  | @unit s n hs hn =>
      have hlow : ¬ (0xDC00 ≤ n ∧ n ≤ 0xDFFF) := by omega
      have hsingle : n < 0xD800 ∨ 0xDBFF < n := by omega
      simp only [unicodeEscape, hexUnit_append hs, hlow, hsingle, if_true, if_false]
  | @pair s t high low hs ht hhigh hlow =>
      have h1 : ¬ (0xDC00 ≤ high ∧ high ≤ 0xDFFF) := by omega
      have h2 : ¬ (high < 0xD800 ∨ 0xDBFF < high) := by omega
      have h3 : ¬ (low < 0xDC00 ∨ 0xDFFF < low) := by omega
      simp only [unicodeEscape, List.append_assoc, List.cons_append, hexUnit_append hs, h1, h2,
        h3, hexUnit_append ht, if_false]

theorem escape_eq_ok {s rest : List Char} {c : Char} (h : escape s = .ok (c, rest)) :
    ∃ e, s = e ++ rest ∧ Escape e c := by
  unfold escape at h
  split at h
  · simp at h
  · obtain ⟨e, rfl, he⟩ := unicodeEscape_eq_ok h
    exact ⟨'u' :: e, rfl, he⟩
  · split at h
    · rename_i hl
      simp only [Except.ok.injEq, Prod.mk.injEq] at h
      obtain ⟨rfl, rfl⟩ := h
      exact ⟨[_], rfl, .letter hl⟩
    · simp at h

theorem escape_append {e : List Char} {c : Char} (h : Escape e c) (rest : List Char) :
    escape (e ++ rest) = .ok (c, rest) := by
  cases h with
  | @letter l c h =>
      have hu : l ≠ 'u' := by
        rintro rfl
        simp [simpleEscape?] at h
      unfold escape
      split
      · simp at *
      · simp_all
      · simp_all
  | unit hs hn => exact unicodeEscape_append (.unit hs hn) rest
  | pair hs ht hhigh hlow => exact unicodeEscape_append (.pair hs ht hhigh hlow) rest

/-! ### Strings -/

theorem stringBody_eq_ok {fuel : Nat} {done s chars rest : List Char}
    (h : stringBody fuel done s = .ok (chars, rest)) :
    ∃ text cs, s = text ++ rest ∧ StringRest text cs ∧ chars = done.reverse ++ cs := by
  induction fuel generalizing done s with
  | zero => simp [stringBody] at h
  | succ fuel ih =>
      cases s with
      | nil => simp [stringBody] at h
      | cons c s =>
          rw [stringBody] at h
          split at h
          · rename_i hquote
            simp only [Except.ok.injEq, Prod.mk.injEq] at h
            obtain ⟨rfl, rfl⟩ := h
            exact ⟨['"'], [], by rw [hquote]; rfl, .close, by simp⟩
          · rename_i hquote
            split at h
            · rename_i hslash
              split at h
              · simp at h
              · rename_i hescape
                obtain ⟨e, rfl, he⟩ := escape_eq_ok hescape
                obtain ⟨text, cs, rfl, hrest, rfl⟩ := ih h
                exact ⟨'\\' :: (e ++ text), _ :: cs, by rw [hslash]; simp, .escape he hrest,
                  by simp⟩
            · rename_i hslash
              split at h
              · simp at h
              · rename_i hcontrol
                obtain ⟨text, cs, rfl, hrest, rfl⟩ := ih h
                exact ⟨c :: text, c :: cs, rfl, .plain hquote hslash (by omega) hrest, by simp⟩

theorem stringBody_append {text cs : List Char} (h : StringRest text cs) (rest : List Char)
    (fuel : Nat) (done : List Char) (hfuel : text.length ≤ fuel) :
    stringBody fuel done (text ++ rest) = .ok (done.reverse ++ cs, rest) := by
  induction h generalizing fuel done with
  | close =>
      obtain ⟨fuel, rfl⟩ : ∃ n, fuel = n + 1 := ⟨fuel - 1, by simp at hfuel; omega⟩
      simp [stringBody]
  | @plain c text cs hquote hslash hcontrol h ih =>
      obtain ⟨fuel, rfl⟩ : ∃ n, fuel = n + 1 := ⟨fuel - 1, by simp at hfuel; omega⟩
      simp only [List.length_cons, Nat.add_le_add_iff_right] at hfuel
      rw [List.cons_append, stringBody, if_neg hquote, if_neg hslash, if_neg (by omega),
        ih fuel (c :: done) hfuel, List.reverse_cons, List.append_assoc, List.singleton_append]
  | @escape e text cs c he h ih =>
      obtain ⟨fuel, rfl⟩ : ∃ n, fuel = n + 1 := ⟨fuel - 1, by simp at hfuel; omega⟩
      have hlength : text.length ≤ fuel := by
        simp only [List.length_cons, List.length_append] at hfuel
        omega
      simp only [List.cons_append, List.append_assoc, stringBody, escape_append he, if_true]
      rw [if_neg (by decide), ih fuel (c :: done) hlength, List.reverse_cons, List.append_assoc,
        List.singleton_append]

theorem string_eq_ok {s rest : List Char} {k : String} (h : Reader.string s = .ok (k, rest)) :
    ∃ text, s = text ++ rest ∧ Quoted ('"' :: text) k := by
  simp only [Reader.string] at h
  split at h
  · simp at h
  · rename_i chars tail hbody
    simp only [Except.ok.injEq, Prod.mk.injEq] at h
    obtain ⟨rfl, rfl⟩ := h
    obtain ⟨text, cs, rfl, hrest, rfl⟩ := stringBody_eq_ok hbody
    exact ⟨text, rfl, .mk (by simpa using hrest)⟩

theorem string_append {text : List Char} {k : String} (h : Quoted ('"' :: text) k)
    (rest : List Char) : Reader.string (text ++ rest) = .ok (k, rest) := by
  cases h with
  | mk h =>
      have hfuel : text.length ≤ (text ++ rest).length + 1 := by
        rw [List.length_append]
        omega
      simp only [Reader.string, stringBody_append h rest _ [] hfuel, List.reverse_nil,
        List.nil_append]

theorem Quoted.cons {text : List Char} {k : String} (h : Quoted text k) :
    ∃ t, text = '"' :: t := by
  cases h with
  | mk => exact ⟨_, rfl⟩

end ResourceApi.Json
