import Mathlib.Tactic.Common
import ResourceApi.Yaml.Printer
import ResourceApi.Yaml.Scalar

/-!
Passing over text. A cursor behind some text is what is left of passing over its characters one by
one; the end of a line is passed by going to the next line. What blanks and line ends between words
stand for is read in this way.
-/

namespace ResourceApi.Yaml

/-- The ends of lines that are read as what they are. -/
def IsLineEnd (b : Char) : Prop := b = '\n' ∨ b = '\u2028' ∨ b = '\u2029'

theorem IsLineEnd.isBreak {b : Char} (h : IsLineEnd b) : isBreak b = true := by
  rcases h with rfl | rfl | rfl <;> decide

theorem IsLineEnd.isBlank {b : Char} (h : IsLineEnd b) : isBlank b = false := by
  rcases h with rfl | rfl | rfl <;> decide

theorem IsLineEnd.ne_return {b : Char} (h : IsLineEnd b) : b ≠ '\r' := by
  rcases h with rfl | rfl | rfl <;> decide

theorem endsWord_eq_false {x : Char} (h : isBlank x = false ∧ isBreak x = false) :
    endsWord (some x) = false := by
  rw [endsWord, h.1, h.2]
  rfl

namespace Cursor

variable {c : Cursor} {text rest : List Char} {x b : Char}

@[simp]
theorem skip_rest (c : Cursor) (n : Nat) : (c.skip n).rest = c.rest.drop n := rfl

@[simp]
theorem skip_index (c : Cursor) (n : Nat) : (c.skip n).index = c.index + n := rfl

@[simp]
theorem skip_line (c : Cursor) (n : Nat) : (c.skip n).line = c.line := rfl

@[simp]
theorem skip_column (c : Cursor) (n : Nat) : (c.skip n).column = c.column + n := rfl

theorem skip_zero (c : Cursor) : c.skip 0 = c := rfl

theorem skip_skip (c : Cursor) (m n : Nat) : (c.skip m).skip n = c.skip (m + n) := by
  simp only [skip, List.drop_drop, Nat.add_assoc]

theorem peek_of_rest (h : c.rest = x :: rest) : c.peek = some x := by rw [peek, h]; rfl

theorem isAt_of_rest (h : c.rest = x :: rest) (p : Char → Bool) : c.isAt p = p x := by
  rw [isAt, peek_of_rest h]
  rfl

theorem isAt_of_nil (h : c.rest = []) (p : Char → Bool) : c.isAt p = false := by
  rw [isAt, peek, h]
  rfl

theorem skipWhile_of_rest {p : Char → Bool} (h : c.rest = text ++ rest) (htext : text.all p)
    (hrest : (rest.head?.map p).getD false = false) : c.skipWhile p = c.skip text.length := by
  have htake : c.rest.takeWhile p = text := by
    rw [h, List.takeWhile_append_of_pos (by simpa using htext)]
    cases rest with
    | nil => simp
    | cons x rest => simp_all
  rw [skipWhile, htake]

theorem skipLine_of_rest (h : c.rest = x :: rest) (hx : x ≠ '\r') :
    c.skipLine = ⟨rest, c.index + 1, c.line + 1, 0⟩ := by
  rw [skipLine, h]
  split
  · next heq => exact absurd (List.cons.inj heq).1 hx
  · next heq =>
      obtain ⟨-, rfl⟩ := List.cons.inj heq
      rfl
  · next heq => cases heq

theorem readLine_of_rest (h : c.rest = b :: rest) (hb : IsLineEnd b) :
    c.readLine = ([b], c.skipLine) := by
  rw [readLine, h]
  rcases hb with rfl | rfl | rfl <;> rfl

theorem isAtBound_of_column (h : 0 < c.column) : c.isAtBound = false := by
  simp [isAtBound, Nat.ne_of_gt h]

/-- The cursor behind a text that begins where it stands. -/
def past (c : Cursor) (text : List Char) : Cursor :=
  text.foldl (fun c x => if isBreak x then c.skipLine else c.skip 1) c

theorem past_append (c : Cursor) (text more : List Char) :
    c.past (text ++ more) = (c.past text).past more := List.foldl_append

theorem past_cons_break (hx : isBreak x = true) : c.past (x :: text) = c.skipLine.past text := by
  rw [past, List.foldl_cons, if_pos hx, ← past]

/-- Where no line ends, only characters are passed. -/
theorem past_of_flat (h : ∀ x ∈ text, isBreak x = false) : c.past text = c.skip text.length := by
  induction text generalizing c with
  | nil => rfl
  | cons x text ih =>
      obtain ⟨hx, htext⟩ := List.forall_mem_cons.mp h
      rw [past, List.foldl_cons, hx, if_neg (by decide), ← past, ih htext, skip_skip,
        List.length_cons, Nat.add_comm]

theorem rest_past (h : c.rest = text ++ rest) (htext : '\r' ∉ text) :
    (c.past text).rest = rest := by
  induction text generalizing c with
  | nil => exact h
  | cons x text ih =>
      simp only [List.mem_cons, not_or] at htext
      rw [past, List.foldl_cons, ← past]
      split
      · refine ih ?_ htext.2
        rw [skipLine_of_rest h (Ne.symm htext.1)]
        rfl
      · refine ih ?_ htext.2
        rw [skip_rest, h]
        rfl

theorem line_le_past (c : Cursor) (text : List Char) : c.line ≤ (c.past text).line := by
  induction text generalizing c with
  | nil => exact Nat.le_refl _
  | cons x text ih =>
      rw [past, List.foldl_cons, ← past]
      refine Nat.le_trans ?_ (ih _)
      split
      · rw [skipLine]
        split <;> simp
      · exact Nat.le_refl _

/-- Behind the end of a line, the line is another one and columns are counted anew. -/
theorem past_line_end (h : c.rest = text ++ b :: rest) (htext : '\r' ∉ text) (hb : IsLineEnd b) :
    c.line < (c.past (text ++ [b])).line ∧ (c.past (text ++ [b])).column = 0 := by
  have hrest := rest_past h htext
  rw [past_append, past_cons_break hb.isBreak, skipLine_of_rest hrest hb.ne_return]
  exact ⟨Nat.lt_succ_of_le (line_le_past c text), rfl⟩

end Cursor

/-! ### Gaps -/

/-- The text does not go on with a blank or the end of a line. -/
def EndsGap (rest : List Char) : Prop := ∀ x ∈ rest.head?, isBlank x = false ∧ isBreak x = false

theorem endsGap_cons {x : Char} (hblank : isBlank x = false) (hbreak : isBreak x = false)
    (rest : List Char) : EndsGap (x :: rest) := by
  intro y hy
  obtain rfl := Option.some.inj hy
  exact ⟨hblank, hbreak⟩

theorem pad_succ (n : Nat) : pad (n + 1) = ' ' :: pad n := List.replicate_succ

theorem pad_append_space (n : Nat) (s : List Char) : pad n ++ ' ' :: s = pad (n + 1) ++ s := by
  simp [pad, List.replicate_succ']

@[simp]
theorem length_pad (n : Nat) : (pad n).length = n := List.length_replicate

theorem eq_space_of_mem_pad {n : Nat} {x : Char} (h : x ∈ pad n) : x = ' ' :=
  List.eq_of_mem_replicate h

theorem isBreak_of_mem_pad {n : Nat} : ∀ x ∈ pad n, isBreak x = false := by
  intro x hx
  rw [eq_space_of_mem_pad hx]
  decide

theorem Cursor.past_pad (c : Cursor) (n : Nat) : c.past (pad n) = c.skip n := by
  rw [past_of_flat isBreak_of_mem_pad, length_pad]

/-- Behind the end of a line and its indentation, the column is the width of the indentation. -/
theorem Cursor.past_line {c : Cursor} {text rest : List Char} {b : Char}
    (h : c.rest = text ++ b :: rest) (htext : '\r' ∉ text) (hb : IsLineEnd b) (k : Nat) :
    c.line < (c.past (text ++ b :: pad k)).line ∧ (c.past (text ++ b :: pad k)).column = k := by
  obtain ⟨hline, hcolumn⟩ := past_line_end h htext hb
  rw [← List.singleton_append, ← List.append_assoc, past_append, past_pad, skip_line, skip_column,
    hcolumn, Nat.zero_add]
  exact ⟨hline, rfl⟩

theorem not_mem_of_isLineEnd {bs : List Char} (h : ∀ b ∈ bs, IsLineEnd b) : '\r' ∉ bs :=
  fun hmem => (h _ hmem).ne_return rfl

theorem not_mem_breaks_pad {bs : List Char} (h : ∀ b ∈ bs, IsLineEnd b) (k : Nat) :
    '\r' ∉ bs ++ pad k := by
  rw [List.mem_append, not_or]
  exact ⟨not_mem_of_isLineEnd h, fun hmem => absurd (eq_space_of_mem_pad hmem) (by decide)⟩

/-- The same behind the ends of several lines. -/
theorem Cursor.past_lines {c : Cursor} {text bs rest : List Char}
    (h : c.rest = text ++ (bs ++ rest)) (htext : '\r' ∉ text) (hne : bs ≠ [])
    (hbs : ∀ b ∈ bs, IsLineEnd b) (k : Nat) :
    c.line < (c.past (text ++ (bs ++ pad k))).line ∧
      (c.past (text ++ (bs ++ pad k))).column = k := by
  have hbefore : '\r' ∉ text ++ bs.dropLast := by
    rw [List.mem_append, not_or]
    exact ⟨htext, not_mem_of_isLineEnd fun b hb => hbs b (List.dropLast_subset bs hb)⟩
  have hsplit (more : List Char) :
      text ++ (bs ++ more) = text ++ bs.dropLast ++ bs.getLast hne :: more := by
    conv_lhs => rw [← List.dropLast_concat_getLast hne]
    simp
  rw [hsplit]
  exact past_line (h.trans (hsplit rest)) hbefore (hbs _ (List.getLast_mem hne)) k

theorem Cursor.column_past_breaks {c : Cursor} {bs rest : List Char} (h : c.rest = bs ++ rest)
    (hbs : ∀ b ∈ bs, IsLineEnd b) (hcolumn : c.column = 0) (k : Nat) :
    (c.past (bs ++ pad k)).column = k := by
  by_cases hne : bs = []
  · rw [hne, List.nil_append, past_pad, skip_column, hcolumn, Nat.zero_add]
  · exact (past_lines ((List.nil_append _).symm ▸ h) List.not_mem_nil hne hbs k).2

namespace Gap

variable {limit fuel n : Nat} {g : Gap} {c : Cursor} {more rest : List Char} {b : Char}

theorem scan_end (h : EndsGap c.rest) : scan limit fuel g c = some (g, c) := by
  cases fuel with
  | zero => rfl
  | succ fuel =>
      rw [scan]
      cases hpeek : c.peek with
      | none => rfl
      | some x =>
          obtain ⟨hblank, hbreak⟩ := h x hpeek
          simp [hblank, hbreak]

/-- Blanks on a line stand for themselves. -/
theorem scan_blanks (h : c.rest = pad n ++ rest) (hrest : EndsGap rest) (hg : g.broken = false)
    (hfuel : n ≤ fuel) :
    scan limit fuel g c = some ({ g with blanks := g.blanks ++ pad n }, c.skip n) := by
  induction n generalizing fuel g c with
  | zero =>
      rw [scan_end (h ▸ hrest), Cursor.skip_zero, pad, List.replicate_zero, List.append_nil]
  | succ n ih =>
      obtain ⟨fuel, rfl⟩ := Nat.exists_eq_add_of_le' (Nat.lt_of_lt_of_le (Nat.succ_pos n) hfuel)
      rw [pad_succ, List.cons_append] at h
      have hskip : (c.skip 1).rest = pad n ++ rest := by rw [Cursor.skip_rest, h]; rfl
      rw [scan, Cursor.peek_of_rest h]
      simp only [show isBlank ' ' = true by decide, if_true, hg, Bool.false_and, if_false,
        Bool.false_eq_true]
      rw [ih hskip rfl (by omega)]
      simp [pad_succ, Cursor.skip_skip, Nat.add_comm]

/-- The indentation of a line does not count. -/
theorem scan_indentation (h : c.rest = pad n ++ rest) (hrest : EndsGap rest)
    (hg : g.broken = true) (hfuel : n ≤ fuel) :
    scan limit fuel g c = some (g, c.skip n) := by
  induction n generalizing fuel c with
  | zero => rw [scan_end (h ▸ hrest), Cursor.skip_zero]
  | succ n ih =>
      obtain ⟨fuel, rfl⟩ := Nat.exists_eq_add_of_le' (Nat.lt_of_lt_of_le (Nat.succ_pos n) hfuel)
      rw [pad_succ, List.cons_append] at h
      have hskip : (c.skip 1).rest = pad n ++ rest := by rw [Cursor.skip_rest, h]; rfl
      rw [scan, Cursor.peek_of_rest h]
      simp only [show isBlank ' ' = true by decide, if_true, hg, show ' ' ≠ '\t' by decide,
        decide_false, Bool.and_false, if_false, Bool.false_eq_true]
      rw [ih hskip (by omega), Cursor.skip_skip, Nat.add_comm 1]

theorem scan_more (h : c.rest = more ++ pad n ++ rest) (hmore : ∀ b ∈ more, IsLineEnd b)
    (hrest : EndsGap rest) (hg : g.broken = true) (hfuel : (more ++ pad n).length ≤ fuel) :
    scan limit fuel g c =
      some ({ g with more := g.more ++ more }, c.past (more ++ pad n)) := by
  induction more generalizing fuel g c with
  | nil =>
      rw [List.nil_append] at h hfuel ⊢
      rw [scan_indentation h hrest hg (by rwa [length_pad] at hfuel), List.append_nil,
        Cursor.past_pad]
  | cons b more ih =>
      obtain ⟨hb, hmore⟩ := List.forall_mem_cons.mp hmore
      have hpos : 0 < fuel := Nat.lt_of_lt_of_le (by simp) hfuel
      obtain ⟨fuel, rfl⟩ := Nat.exists_eq_add_of_le' hpos
      have hline := Cursor.skipLine_of_rest h hb.ne_return
      rw [scan, Cursor.peek_of_rest h]
      simp only [hb.isBlank, hb.isBreak, if_true, if_false, Bool.false_eq_true,
        Cursor.readLine_of_rest h hb, hg]
      rw [ih (by rw [hline]; rfl) hmore rfl (by simpa using hfuel)]
      simp [Cursor.past_cons_break hb.isBreak]

/-- Line ends stand for themselves, but a line feed has to be told from those that do. -/
theorem scan_lines (h : c.rest = b :: more ++ pad n ++ rest) (hb : IsLineEnd b)
    (hmore : ∀ b ∈ more, IsLineEnd b) (hrest : EndsGap rest) (hg : g.broken = false)
    (hfuel : (b :: more ++ pad n).length ≤ fuel) :
    scan limit fuel g c = some (⟨[], true, [b], more⟩, c.past (b :: more ++ pad n)) := by
  have hpos : 0 < fuel := Nat.lt_of_lt_of_le (by simp) hfuel
  obtain ⟨fuel, rfl⟩ := Nat.exists_eq_add_of_le' hpos
  have hline := Cursor.skipLine_of_rest h hb.ne_return
  rw [scan, Cursor.peek_of_rest h]
  simp only [hb.isBlank, hb.isBreak, if_true, if_false, Bool.false_eq_true,
    Cursor.readLine_of_rest h hb, hg]
  rw [scan_more (by rw [hline]; rfl) hmore hrest rfl (by simpa using hfuel)]
  simp [Cursor.past_cons_break hb.isBreak]

end Gap

end ResourceApi.Yaml
