import Mathlib.Data.List.DropRight
import ResourceApi.Text.Lines

/-!
Lines and offsets. The line of an offset is found by counting the line feeds before it, its column by
counting the characters since the last of them; going back from line and column gives the offset
again. The line ends where its visible part ends.
-/

namespace ResourceApi.Lines

/-! ### Columns -/

/-- The number of characters since the last line feed. -/
def column (before : List Char) : Nat := (before.rtakeWhile (· ≠ '\n')).length

theorem column_of_not_mem {s : List Char} (h : '\n' ∉ s) : column s = s.length := by
  have hall : s.rtakeWhile (· ≠ '\n') = s := by
    rw [List.rtakeWhile_eq_self_iff]
    exact fun c hc => decide_eq_true fun heq => h (heq ▸ hc)
  rw [column, hall]

/-- Nothing before a line feed counts. -/
theorem column_append (s t : List Char) : column (s ++ '\n' :: t) = column t := by
  rw [column, column]
  congr 1
  induction t using List.reverseRecOn with
  | nil => simp
  | append_singleton t c ih =>
      rw [← List.cons_append, ← List.append_assoc, List.rtakeWhile_concat, List.rtakeWhile_concat,
        ih]

/-! ### The visible part of a line -/

/-- What is left of a line: the characters before the next line feed, or before the carriage return
that stands directly in front of it. -/
def restOfLine : List Char → List Char
  | [] => []
  | '\n' :: _ => []
  | '\r' :: '\n' :: _ => []
  | c :: rest => c :: restOfLine rest

theorem restOfLine_cons {c : Char} {rest : List Char} (hc : c ≠ '\n')
    (hrest : ¬ (c = '\r' ∧ rest.head? = some '\n')) :
    restOfLine (c :: rest) = c :: restOfLine rest := by
  rw [restOfLine]
  · exact hc
  · rintro more rfl rfl
    exact hrest ⟨rfl, rfl⟩

theorem restOfLine_crlf {rest : List Char} (h : rest.head? = some '\n') :
    restOfLine ('\r' :: rest) = [] := by
  obtain ⟨more, rfl⟩ := List.head?_eq_some_iff.mp h
  rfl

theorem length_restOfLine_le (s : List Char) : (restOfLine s).length ≤ s.length := by
  fun_induction restOfLine s with
  | case1 | case2 | case3 => simp
  | case4 c rest _ _ ih => simpa using ih

/-! ### Lines as they are scanned -/

section Scan

variable {start i : Nat} {cr : Bool}

theorem start_scan (s : List Char) : (scan start i cr s).1.start = start := by
  induction s generalizing i cr with
  | nil => rfl
  | cons c s ih =>
      rw [scan]
      split
      · rfl
      · exact ih

/-- The line at hand ends with what is left of it, unless the carriage return before it turns out to
be part of its end. -/
theorem stop_scan (s : List Char) : (scan start i cr s).1.stop =
    if cr = true ∧ s.head? = some '\n' then i - 1 else i + (restOfLine s).length := by
  induction s generalizing i cr with
  | nil => simp [scan, restOfLine]
  | cons c s ih =>
      by_cases hc : c = '\n'
      · subst hc
        cases cr <;> simp [scan, restOfLine]
      · have hhead : ¬ (cr = true ∧ (c :: s).head? = some '\n') := by simp [hc]
        rw [scan, if_neg hc, ih, if_neg hhead]
        by_cases hcrlf : c = '\r' ∧ s.head? = some '\n'
        · obtain ⟨rfl, hs⟩ := hcrlf
          rw [if_pos ⟨by simp, hs⟩, restOfLine_crlf hs]
          rfl
        · rw [if_neg (by simpa using hcrlf), restOfLine_cons hc hcrlf, List.length_cons]
          omega

theorem lt_start_of_mem_scan {s : List Char} {line : Line} (h : line ∈ (scan start i cr s).2) :
    i < line.start := by
  induction s generalizing start i cr with
  | nil => cases h
  | cons c s ih =>
      rw [scan] at h
      split at h
      · rcases List.mem_cons.mp h with rfl | h
        · rw [start_scan]
          exact Nat.lt_succ_self i
        · exact Nat.lt_of_succ_lt (ih h)
      · exact Nat.lt_of_succ_lt (ih h)

theorem lineAt_of_lt {offset n : Nat} {line : Line} {lines : List Line}
    (h : ∀ next ∈ lines, offset < next.start) : lineAt offset n line lines = (n, line) := by
  cases lines with
  | nil => rfl
  | cons next lines =>
      rw [lineAt, if_neg (Nat.not_le.mpr (h next List.mem_cons_self))]

theorem start_le_lineAt {offset n : Nat} {line next : Line} {lines : List Line}
    (h : next.start ≤ offset) :
    lineAt offset n line (next :: lines) = lineAt offset (n + 1) next lines := by
  rw [lineAt, if_pos h]

/-- Passing over some characters leads to the line that is being scanned behind them: each line feed
among them is one line more. `done` is what has been read of the line at hand. -/
theorem lineAt_scan (start i : Nat) (cr : Bool) (done before after : List Char) (n : Nat)
    (hdone : '\n' ∉ done) (hi : i = start + done.length) : ∃ first cr',
      lineAt (i + before.length) n (scan start i cr (before ++ after)).1
          (scan start i cr (before ++ after)).2 =
        (n + before.count '\n', (scan first (i + before.length) cr' after).1) ∧
      first + column (done ++ before) = i + before.length := by
  induction before generalizing start i cr done n with
  | nil =>
      refine ⟨start, cr, ?_, ?_⟩
      · exact lineAt_of_lt fun next hnext => lt_start_of_mem_scan hnext
      · rw [List.append_nil, column_of_not_mem hdone, List.length_nil]
        omega
  | cons c before ih =>
      have hlength : i + (c :: before).length = i + 1 + before.length := by
        rw [List.length_cons]
        omega
      rw [hlength, List.cons_append, scan]
      by_cases hc : c = '\n'
      · subst hc
        obtain ⟨first, cr', hline, hcolumn⟩ :=
          ih (i + 1) (i + 1) false [] (n + 1) (by simp) rfl
        refine ⟨first, cr', ?_, ?_⟩
        · rw [if_pos rfl]
          simp only
          rw [start_le_lineAt (by rw [start_scan]; omega), hline, List.count_cons_self]
          congr 1
          omega
        · rw [column_append]
          exact hcolumn
      · have hmore : '\n' ∉ done ++ [c] := by simp [hdone, Ne.symm hc]
        obtain ⟨first, cr', hline, hcolumn⟩ :=
          ih start (i + 1) (c = '\r') (done ++ [c]) n hmore
            (by rw [List.length_append, List.length_singleton]; omega)
        refine ⟨first, cr', ?_, ?_⟩
        · rw [if_neg hc, hline, List.count_cons_of_ne hc]
        · rwa [List.append_assoc, List.singleton_append] at hcolumn

end Scan

/-! ### Lines and columns of offsets -/

/-- The line that holds an offset has the number with which it is found. -/
theorem getElem?_lineAt (offset n : Nat) (line : Line) (lines : List Line) : ∃ k,
    (lineAt offset n line lines).1 = n + k ∧
    (line :: lines)[k]? = some (lineAt offset n line lines).2 := by
  induction lines generalizing n line with
  | nil => exact ⟨0, rfl, rfl⟩
  | cons next lines ih =>
      rw [lineAt]
      split
      · obtain ⟨k, hnumber, hline⟩ := ih (n + 1) next
        exact ⟨k + 1, by rw [hnumber]; omega, hline⟩
      · exact ⟨0, rfl, rfl⟩

theorem line_lineAt (t : Lines) (offset : Nat) :
    t.line (lineAt offset 1 t.first t.others).1 = (lineAt offset 1 t.first t.others).2 := by
  obtain ⟨k, hnumber, hline⟩ := getElem?_lineAt offset 1 t.first t.others
  rw [hnumber]
  cases k with
  | zero => exact Option.some.inj hline
  | succ k =>
      rw [List.getElem?_cons_succ] at hline
      rw [Nat.add_comm, line, hline, Option.getD_some]

section Offsets

variable {text : String} {before after : List Char}

/-- The line behind some characters of a text, as it is scanned. -/
theorem lineAt_ofText (h : text.toList = before ++ after) : ∃ first cr,
    lineAt before.length 1 (ofText text).first (ofText text).others =
      (before.count '\n' + 1, (scan first before.length cr after).1) ∧
    first + column before = before.length := by
  obtain ⟨first, cr, hline, hcolumn⟩ :=
    lineAt_scan 0 0 false [] before after 1 (by simp) rfl
  rw [Nat.zero_add] at hline hcolumn
  refine ⟨first, cr, ?_, hcolumn⟩
  rw [Nat.add_comm, ← hline, ofText, h]

theorem length_ofText (text : String) : (ofText text).length = text.length := by
  rw [ofText, String.length_toList]

/-- The line of an offset counts the line feeds before it, the column the characters since the last
of them. -/
theorem lineColumn_ofText (h : text.toList = before ++ after) :
    (ofText text).lineColumn before.length = ⟨before.count '\n' + 1, column before⟩ := by
  obtain ⟨first, cr, hline, hcolumn⟩ := lineAt_ofText h
  have hle : before.length ≤ text.length := by
    rw [← String.length_toList, h, List.length_append]
    omega
  simp only [lineColumn, length_ofText, Nat.min_eq_left hle, hline, start_scan]
  congr 1
  omega

theorem line_ofText (h : text.toList = before ++ after) : ∃ first cr,
    (ofText text).line (before.count '\n' + 1) = (scan first before.length cr after).1 ∧
    first + column before = before.length := by
  obtain ⟨first, cr, hline, hcolumn⟩ := lineAt_ofText h
  have hnumber := line_lineAt (ofText text) before.length
  rw [hline] at hnumber
  exact ⟨first, cr, hnumber, hcolumn⟩

/-- Going to an offset by its line and column leads back to it. -/
theorem offset_ofText (h : text.toList = before ++ after) :
    (ofText text).offset (before.count '\n' + 1) (column before) = before.length := by
  obtain ⟨first, cr, hline, hcolumn⟩ := line_ofText h
  rw [offset, lineStart, hline, start_scan, hcolumn, length_ofText, ← String.length_toList, h,
    List.length_append]
  omega

/-- The line of an offset ends with what is left of it there, if the offset is not that of a line
feed. -/
theorem lineEnd_ofText (h : text.toList = before ++ after) (hafter : after.head? ≠ some '\n') :
    (ofText text).lineEnd (before.count '\n' + 1) =
      before.length + (restOfLine after).length := by
  obtain ⟨first, cr, hline, -⟩ := line_ofText h
  rw [lineEnd, hline, stop_scan, if_neg fun hcr => hafter hcr.2]

end Offsets

end ResourceApi.Lines
