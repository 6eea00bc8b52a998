import ResourceApi.Proofs.Text.Lines

/-!
The table of lines of a text. The lines stand in the text one after the other, each between its start
and its end, with a line feed or a carriage return and a line feed behind each but the last one.
Nothing else is left out. Line numbers beyond either end of the table mean the first or the last line.
-/

namespace ResourceApi.Lines

/-- Lines that make up a text if their ends are put in. A carriage return before a line feed belongs
to the end of its line; any other one is part of the line. -/
inductive Joined : List (List Char) → List Char → Prop where
  | last {line : List Char} (hline : '\n' ∉ line) : Joined [line] line
  | lineFeed {line rest : List Char} {lines : List (List Char)} (hline : '\n' ∉ line)
      (hreturn : line.getLast? ≠ some '\r') (hrest : Joined lines rest) :
      Joined (line :: lines) (line ++ '\n' :: rest)
  | carriageReturn {line rest : List Char} {lines : List (List Char)} (hline : '\n' ∉ line)
      (hrest : Joined lines rest) : Joined (line :: lines) (line ++ '\r' :: '\n' :: rest)

/-- The characters of a text on a line. -/
def visible (line : Line) (s : List Char) : List Char :=
  (s.drop line.start).take (line.stop - line.start)

theorem Joined.not_mem {lines : List (List Char)} {s : List Char} (h : Joined lines s) :
    ∀ line ∈ lines, '\n' ∉ line := by
  induction h with
  | last hline => simpa using hline
  | lineFeed hline _ _ ih => exact List.forall_mem_cons.mpr ⟨hline, ih⟩
  | carriageReturn hline _ ih => exact List.forall_mem_cons.mpr ⟨hline, ih⟩

theorem visible_append {before line after : List Char} {stop : Nat}
    (hstop : stop = before.length + line.length) :
    visible ⟨before.length, stop⟩ (before ++ (line ++ after)) = line := by
  rw [visible, List.drop_left, hstop, Nat.add_sub_cancel_left, List.take_left]

/-! ### The scan -/

/-- What the scan has read of the line at hand, and whether that ends with a carriage return. -/
structure Underway (before done : List Char) (start i : Nat) (cr : Bool) : Prop where
  start_eq : start = before.length
  index_eq : i = start + done.length
  no_feed : '\n' ∉ done
  return_iff : cr = true ↔ done.getLast? = some '\r'

section Scan

variable {before done : List Char} {start i : Nat} {cr : Bool}

theorem Underway.add (h : Underway before done start i cr) {c : Char} (hc : c ≠ '\n') :
    Underway before (done ++ [c]) start (i + 1) (c = '\r') where
  start_eq := h.start_eq
  index_eq := by rw [h.index_eq, List.length_append, List.length_singleton, Nat.add_assoc]
  no_feed := by simp [h.no_feed, Ne.symm hc]
  return_iff := by simp

theorem Underway.next (h : Underway before done start i cr) :
    Underway (before ++ (done ++ ['\n'])) [] (i + 1) (i + 1) false where
  start_eq := by
    rw [h.index_eq, h.start_eq, List.length_append, List.length_append, List.length_singleton,
      Nat.add_assoc]
  index_eq := rfl
  no_feed := List.not_mem_nil
  return_iff := by simp

/-- Before a line feed, what has been read of the line is the line, and the carriage return at its
end if there is one. -/
theorem Underway.exists_line (h : Underway before done start i cr) :
    ∃ line ending, done = line ++ ending ∧ start + line.length = (if cr then i - 1 else i) ∧
      ((ending = [] ∧ line.getLast? ≠ some '\r') ∨ ending = ['\r']) := by
  cases cr with
  | false =>
      have hreturn : done.getLast? ≠ some '\r' := fun heq => by simpa using h.return_iff.mpr heq
      exact ⟨done, [], (List.append_nil _).symm, h.index_eq.symm, .inl ⟨rfl, hreturn⟩⟩
  | true =>
      obtain ⟨line, rfl⟩ := List.getLast?_eq_some_iff.mp (h.return_iff.mp rfl)
      have hindex := h.index_eq
      rw [List.length_append, List.length_singleton] at hindex
      exact ⟨line, ['\r'], rfl, by simp only [if_true]; omega, .inr rfl⟩

theorem scan_feed (start i : Nat) (cr : Bool) (s : List Char) :
    scan start i cr ('\n' :: s) = (⟨start, if cr then i - 1 else i⟩,
      (scan (i + 1) (i + 1) false s).1 :: (scan (i + 1) (i + 1) false s).2) := by
  rw [scan, if_pos rfl]

theorem joined_scan (s : List Char) (h : Underway before done start i cr) :
    Joined (((scan start i cr s).1 :: (scan start i cr s).2).map
      fun line => visible line (before ++ (done ++ s))) (done ++ s) := by
  induction s generalizing before done start i cr with
  | nil =>
      have hline : visible ⟨start, i⟩ (before ++ (done ++ [])) = done := by
        rw [h.start_eq]
        exact visible_append (by rw [h.index_eq, h.start_eq])
      rw [scan, List.map_singleton, hline, List.append_nil]
      exact .last h.no_feed
  | cons c s ih =>
      by_cases hc : c = '\n'
      · subst hc
        have hrest := ih h.next
        obtain ⟨line, ending, rfl, hstop, hending⟩ := h.exists_line
        have hvisible : visible ⟨start, if cr then i - 1 else i⟩
            (before ++ (line ++ ending ++ '\n' :: s)) = line := by
          rw [h.start_eq, List.append_assoc line]
          exact visible_append (by rw [← hstop, h.start_eq])
        have hline : '\n' ∉ line := fun hmem => h.no_feed (List.mem_append_left _ hmem)
        rw [List.append_assoc before, List.append_assoc _ ['\n'], List.singleton_append,
          List.nil_append] at hrest
        rw [scan_feed, List.map_cons, hvisible]
        rcases hending with ⟨rfl, hreturn⟩ | rfl
        · rw [List.append_nil] at hrest ⊢
          exact .lineFeed hline hreturn hrest
        · rw [List.append_assoc line] at hrest ⊢
          exact .carriageReturn hline hrest
      · rw [scan, if_neg hc]
        have hrest := ih (h.add hc)
        rwa [List.append_assoc, List.singleton_append] at hrest

theorem bounds_scan (s : List Char) (h : Underway before done start i cr) :
    ∀ line ∈ (scan start i cr s).1 :: (scan start i cr s).2,
      line.start ≤ line.stop ∧ line.stop ≤ i + s.length := by
  induction s generalizing before done start i cr with
  | nil =>
      have hindex := h.index_eq
      simp only [scan, List.forall_mem_singleton]
      exact ⟨by omega, Nat.le_add_right ..⟩
  | cons c s ih =>
      rw [List.length_cons]
      by_cases hc : c = '\n'
      · subst hc
        obtain ⟨line, -, -, hstop, -⟩ := h.exists_line
        rw [scan_feed]
        refine List.forall_mem_cons.mpr ⟨?_, fun line hline => ?_⟩
        · change (start ≤ if cr then i - 1 else i) ∧ (if cr then i - 1 else i) ≤ _
          refine ⟨by omega, ?_⟩
          split <;> omega
        · obtain ⟨hle, hinside⟩ := ih h.next line hline
          exact ⟨hle, by omega⟩
      · rw [scan, if_neg hc]
        intro line hline
        obtain ⟨hle, hinside⟩ := ih (h.add hc) line hline
        exact ⟨hle, by omega⟩

end Scan

/-! ### Line numbers -/

variable (t : Lines)

theorem line_eq_getElem? {n : Nat} (hpos : 1 ≤ n) (hle : n ≤ t.count) :
    t.toList[n - 1]? = some (t.line n) := by
  match n with
  | 1 => rfl
  | k + 2 =>
      have hk : k < t.others.length := by
        rw [count] at hle
        omega
      rw [toList, line, List.getElem?_eq_getElem hk, Option.getD_some]
      exact List.getElem?_eq_getElem hk

/-- The lines in the order of their numbers. -/
theorem map_line : (List.range' 1 t.count).map t.line = t.toList := by
  apply List.ext_getElem?
  intro k
  rw [List.getElem?_map]
  by_cases hk : k < t.count
  · rw [List.getElem?_range' hk, Option.map_some, Nat.one_mul, Nat.add_comm 1 k]
    exact (t.line_eq_getElem? (Nat.succ_pos k) hk).symm
  · rw [List.getElem?_eq_none (by simpa using hk), Option.map_none]
    exact (List.getElem?_eq_none (by simpa [toList, count] using hk)).symm

theorem clamp_mem (n : Nat) : 1 ≤ max 1 (min n t.count) ∧ max 1 (min n t.count) ≤ t.count := by
  have hcount : 1 ≤ t.count := Nat.succ_pos _
  omega

theorem line_last : t.line (t.others.length + 1) = t.others.getLast?.getD t.first := by
  cases hothers : t.others using List.reverseRecOn with
  | nil => rfl
  | append_singleton lines last =>
      rw [List.length_append, List.length_singleton, line, hothers]
      simp

/-- A line number out of range means the nearest one in range. -/
theorem line_clamp (n : Nat) : t.line n = t.line (max 1 (min n t.count)) := by
  have hcount : t.count = t.others.length + 1 := rfl
  match n with
  | 0 =>
      rw [Nat.zero_min]
      rfl
  | 1 =>
      rw [Nat.min_eq_left (by omega)]
      rfl
  | k + 2 =>
      rcases Nat.lt_or_ge k t.others.length with hk | hk
      · rw [Nat.min_eq_left (by omega), Nat.max_eq_right (by omega)]
      · rw [Nat.min_eq_right (by omega), Nat.max_eq_right (by omega), hcount, line,
          List.getElem?_eq_none hk, Option.getD_none]
        exact (t.line_last).symm

theorem line_mem (n : Nat) : t.line n ∈ t.toList := by
  obtain ⟨hpos, hle⟩ := t.clamp_mem n
  rw [line_clamp]
  exact List.mem_of_getElem? (t.line_eq_getElem? hpos hle)

theorem lineColumn_in_range (offset : Nat) :
    1 ≤ (t.lineColumn offset).line ∧ (t.lineColumn offset).line ≤ t.count := by
  obtain ⟨k, hnumber, hline⟩ := getElem?_lineAt (min offset t.length) 1 t.first t.others
  have hk : k < t.others.length + 1 := (List.getElem?_eq_some_iff.mp hline).1
  change 1 ≤ (lineAt (min offset t.length) 1 t.first t.others).1 ∧
    (lineAt (min offset t.length) 1 t.first t.others).1 ≤ t.others.length + 1
  omega

/-! ### The table of a text -/

variable (text : String)

theorem underway_start : Underway [] [] 0 0 false := ⟨rfl, rfl, List.not_mem_nil, by simp⟩

theorem joined_ofText :
    Joined ((ofText text).toList.map fun line => visible line text.toList) text.toList :=
  joined_scan text.toList underway_start

theorem line_bounds (n : Nat) :
    (ofText text).lineStart n ≤ (ofText text).lineEnd n ∧
      (ofText text).lineEnd n ≤ text.length := by
  have hbounds := bounds_scan text.toList underway_start _ ((ofText text).line_mem n)
  rwa [Nat.zero_add, String.length_toList] at hbounds

theorem not_mem_visible (n : Nat) : '\n' ∉ visible ((ofText text).line n) text.toList :=
  (joined_ofText text).not_mem _ (List.mem_map_of_mem ((ofText text).line_mem n))

/-- Offsets past the end have the line and column of the end. -/
theorem lineColumn_take (offset : Nat) :
    (ofText text).lineColumn offset =
      ⟨(text.toList.take offset).count '\n' + 1, column (text.toList.take offset)⟩ := by
  have hbefore : (text.toList.take offset).length = min offset text.length := by
    rw [List.length_take, String.length_toList]
  have hplace := lineColumn_ofText (List.take_append_drop offset text.toList).symm
  rw [← hplace, hbefore, lineColumn, lineColumn, length_ofText, min_assoc, min_self]

theorem offset_lineColumn (offset : Nat) :
    (ofText text).offset ((ofText text).lineColumn offset).line
      ((ofText text).lineColumn offset).column = min offset text.length := by
  rw [lineColumn_take, offset_ofText (List.take_append_drop offset text.toList).symm,
    List.length_take, String.length_toList]

/-- The line of an offset counts the line feeds before it and the column the characters since the
last of them; both together lead back to the offset, or to the end if it lies beyond. Each line ends
where it starts or behind that, not behind the end of the text and without a line feed in between,
and all lines in their order make up the text. A line number out of range means the nearest one in
range. -/
theorem lines_make_up_text :
    (∀ offset, (ofText text).lineColumn offset =
        ⟨(text.toList.take offset).count '\n' + 1, column (text.toList.take offset)⟩ ∧
      (ofText text).offset ((ofText text).lineColumn offset).line
        ((ofText text).lineColumn offset).column = min offset text.length ∧
      1 ≤ ((ofText text).lineColumn offset).line ∧
      ((ofText text).lineColumn offset).line ≤ (ofText text).count) ∧
    (∀ n, (ofText text).lineStart n ≤ (ofText text).lineEnd n ∧
      (ofText text).lineEnd n ≤ text.length ∧
      '\n' ∉ visible ⟨(ofText text).lineStart n, (ofText text).lineEnd n⟩ text.toList) ∧
    Joined ((List.range' 1 (ofText text).count).map fun n =>
      visible ⟨(ofText text).lineStart n, (ofText text).lineEnd n⟩ text.toList) text.toList ∧
    ∀ n, (ofText text).lineStart n = (ofText text).lineStart (max 1 (min n (ofText text).count)) ∧
      (ofText text).lineEnd n = (ofText text).lineEnd (max 1 (min n (ofText text).count)) ∧
      ∀ column, (ofText text).offset n column =
        (ofText text).offset (max 1 (min n (ofText text).count)) column := by
  refine ⟨fun offset => ?_, fun n => ?_, ?_, fun n => ?_⟩
  · exact ⟨lineColumn_take text offset, offset_lineColumn text offset,
      (ofText text).lineColumn_in_range offset⟩
  · obtain ⟨hle, hinside⟩ := line_bounds text n
    exact ⟨hle, hinside, not_mem_visible text n⟩
  · have hjoined := joined_ofText text
    rw [← map_line, List.map_map] at hjoined
    exact hjoined
  · have hline := (ofText text).line_clamp n
    refine ⟨congrArg Line.start hline, congrArg Line.stop hline, fun column => ?_⟩
    rw [offset, offset, lineStart, lineStart, ← hline]

end ResourceApi.Lines
