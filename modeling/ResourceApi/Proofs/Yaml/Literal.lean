import ResourceApi.Proofs.Yaml.Quoted

/-!
Text over several lines is read as what it is. The indentation is given where the text does not show
it, lines are read one after another with the empty lines behind them, and what is read of the line
ends behind the last line is what the mark behind the bar says.
-/

namespace ResourceApi.Yaml

/-! ### Lines -/

/-- Lines that are not empty, each with its end and the empty lines behind it. -/
inductive IsLines : List Char → Prop where
  | nil : IsLines []
  | cons {line more u : List Char} {b : Char} (hline : line ≠ [])
      (hflat : ∀ x ∈ line, isBreak x = false) (hb : IsLineEnd b) (hmore : ∀ b ∈ more, IsLineEnd b)
      (hu : IsLines u) : IsLines (line ++ (b :: more ++ u))

theorem exists_isLines {s : List Char} (hends : ∀ x ∈ s, isBreak x = true → IsLineEnd x)
    (hlast : ∀ x ∈ s.getLast?, isBreak x = true) :
    ∃ bs u, s = bs ++ u ∧ (∀ b ∈ bs, IsLineEnd b) ∧ IsLines u := by
  induction s with
  | nil => exact ⟨[], [], rfl, by simp, .nil⟩
  | cons x s ih =>
      obtain ⟨hx, hs⟩ := List.forall_mem_cons.mp hends
      have hlast' : ∀ x ∈ s.getLast?, isBreak x = true := by
        cases s with
        | nil => simp
        | cons y s => rwa [List.getLast?_cons_cons] at hlast
      obtain ⟨bs, u, rfl, hbs, hu⟩ := ih hs hlast'
      by_cases hbreak : isBreak x = true
      · exact ⟨x :: bs, u, rfl, List.forall_mem_cons.mpr ⟨hx hbreak, hbs⟩, hu⟩
      -- The character begins a line: of its own if line ends follow, else of the first line.
      · rw [Bool.not_eq_true] at hbreak
        refine ⟨[], x :: (bs ++ u), rfl, by simp, ?_⟩
        cases bs with
        | cons b more =>
            obtain ⟨hb, hmore⟩ := List.forall_mem_cons.mp hbs
            have hflat : ∀ y ∈ [x], isBreak y = false := by simpa using hbreak
            exact .cons (List.cons_ne_nil x []) hflat hb hmore hu
        | nil =>
            cases hu with
            | nil => exact absurd (hlast x rfl) (by simp [hbreak])
            | @cons line more u b hline hflat hb hmore hu =>
                exact .cons (List.cons_ne_nil x line)
                  (List.forall_mem_cons.mpr ⟨hbreak, hflat⟩) hb hmore hu

theorem indentLines_flat {line : List Char} (n : Nat) (h : ∀ x ∈ line, isBreak x = false)
    (s : List Char) : indentLines n false (line ++ s) = line ++ indentLines n false s := by
  induction line with
  | nil => rfl
  | cons x line ih =>
      obtain ⟨hx, hline⟩ := List.forall_mem_cons.mp h
      simp [indentLines, hx, ih hline]

theorem indentLines_breaks {bs : List Char} (n : Nat) (h : ∀ b ∈ bs, IsLineEnd b)
    (s : List Char) : indentLines n true (bs ++ s) = bs ++ indentLines n true s := by
  induction bs with
  | nil => rfl
  | cons b bs ih =>
      obtain ⟨hb, hbs⟩ := List.forall_mem_cons.mp h
      simp [indentLines, hb.isBreak, ih hbs]

/-- In front of the first line stands its indentation. -/
theorem IsLines.start {u : List Char} (hu : IsLines u) (hne : u ≠ []) (n : Nat) :
    indentLines n true u = pad n ++ indentLines n false u ∧
      ∃ x v, u.head? = some x ∧ isBreak x = false ∧ indentLines n false u = x :: v := by
  cases hu with
  | nil => exact absurd rfl hne
  | @cons line more u b hline hflat hb hmore hu =>
      obtain ⟨x, line, rfl⟩ := List.exists_cons_of_ne_nil hline
      have hx := hflat x List.mem_cons_self
      have hrest : indentLines n false (x :: line ++ (b :: more ++ u)) =
          x :: indentLines n false (line ++ (b :: more ++ u)) := by
        simp [indentLines, hx]
      refine ⟨?_, x, _, rfl, hx, hrest⟩
      rw [hrest]
      simp [indentLines, hx]

theorem indentLines_next {line more : List Char} {b : Char} (n : Nat)
    (hflat : ∀ x ∈ line, isBreak x = false) (hb : IsLineEnd b) (hmore : ∀ b ∈ more, IsLineEnd b)
    (u : List Char) :
    indentLines n false (line ++ (b :: more ++ u)) =
      line ++ (b :: more ++ indentLines n true u) := by
  rw [indentLines_flat n hflat, List.cons_append, indentLines, if_pos hb.isBreak,
    indentLines_breaks n hmore]
  rfl

/-! ### Reading -/

section Reading

variable {n k fuel widest : Nat} {c : Cursor} {bs breaks line more rest : List Char} {b : Char}

theorem length_takeWhile_pad (k : Nat) (rest : List Char) :
    ((pad k ++ rest).takeWhile (· = ' ')).length = k + (rest.takeWhile (· = ' ')).length := by
  rw [List.takeWhile_append_of_pos fun x hx => by simpa using eq_space_of_mem_pad hx]
  simp

theorem EndsGap.takeWhile_space (h : EndsGap rest) : rest.takeWhile (· = ' ') = [] := by
  cases rest with
  | nil => rfl
  | cons x rest =>
      have hx : x ≠ ' ' := by
        rintro rfl
        exact absurd (h ' ' rfl).1 (by decide)
      simp [hx]

/-- Of a line, no more than the indentation is passed over. -/
theorem blockGap_indentation (hcolumn : c.column = 0) (hn : 0 < n) (h : c.rest = pad k ++ rest)
    (hk : k = n ∨ k < n ∧ EndsGap rest) (hbreak : ∀ x ∈ rest.head?, isBreak x = false)
    (hfuel : k ≤ fuel) :
    ∃ w, blockGap n fuel widest breaks c = some (w, breaks, c.skip k) := by
  cases fuel with
  | zero =>
      obtain rfl : k = 0 := Nat.le_zero.mp hfuel
      exact ⟨widest, rfl⟩
  | succ fuel =>
      have hblanks : min (c.rest.takeWhile (· = ' ')).length (n - c.column) = k := by
        rw [h, length_takeWhile_pad, hcolumn]
        rcases hk with rfl | ⟨hk, hrest⟩
        · omega
        · rw [hrest.takeWhile_space, List.length_nil]
          omega
      have hskip : (c.skip k).rest = rest := by
        rw [Cursor.skip_rest, h, List.drop_left' (length_pad _)]
      have hat : (c.skip k).isAt isBreak = false := by
        cases hrest : rest with
        | nil => exact Cursor.isAt_of_nil (hskip.trans hrest) _
        | cons x rest' =>
            rw [Cursor.isAt_of_rest (hskip.trans hrest)]
            exact hbreak x (by rw [hrest]; rfl)
      have htab : ¬ (c.column + k < n ∧ (c.skip k).peek = some '\t') := by
        rintro ⟨hcut, hpeek⟩
        rcases hk with rfl | ⟨-, hrest⟩
        · omega
        · rw [Cursor.peek, hskip] at hpeek
          exact absurd (hrest _ hpeek).1 (by decide)
      refine ⟨max widest (c.skip k).column, ?_⟩
      rw [blockGap]
      simp [Nat.ne_of_gt hn, hblanks, hat, htab]

/-- Empty lines are passed over up to the next line. -/
theorem blockGap_lines (hbs : ∀ b ∈ bs, IsLineEnd b) (hcolumn : c.column = 0) (hn : 0 < n)
    (h : c.rest = bs ++ pad k ++ rest) (hk : k = n ∨ k < n ∧ EndsGap rest)
    (hbreak : ∀ x ∈ rest.head?, isBreak x = false) (hfuel : bs.length + k ≤ fuel) :
    ∃ w, blockGap n fuel widest breaks c = some (w, breaks ++ bs, c.past (bs ++ pad k)) := by
  induction bs generalizing fuel widest breaks c with
  | nil =>
      rw [List.append_nil, List.nil_append, Cursor.past_pad]
      rw [List.length_nil, Nat.zero_add] at hfuel
      exact blockGap_indentation hcolumn hn h hk hbreak hfuel
  | cons b bs ih =>
      obtain ⟨hb, hbs⟩ := List.forall_mem_cons.mp hbs
      obtain ⟨fuel, rfl⟩ := Nat.exists_eq_add_of_le' (show 1 ≤ fuel by simp at hfuel; omega)
      have hline := Cursor.skipLine_of_rest h hb.ne_return
      have hblanks : c.rest.takeWhile (· = ' ') = [] := by
        have hspace : b ≠ ' ' := by rintro rfl; exact absurd hb.isBreak (by decide)
        rw [h]
        simp [hspace]
      have htab : c.peek ≠ some '\t' := by
        rw [Cursor.peek_of_rest h]
        rintro heq
        obtain rfl := Option.some.inj heq
        exact absurd hb.isBreak (by decide)
      have hat : c.isAt isBreak = true := by rw [Cursor.isAt_of_rest h, hb.isBreak]
      obtain ⟨w, hw⟩ : ∃ w, blockGap n fuel (max widest 0) (breaks ++ [b]) c.skipLine =
          some (w, breaks ++ [b] ++ bs, c.skipLine.past (bs ++ pad k)) :=
        ih hbs (by rw [hline]) (by rw [hline]; rfl) (by simp at hfuel; omega)
      refine ⟨w, ?_⟩
      rw [blockGap]
      simp only [hblanks, List.length_nil, Nat.zero_min, ite_self, Cursor.skip_zero, hcolumn,
        htab, decide_false, Bool.and_false, Bool.false_eq_true, if_false, hat, if_true,
        Cursor.readLine_of_rest h hb]
      rw [hw, List.append_assoc, List.singleton_append, List.cons_append,
        Cursor.past_cons_break hb.isBreak]

/-- What the lines so far say: their text, with the line ends at its end apart from it. -/
structure BlockState.Says (s : BlockState) (text : List Char) : Prop where
  whole : s.breaks.reverse ++ (s.lineEnd.reverse ++ s.done) = text.reverse
  ends : s.done = [] ∧ s.lineEnd = [] ∨
    (∃ x, s.done.head? = some x ∧ isBreak x = false) ∧ ∃ b, s.lineEnd = [b]
  breaks : ∀ b ∈ s.breaks.reverse ++ s.lineEnd.reverse, isBreak b = true

theorem BlockState.says_breaks (hbs : ∀ b ∈ bs, IsLineEnd b) :
    BlockState.Says ⟨[], [], false, bs⟩ bs where
  whole := by simp
  ends := .inl ⟨rfl, rfl⟩
  breaks b hb := (hbs b (by simpa using hb)).isBreak

theorem BlockState.Says.next {s : BlockState} {text : List Char} (h : s.Says text)
    (hline : line ≠ []) (hflat : ∀ x ∈ line, isBreak x = false) (hb : IsLineEnd b)
    (hmore : ∀ b ∈ more, IsLineEnd b) (blank : Bool) :
    BlockState.Says ⟨line.reverse ++ (s.breaks.reverse ++ (s.lineEnd.reverse ++ s.done)), [b],
      blank, more⟩ (text ++ (line ++ (b :: more))) where
  whole := by simp [h.whole]
  ends := by
    refine .inr ⟨⟨line.getLast hline, ?_, hflat _ (List.getLast_mem hline)⟩, b, rfl⟩
    simp [List.head?_append, List.getLast?_eq_some_getLast hline]
  breaks x hx := by
    simp only [List.reverse_singleton, List.mem_append, List.mem_reverse, List.mem_singleton] at hx
    rcases hx with hx | rfl
    · exact (hmore x hx).isBreak
    · exact hb.isBreak

theorem EndsGap.isBreak (h : EndsGap rest) : ∀ x ∈ rest.head?, isBreak x = false :=
  fun x hx => (h x hx).2

/-- One line, its end and the empty lines behind it. -/
theorem blockLines_line (fuel : Nat) (s : BlockState) (hline : ∀ x ∈ line, isBreak x = false)
    (hb : IsLineEnd b) (hmore : ∀ b ∈ more, IsLineEnd b) (hn : 0 < n) (hcolumn : c.column = n)
    (h : c.rest = line ++ (b :: more ++ (pad k ++ rest))) (hk : k = n ∨ k < n ∧ EndsGap rest)
    (hbreak : ∀ x ∈ rest.head?, isBreak x = false) :
    ∃ blank, blockLines false n (fuel + 1) s c =
      blockLines false n fuel
        ⟨line.reverse ++ (s.breaks.reverse ++ (s.lineEnd.reverse ++ s.done)), [b], blank, more⟩
        (c.past (line ++ (b :: more ++ pad k))) := by
  have hskip : (c.skip line.length).rest = b :: (more ++ (pad k ++ rest)) := by simp [h]
  have hend := Cursor.skipLine_of_rest hskip hb.ne_return
  have htake : (c.rest.takeWhile fun x => !isBreak x) = line := by
    rw [h, List.takeWhile_append_of_pos fun x hx => by simp [hline x hx]]
    simp [hb.isBreak]
  have hne : c.rest.isEmpty = false := by simp [h]
  obtain ⟨w, hw⟩ : ∃ w, blockGap n (c.skip line.length).skipLine.rest.length 0 []
      (c.skip line.length).skipLine =
        some (w, more, (c.skip line.length).skipLine.past (more ++ pad k)) :=
    blockGap_lines hmore (by rw [hend]) hn (by rw [hend, List.append_assoc]) hk hbreak
      (by rw [hend]; simp)
  refine ⟨c.isAt isBlank, ?_⟩
  rw [blockLines]
  simp only [hcolumn, hne, htake, Cursor.readLine_of_rest hskip hb, hw, decide_true, Bool.not_false,
    Bool.and_self, if_true, Bool.false_and, Bool.false_eq_true, if_false]
  rw [Cursor.past_append c line, Cursor.past_of_flat hline, List.cons_append,
    Cursor.past_cons_break hb.isBreak]

theorem blockLines_end (s : BlockState) (h : c.column ≠ n) :
    blockLines false n fuel s c = some (s, c) := by
  cases fuel with
  | zero => rfl
  | succ fuel => simp [blockLines, h]

/-- Lines are read up to one that is indented less. -/
theorem blockLines_isLines {u text : List Char} {s : BlockState} (hu : IsLines u) (hne : u ≠ [])
    (hs : s.Says text) (hn : k < n) (hcolumn : c.column = n) (hrest : EndsGap rest)
    (h : c.rest = indentLines n false u ++ (pad k ++ rest)) (hfuel : u.length < fuel) :
    ∃ s' : BlockState, s'.Says (text ++ u) ∧
      blockLines false n fuel s c = some (s', c.past (indentLines n false u ++ pad k)) := by
  induction hu generalizing s text c fuel with
  | nil => exact absurd rfl hne
  | @cons line more u b hline hflat hb hmore hu ih =>
      obtain ⟨fuel, rfl⟩ := Nat.exists_eq_add_of_le' (Nat.succ_le_of_lt (Nat.zero_lt_of_lt hfuel))
      have hreturn : '\r' ∉ line := fun hmem => absurd (hflat _ hmem) (by decide)
      have hends : ∀ y ∈ b :: more, IsLineEnd y := List.forall_mem_cons.mpr ⟨hb, hmore⟩
      rw [indentLines_next n hflat hb hmore] at h ⊢
      have hstep := hs.next hline hflat hb hmore
      have hpos : 0 < n := Nat.zero_lt_of_lt hn
      -- Behind the empty lines the reader also passes the indentation of what comes next, which is
      -- that of the block or that of the text behind it.
      by_cases hu' : u = []
      · subst hu'
        rw [show indentLines n true [] = [] from rfl, List.append_nil, List.append_assoc] at h
        have hpast := Cursor.past_lines h hreturn (List.cons_ne_nil b more) hends k
        obtain ⟨blank, hblank⟩ := blockLines_line fuel s hflat hb hmore hpos hcolumn h
          (.inr ⟨hn, hrest⟩) hrest.isBreak
        refine ⟨_, by simpa using hstep blank, ?_⟩
        rw [hblank, blockLines_end _ (by rw [hpast.2]; exact Nat.ne_of_lt hn)]
        simp [indentLines]
      · obtain ⟨hstart, x, v, -, hx, hv⟩ := hu.start hu' n
        have hfirst :
            ∀ y ∈ (indentLines n false u ++ (pad k ++ rest)).head?, isBreak y = false := by
          rw [hv]
          simpa using hx
        rw [hstart, List.append_assoc, List.append_assoc, List.append_assoc] at h
        have hpast := Cursor.past_lines h hreturn (List.cons_ne_nil b more) hends n
        obtain ⟨blank, hblank⟩ := blockLines_line fuel s hflat hb hmore hpos hcolumn h (.inl rfl)
          hfirst
        have hnext : (c.past (line ++ (b :: more ++ pad n))).rest =
            indentLines n false u ++ (pad k ++ rest) := by
          refine Cursor.rest_past (h.trans (by simp)) ?_
          rw [List.mem_append, not_or]
          exact ⟨hreturn, not_mem_breaks_pad hends n⟩
        have hlength : u.length < fuel := by
          simp only [List.length_append, List.length_cons] at hfuel
          omega
        obtain ⟨s', hs', hrun⟩ := ih hu' (hstep blank) hpast.2 hnext hlength
        refine ⟨s', by simpa using hs', ?_⟩
        rw [hblank, hrun, ← Cursor.past_append, hstart]
        simp

end Reading

/-! ### Marks -/

/-- How the reader's choice is written behind the bar. -/
def Chomp.mark : Chomp → List Char
  | .strip => ['-']
  | .clip => []
  | .keep => ['+']

/-- What is read of the lines of a block. -/
def BlockState.chomped (s : BlockState) : Chomp → List Char
  | .strip => s.done.reverse
  | .clip => s.done.reverse ++ s.lineEnd
  | .keep => s.done.reverse ++ s.lineEnd ++ s.breaks

theorem BlockState.Says.split {s : BlockState} {text : List Char} (h : s.Says text) :
    s.breaks.reverse ++ s.lineEnd.reverse = text.reverse.takeWhile isBreak ∧
      s.done = text.reverse.dropWhile isBreak := by
  have hdone : s.done.takeWhile isBreak = [] ∧ s.done.dropWhile isBreak = s.done := by
    rcases h.ends with ⟨hnil, -⟩ | ⟨⟨x, hx, hflat⟩, -⟩
    · simp [hnil]
    · obtain ⟨done, hcons⟩ := List.head?_eq_some_iff.mp hx
      simp [hcons, hflat]
  rw [← h.whole, ← List.append_assoc, List.takeWhile_append_of_pos h.breaks,
    List.dropWhile_append_of_pos h.breaks, hdone.1, hdone.2, List.append_nil]
  exact ⟨rfl, rfl⟩

theorem BlockState.Says.keep {s : BlockState} {text : List Char} (h : s.Says text) :
    s.chomped .keep = text := by
  have hwhole := congrArg List.reverse h.whole
  simpa [chomped] using hwhole

/-- The mark behind the bar says what the line ends behind the last line are. -/
theorem exists_chompMark {s : List Char} (hs : s ≠ []) :
    ∃ k : Chomp, chompMark s = k.mark ∧
      ∀ state : BlockState, state.Says (endLine s) → state.chomped k = s := by
  obtain ⟨c, rest, hrev⟩ := List.exists_cons_of_ne_nil (List.reverse_ne_nil_iff.mpr hs)
  have hlast : s.getLast? = some c := by rw [← List.head?_reverse, hrev]; rfl
  cases hbreak : isBreak c with
  | false =>
      have hend : endLine s = s ++ ['\n'] := by simp [endLine, hlast, hbreak]
      refine ⟨.strip, by simp [chompMark, hrev, hbreak, Chomp.mark], fun state hsays => ?_⟩
      have hdone : state.done = s.reverse := by
        rw [(BlockState.Says.split hsays).2, hend, List.reverse_append, hrev]
        simp [hbreak, show isBreak '\n' = true by decide]
      rw [BlockState.chomped, hdone, List.reverse_reverse]
  | true =>
      have hend : endLine s = s := by simp [endLine, hlast, hbreak]
      rw [hend]
      -- The mark looks at the last two characters. A text of one line end only keeps it like a text
      -- that ends with several.
      have hkeep (hmark : chompMark s = ['+']) :
          ∃ k : Chomp, chompMark s = k.mark ∧
            ∀ state : BlockState, state.Says s → state.chomped k = s :=
        ⟨.keep, hmark, fun state hsays => hsays.keep⟩
      cases rest with
      | nil => exact hkeep (by simp [chompMark, hrev, hbreak])
      | cons d rest =>
          cases hbefore : isBreak d with
          | true => exact hkeep (by simp [chompMark, hrev, hbreak, hbefore])
          | false =>
              refine ⟨.clip, by simp [chompMark, hrev, hbreak, hbefore, Chomp.mark],
                fun state hsays => ?_⟩
              obtain ⟨hends, hdone⟩ := hsays.split
              rw [hrev] at hends hdone
              have hbreaks : state.breaks = [] := by
                rcases hsays.ends with ⟨hnil, -⟩ | ⟨-, b, hb⟩
                · simp [hnil, hbreak, hbefore] at hdone
                · have hlength := congrArg List.length hends
                  simpa [hb, hbreak, hbefore] using hlength
              have hwhole := hsays.keep
              rwa [BlockState.chomped, hbreaks, List.append_nil] at hwhole

section Marks

variable {c : Cursor} {rest : List Char}

theorem blockMarks_eq (k : Chomp) (given : Bool)
    (h : c.rest = (if given then ['2'] else []) ++ k.mark ++ '\n' :: rest) :
    blockMarks c = some (k, if given then some 2 else none,
      c.skip ((if given then ['2'] else []) ++ k.mark).length) := by
  cases given <;> cases k <;>
    simp_all [blockMarks, Chomp.mark, Cursor.peek, Cursor.skip_skip, Cursor.skip_zero,
      show Char.isDigit '\n' = false by decide, show Char.isDigit '2' = true by decide]

theorem finishLine?_break (h : c.rest = '\n' :: rest) : c.finishLine? = some c.skipLine := by
  have hblank : c.skipWhile isBlank = c := by simp [Cursor.skipWhile, h, isBlank, Cursor.skip_zero]
  have hcomment : c.skipComment = c := by simp [Cursor.skipComment, Cursor.peek_of_rest h]
  rw [Cursor.finishLine?, hblank, hcomment, Cursor.peek_of_rest h]
  rfl

end Marks

/-- Whether the indentation has to be given: the first line does not show it. -/
def hidesIndentation (s : List Char) : Bool :=
  (s.head?.map fun c => isSpace c || isBreak c).getD false

theorem indentLines_ne_nil (n : Nat) (start : Bool) {s : List Char} (hs : s ≠ []) :
    indentLines n start s ≠ [] := by
  obtain ⟨x, s, rfl⟩ := List.exists_cons_of_ne_nil hs
  rw [indentLines]
  split <;> simp

theorem getLast?_indentLines (n : Nat) (start : Bool) {s : List Char} (hs : s ≠ []) :
    (indentLines n start s).getLast? = s.getLast? := by
  induction s generalizing start with
  | nil => exact absurd rfl hs
  | cons x s ih =>
      rw [indentLines]
      cases s with
      | nil => split <;> simp [indentLines]
      | cons y s =>
          have hne : y :: s ≠ [] := List.cons_ne_nil y s
          have hlast (start : Bool) : (x :: indentLines n start (y :: s)).getLast? =
              (y :: s).getLast? := by
            obtain ⟨z, t, ht⟩ := List.exists_cons_of_ne_nil (indentLines_ne_nil n start hne)
            rw [← ih start hne, ht, List.getLast?_cons_cons]
          rw [List.getLast?_cons_cons]
          split
          · exact hlast true
          · rw [List.getLast?_append, hlast false, List.getLast?_eq_some_getLast hne,
              Option.some_or]

theorem indentLines_concat_break (n : Nat) (start : Bool) (s : List Char) {b : Char}
    (hb : isBreak b = true) :
    indentLines n start (s ++ [b]) = indentLines n start s ++ [b] := by
  induction s generalizing start with
  | nil => simp [indentLines, hb]
  | cons x s ih =>
      rw [List.cons_append, indentLines, indentLines]
      split
      · rw [ih, List.cons_append]
      · rw [ih]
        simp

theorem literalText_eq (n : Nat) (s : List Char) :
    literalText n s = '|' :: ((if hidesIndentation s then ['2'] else []) ++ chompMark s ++
      '\n' :: indentLines n true s) := by
  cases s <;> simp [literalText, hidesIndentation]

/-- The line end behind the text counts as one of its line ends. -/
theorem endLine_literalText (n : Nat) {s : List Char} (hs : s ≠ []) :
    endLine (literalText n s) =
      '|' :: ((if hidesIndentation s then ['2'] else []) ++ chompMark s ++
        '\n' :: indentLines n true (endLine s)) := by
  have hlast : (literalText n s).getLast? = s.getLast? := by
    rw [literalText, List.getLast?_append, getLast?_indentLines n true hs,
      List.getLast?_eq_some_getLast hs, Option.some_or]
  rw [endLine, endLine, hlast, List.getLast?_eq_some_getLast hs]
  simp only
  split
  · exact literalText_eq n s
  · rw [indentLines_concat_break n true s (by decide), literalText_eq]
    simp

theorem length_le_indentLines (n : Nat) (start : Bool) (s : List Char) :
    s.length ≤ (indentLines n start s).length := by
  induction s generalizing start with
  | nil => exact Nat.zero_le _
  | cons x s ih =>
      rw [indentLines]
      split
      · simpa using ih true
      · have hle := ih false
        simp only [List.length_append, List.length_cons]
        omega

section Text

variable {c : Cursor} {rest bs u s : List Char} {n m k : Nat}

/-- Where the first line shows its indentation, the reader finds it. -/
theorem blockGap_found {x : Char} {u : List Char} (hcolumn : c.column = 0)
    (h : c.rest = pad n ++ x :: u) (hblank : isBlank x = false) (hbreak : isBreak x = false) :
    blockGap 0 c.rest.length 0 [] c = some (n, [], c.skip n) := by
  have hlength : c.rest.length = (n + u.length) + 1 := by
    rw [h, List.length_append, length_pad, List.length_cons]
    rfl
  have hends : EndsGap (x :: u) := endsGap_cons hblank hbreak u
  have hblanks : (c.rest.takeWhile (· = ' ')).length = n := by
    rw [h, length_takeWhile_pad, hends.takeWhile_space]
    rfl
  have hskip : (c.skip n).rest = x :: u := by
    rw [Cursor.skip_rest, h, List.drop_left' (length_pad _)]
  have htab : (c.skip n).peek ≠ some '\t' := by
    rw [Cursor.peek_of_rest hskip]
    rintro heq
    obtain rfl := Option.some.inj heq
    cases hblank
  rw [hlength, blockGap]
  simp only [if_true, hblanks, decide_true, Bool.true_or, Bool.true_and, htab, decide_false,
    Bool.false_eq_true, if_false, Cursor.isAt_of_rest hskip, hbreak, Cursor.skip_column, hcolumn,
    Nat.zero_add, Nat.zero_max]

/-- The column of the first line that is not empty, or of what follows the block. -/
def firstColumn (n k : Nat) (u : List Char) : Nat := if u = [] then k else n

theorem indentLines_firstColumn (hbs : ∀ b ∈ bs, IsLineEnd b) (hu : IsLines u) :
    indentLines n true (bs ++ u) ++ pad k =
      bs ++ pad (firstColumn n k u) ++
        if u = [] then [] else indentLines n false u ++ pad k := by
  rw [indentLines_breaks n hbs, firstColumn]
  split
  · next h => simp [h, indentLines]
  · next h => simp [(hu.start h n).1]

/-- The reader comes to the first line, whether its indentation is given or found. -/
theorem blockGap_first (given : Bool) (hbs : ∀ b ∈ bs, IsLineEnd b) (hu : IsLines u) (hk : k < n)
    (hrest : EndsGap rest) (hcolumn : c.column = 0)
    (h : c.rest = indentLines n true (bs ++ u) ++ (pad k ++ rest))
    (hshown : given = false → bs = [] ∧ u ≠ [] ∧ ∀ x ∈ u.head?, isBlank x = false) :
    ∃ w, blockGap (if given then n else 0) c.rest.length 0 [] c =
        some (w, bs, c.past (bs ++ pad (firstColumn n k u))) ∧ (given = false → w = n) := by
  rw [indentLines_breaks n hbs] at h
  cases given with
  | true =>
      obtain ⟨tail, htail, hfirst, hflat⟩ : ∃ tail, c.rest = bs ++ pad (firstColumn n k u) ++ tail ∧
          (firstColumn n k u = n ∨ firstColumn n k u < n ∧ EndsGap tail) ∧
          ∀ x ∈ tail.head?, isBreak x = false := by
        by_cases hne : u = []
        · rw [hne, show indentLines n true [] = [] from rfl] at h
          exact ⟨rest, by simpa [hne, firstColumn] using h,
            .inr ⟨by simpa [hne, firstColumn], hrest⟩, hrest.isBreak⟩
        · obtain ⟨hstart, x, v, -, hx, hv⟩ := hu.start hne n
          rw [hstart, hv] at h
          exact ⟨x :: (v ++ (pad k ++ rest)), by simpa [hne, firstColumn] using h,
            .inl (if_neg hne), by simpa using hx⟩
      obtain ⟨w, hw⟩ : ∃ w, blockGap n c.rest.length 0 [] c =
          some (w, [] ++ bs, c.past (bs ++ pad (firstColumn n k u))) :=
        blockGap_lines hbs hcolumn (Nat.zero_lt_of_lt hk) htail hfirst hflat (by rw [htail]; simp)
      exact ⟨w, hw, by simp⟩
  | false =>
      obtain ⟨rfl, hne, hhead⟩ := hshown rfl
      obtain ⟨hstart, x, v, hx, hbreak, hv⟩ := hu.start hne n
      rw [hstart, hv, List.nil_append, List.append_assoc] at h
      have hfound := blockGap_found hcolumn h (hhead x hx) hbreak
      rw [firstColumn, if_neg hne, List.nil_append, Cursor.past_pad]
      exact ⟨n, hfound, fun _ => rfl⟩

/-- All lines of a block are read, with the empty lines in front of them. -/
theorem blockLines_whole (hbs : ∀ b ∈ bs, IsLineEnd b) (hu : IsLines u) (hk : k < n)
    (hrest : EndsGap rest)
    (h : c.rest = indentLines n true (bs ++ u) ++ (pad k ++ rest)) (hcolumn : c.column = 0) :
    let d := c.past (bs ++ pad (firstColumn n k u))
    ∃ s', BlockState.Says s' (bs ++ u) ∧
      blockLines false n (d.rest.length + 1) ⟨[], [], false, bs⟩ d =
        some (s', c.past (indentLines n true (bs ++ u) ++ pad k)) := by
  intro d
  have hpast : indentLines n true (bs ++ u) ++ pad k =
      bs ++ pad (firstColumn n k u) ++ if u = [] then [] else indentLines n false u ++ pad k :=
    indentLines_firstColumn hbs hu
  rw [← List.append_assoc, hpast] at h
  simp only [List.append_assoc] at h
  have hdcolumn : d.column = firstColumn n k u := Cursor.column_past_breaks h hbs hcolumn _
  rw [hpast, Cursor.past_append c]
  by_cases hne : u = []
  · subst hne
    refine ⟨_, by simpa using BlockState.says_breaks hbs, ?_⟩
    exact blockLines_end _ (by rw [hdcolumn]; exact Nat.ne_of_lt hk)
  · have hdrest : d.rest = indentLines n false u ++ (pad k ++ rest) := by
      refine Cursor.rest_past (h.trans ?_) (not_mem_breaks_pad hbs _)
      simp [hne]
    have hlength : u.length < d.rest.length + 1 := by
      have hle := length_le_indentLines n false u
      rw [hdrest, List.length_append]
      omega
    rw [firstColumn, if_neg hne] at hdcolumn
    obtain ⟨s', hsays, hrun⟩ := blockLines_isLines hu hne (BlockState.says_breaks hbs) hk hdcolumn
      hrest hdrest hlength
    exact ⟨s', hsays, by rw [hrun, if_neg hne]⟩

theorem mem_endLine {x : Char} (h : x ∈ endLine s) : x ∈ s ∨ x = '\n' := by
  rw [endLine] at h
  split at h
  · split at h
    · exact .inl h
    · simpa using h
  · exact .inr (by simpa using h)

theorem exists_endLine (hprint : ∀ x ∈ s, isPrintable x = true) :
    ∃ t b, endLine s = t ++ [b] ∧ IsLineEnd b := by
  rw [endLine]
  split
  · next c hlast =>
      split
      · next hbreak =>
          obtain ⟨t, rfl⟩ := List.getLast?_eq_some_iff.mp hlast
          exact ⟨t, c, rfl, isLineEnd_of_isPrintable (hprint c (by simp)) hbreak⟩
      · exact ⟨s, '\n', rfl, .inl rfl⟩
  · exact ⟨[], '\n', rfl, .inl rfl⟩

/-- A text with the end of its last line is made of lines. -/
theorem exists_isLines_endLine (hprint : ∀ x ∈ s, isPrintable x = true) :
    ∃ bs u, endLine s = bs ++ u ∧ (∀ b ∈ bs, IsLineEnd b) ∧ IsLines u := by
  obtain ⟨t, b, ht, hb⟩ := exists_endLine hprint
  refine exists_isLines (fun x hx hbreak => ?_) fun x hx => ?_
  · rcases mem_endLine hx with hmem | rfl
    · exact isLineEnd_of_isPrintable (hprint x hmem) hbreak
    · exact .inl rfl
  · rw [ht, List.getLast?_concat] at hx
    obtain rfl := Option.some.inj hx
    exact hb.isBreak

theorem mem_indentLines {x : Char} {start : Bool} (h : x ∈ indentLines n start s) :
    x = ' ' ∨ x ∈ s := by
  induction s generalizing start with
  | nil => cases h
  | cons y s ih =>
      rw [indentLines] at h
      have hrest {start : Bool} (h : x ∈ y :: indentLines n start s) : x = ' ' ∨ x ∈ y :: s := by
        rcases List.mem_cons.mp h with rfl | h
        · exact .inr List.mem_cons_self
        · exact (ih h).imp_right (List.mem_cons_of_mem y)
      split at h
      · exact hrest h
      · rcases List.mem_append.mp h with h | h
        · split at h
          · exact .inl (eq_space_of_mem_pad h)
          · cases h
        · exact hrest h

/-- Where the indentation is not given, the first line shows it. -/
theorem shows_indentation (hs : s ≠ []) (hprint : ∀ x ∈ s, isPrintable x = true)
    (hsplit : endLine s = bs ++ u) (hbs : ∀ b ∈ bs, IsLineEnd b) (h : hidesIndentation s = false) :
    bs = [] ∧ u ≠ [] ∧ ∀ x ∈ u.head?, isBlank x = false := by
  obtain ⟨x, s, rfl⟩ := List.exists_cons_of_ne_nil hs
  obtain ⟨t, ht⟩ : ∃ t, endLine (x :: s) = x :: t := by
    rw [endLine]
    split
    · split
      · exact ⟨s, rfl⟩
      · exact ⟨_, rfl⟩
    · next hnone => simp at hnone
  simp only [hidesIndentation, List.head?_cons, Option.map_some, Option.getD_some,
    Bool.or_eq_false_iff] at h
  have hblank : isBlank x = false :=
    isBlank_of_isPrintable (hprint x List.mem_cons_self) (by simpa [isSpace] using h.1)
  rw [ht] at hsplit
  cases bs with
  | nil =>
      rw [List.nil_append] at hsplit
      rw [← hsplit]
      exact ⟨rfl, List.cons_ne_nil x t, by simpa using hblank⟩
  | cons b bs =>
      obtain ⟨rfl, -⟩ := List.cons.inj hsplit
      rw [(hbs x List.mem_cons_self).isBreak] at h
      cases h.2

/-- Text over several lines is read from behind the bar. -/
theorem blockText_literal (hs : s ≠ []) (hprint : ∀ x ∈ s, isPrintable x = true) (hk : k ≤ m)
    (hrest : EndsGap rest)
    (h : c.rest = (if hidesIndentation s then ['2'] else []) ++ chompMark s ++
      '\n' :: (indentLines (m + 2) true (endLine s) ++ (pad k ++ rest))) :
    blockText false m c =
      some (s, c.past ((if hidesIndentation s then ['2'] else []) ++ chompMark s ++
        '\n' :: (indentLines (m + 2) true (endLine s) ++ pad k))) := by
  obtain ⟨mark, hmark, hchomp⟩ := exists_chompMark hs
  obtain ⟨bs, u, hsplit, hbs, hu⟩ := exists_isLines_endLine hprint
  rw [hmark] at h ⊢
  have hmarks := blockMarks_eq mark (hidesIndentation s) h
  generalize hlead : (if hidesIndentation s then ['2'] else []) ++ mark.mark = lead at h hmarks ⊢
  have hflat : ∀ x ∈ lead, isBreak x = false := by
    rw [← hlead]
    cases hidesIndentation s <;> cases mark <;> simp [Chomp.mark] <;> decide
  have hskip : (c.skip lead.length).rest =
      '\n' :: (indentLines (m + 2) true (endLine s) ++ (pad k ++ rest)) := by simp [h]
  have hline := Cursor.skipLine_of_rest hskip (by decide)
  have hpast (text : List Char) :
      c.past (lead ++ '\n' :: text) = (c.skip lead.length).skipLine.past text := by
    rw [Cursor.past_append, Cursor.past_of_flat hflat, Cursor.past_cons_break (by decide)]
  obtain ⟨d, hd⟩ : ∃ d, d = (c.skip lead.length).skipLine := ⟨_, rfl⟩
  have hdcolumn : d.column = 0 := by rw [hd, hline]
  have hdrest : d.rest = indentLines (m + 2) true (bs ++ u) ++ (pad k ++ rest) := by
    rw [hd, hline, hsplit]
  have hkn : k < m + 2 := Nat.lt_add_right 1 (Nat.lt_succ_of_le hk)
  obtain ⟨w, hgap, hw⟩ := blockGap_first (hidesIndentation s) hbs hu hkn hrest hdcolumn hdrest
    (shows_indentation hs hprint hsplit hbs)
  obtain ⟨s', hsays, hrun⟩ := blockLines_whole hbs hu hkn hrest hdrest hdcolumn
  have hfixed : ((if hidesIndentation s then some 2 else none).map fun n =>
      (max (m : Int) 0).toNat + n).getD 0 = if hidesIndentation s then m + 2 else 0 := by
    cases hidesIndentation s <;> simp
  have hindent : (if (if hidesIndentation s then m + 2 else 0) = 0 then
      max 1 (max w ((m : Int) + 1).toNat) else if hidesIndentation s then m + 2 else 0) =
        m + 2 := by
    cases hhides : hidesIndentation s with
    | true => simp
    | false =>
        rw [hw hhides]
        simp
  rw [hpast, ← hd, hsplit, blockText, hmarks]
  simp only [finishLine?_break hskip, ← hd, hfixed, hgap, hindent, hrun]
  rw [← hchomp s' (hsplit ▸ hsays)]
  cases mark <;> rfl

end Text

end ResourceApi.Yaml
