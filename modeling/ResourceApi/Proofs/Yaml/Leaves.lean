import ResourceApi.Proofs.Yaml.Scalars

/-!
Values that are written on the line of their mark: scalars in any style and empty collections.
Behind the line end the scanner comes to the next entry, and no possible key is left.
-/

namespace ResourceApi.Yaml

/-- Between quotes only such line ends stand that are read as what they are. -/
theorem Spells.isLineEnd {quote : Char} {t s : List Char} (h : Spells quote t s)
    (hquote : isBreak quote = false) : ∀ x ∈ t, isBreak x = true → IsLineEnd x := by
  induction h with
  | nil => simp
  | char hw h ih =>
      intro x hx hbreak
      rcases List.mem_append.mp hx with hx | hx
      · rw [hw.flat hquote x hx] at hbreak
        cases hbreak
      · exact ih x hx hbreak
  | blanks n ht h ih =>
      intro x hx hbreak
      rcases List.mem_append.mp hx with hx | hx
      · rw [isBreak_of_mem_pad x hx] at hbreak
        cases hbreak
      · exact ih x hx hbreak
  | lines n hb hfeed hmore ht h ih =>
      intro x hx hbreak
      rcases List.mem_append.mp hx with hx | hx
      · rcases List.mem_append.mp hx with hx | hx
        · exact List.forall_mem_cons.mpr ⟨hb, hmore⟩ x hx
        · rw [isBreak_of_mem_pad x hx] at hbreak
          cases hbreak
      · exact ih x hx hbreak

theorem Words.flat {u : List Char} (hu : Words u) : ∀ x ∈ u, isBreak x = false := by
  induction hu with
  | last hw => exact hw.flat
  | more hw n hu ih =>
      intro x hx
      rcases List.mem_append.mp hx with hx | hx
      · rcases List.mem_append.mp hx with hx | hx
        · exact hw.flat x hx
        · exact isBreak_of_mem_pad x hx
      · exact ih x hx

namespace Token.Scan

section Leaves

variable {s v : Scan} {text rest w chars : List Char} {k k' m : Nat} {allowed : Bool}
  {columns outer : List Int} {done : List Token} {x : Char} {style : Style}

theorem Scalar.not_mem_return (hw : Scalar style w chars) : '\r' ∉ w := by
  have hreturn : isBreak '\r' = true := by decide
  intro hmem
  cases hw with
  | plain hs hbegins hbom =>
      rw [hs.flat _ hmem] at hreturn
      cases hreturn
  | @single t chars h =>
      have hmem' : '\r' ∈ t := by simpa using hmem
      exact (h.isLineEnd (by decide) _ hmem' hreturn).ne_return rfl
  | @double t chars h =>
      have hmem' : '\r' ∈ t := by simpa using hmem
      exact (h.isLineEnd (by decide) _ hmem' hreturn).ne_return rfl

/-- A key that is noted inside the line of its block is none on the lines below. -/
theorem Ready.keyBefore_noting (h : v.Ready text m allowed ((k : Int) :: outer) done) (hm : k < m)
    {line : Nat} (hline : v.cursor.line < line) : v.noting.KeyBefore line := by
  intro q hq
  have hcolumn : v.column = k := h.between.column_eq
  rw [noting] at hq
  split at hq
  · obtain rfl := Option.some.inj hq
    refine ⟨?_, hline⟩
    simp only [hcolumn, h.column, Bool.and_eq_false_imp, decide_eq_false_iff_not]
    omega
  · rw [h.key] at hq
    cases hq

theorem Opens.endsGap (h : Opens text) : EndsGap text := fun x hx => ⟨(h x hx).1, (h x hx).2.1⟩

theorem between_noting (h : v.Between columns done) : v.noting.Between columns done := by
  rw [noting]
  split
  · exact ⟨h.outside, h.columns, h.wrote⟩
  · exact h

/-- A scalar on the line of its mark. -/
theorem Before.scalar (h : s.Before (w ++ '\n' :: (pad k' ++ text)) m allowed (k :: outer) done)
    (hw : Scalar style w chars) (hm : k < m) (hk : k' ≤ k) (htext : Opens text) :
    ∃ s', s.Advances s' ∧ s'.Before text k' true (k :: outer)
      (done ++ [.scalar style (String.ofList chars)]) := by
  obtain ⟨v, hready, hlength, hrun⟩ := h.ready (by omega)
  have hcolumn : v.column = k := hready.between.column_eq
  have hends : EndsPlain (k + 1) ('\n' :: pad k' ++ text) ('\n' :: pad k') true :=
    .line (Nat.lt_succ_of_le hk) htext.endsGap
  obtain ⟨x, t, passed, broken, hxt, hpassed, hstep⟩ := hw.step hready.key
    hready.between.outside hready.rest hends (by rw [hcolumn]; omega)
    (by rw [hready.column]; omega)
  have hbetween := between_noting hready.between
  have hwrote := hbetween.wrote.add (.scalar style (String.ofList chars))
  have hadvance (hrest : (v.cursor.past (w ++ passed)).rest.length ≤ text.length + (k' + 1)) :
      s.Advances { v.noting.add (.scalar style (String.ofList chars)) with
        cursor := v.cursor.past (w ++ passed), keyAllowed := broken } := by
    refine ⟨1, ?_, fun fuel => hrun x t _ hxt hstep fuel⟩
    have hpos : 0 < w.length := List.length_pos_iff.mpr hw.ne_nil
    simp only [List.length_append, List.length_cons, length_pad] at hlength
    change 1 + (v.cursor.past (w ++ passed)).rest.length ≤ _
    omega
  have hreturn := hw.not_mem_return
  -- Text without quotes takes the line end with it; quoted text leaves it to the scanner.
  rcases hpassed with ⟨rfl, rfl⟩ | ⟨rfl, rfl⟩
  · obtain ⟨hline, hpast⟩ := Cursor.past_line hready.rest hreturn (.inl rfl) k'
    have hrest : (v.cursor.past (w ++ '\n' :: pad k')).rest = text := by
      refine Cursor.rest_past (hready.rest.trans (by simp)) ?_
      simp only [List.mem_append, List.mem_cons, not_or]
      exact ⟨hreturn, by decide, fun hmem => absurd (eq_space_of_mem_pad hmem) (by decide)⟩
    refine ⟨_, hadvance (by rw [hrest]; omega), ?_⟩
    exact before_pad (j := 0) hrest htext hpast (hready.keyBefore_noting hm hline) rfl
      ⟨hbetween.outside, hbetween.columns, hwrote⟩
  · have hrest : (v.cursor.past (w ++ [])).rest = '\n' :: (pad k' ++ text) := by
      rw [List.append_nil]
      exact Cursor.rest_past hready.rest hreturn
    refine ⟨_, hadvance (by rw [hrest]; simp; omega), ?_⟩
    refine before_line hrest htext (hready.keyBefore_noting hm ?_)
      ⟨hbetween.outside, hbetween.columns, hwrote⟩
    exact Nat.lt_succ_of_le (Cursor.line_le_past _ _)

/-- Text over several lines, from the line of its mark. -/
theorem Before.literal
    (h : s.Before (endLine (literalText (k + 2) chars) ++ (pad k' ++ text)) m allowed
      (k :: outer) done)
    (hchars : chars ≠ []) (hprint : ∀ x ∈ chars, isPrintable x = true) (hm : k < m) (hk : k' ≤ k)
    (htext : Opens text) :
    ∃ s', s.Advances s' ∧ s'.Before text k' true (k :: outer)
      (done ++ [.scalar .literal (String.ofList chars)]) := by
  obtain ⟨v, hready, hlength, hrun⟩ := h.ready (by omega)
  have hcolumn : v.column = k := hready.between.column_eq
  have hflow : v.inFlow = false := inFlow_of_outside hready.between.outside
  have hbound : v.cursor.isAtBound = false :=
    Cursor.isAtBound_of_column (by rw [hready.column]; omega)
  obtain ⟨lead, hlead⟩ : ∃ lead, lead =
      (if hidesIndentation chars then ['2'] else []) ++ chompMark chars := ⟨_, rfl⟩
  obtain ⟨t, b, ht, hb⟩ := exists_endLine hprint
  have hlines : indentLines (k + 2) true (endLine chars) = indentLines (k + 2) true t ++ [b] := by
    rw [ht, indentLines_concat_break _ _ _ hb.isBreak]
  have hrest : v.cursor.rest = '|' :: (lead ++
      '\n' :: (indentLines (k + 2) true (endLine chars) ++ (pad k' ++ text))) := by
    rw [hready.rest, endLine_literalText _ hchars, ← hlead]
    simp
  have hskip : (v.cursor.skip 1).rest = lead ++
      '\n' :: (indentLines (k + 2) true (endLine chars) ++ (pad k' ++ text)) := by
    rw [Cursor.skip_rest, hrest]
    rfl
  have hread := blockText_literal hchars hprint hk htext.endsGap (hlead ▸ hskip)
  rw [← hlead, hlines] at hread
  obtain ⟨body, hbody⟩ : ∃ body, body = lead ++ '\n' :: indentLines (k + 2) true t := ⟨_, rfl⟩
  have hpasses : lead ++ '\n' :: (indentLines (k + 2) true t ++ [b] ++ pad k') =
      body ++ b :: pad k' := by simp [hbody]
  have hskip' : (v.cursor.skip 1).rest = body ++ b :: (pad k' ++ text) := by
    rw [hskip, hlines, hbody]
    simp
  have hreturn : '\r' ∉ body := by
    rw [hbody, List.mem_append, List.mem_cons, not_or, not_or]
    refine ⟨?_, by decide, fun hmem => ?_⟩
    · obtain ⟨mark, hmark, -⟩ := exists_chompMark hchars
      rw [hlead, hmark]
      cases hidesIndentation chars <;> cases mark <;> decide
    · rcases mem_indentLines hmem with heq | hmem
      · exact absurd heq (by decide)
      · rcases mem_endLine (show '\r' ∈ endLine chars by rw [ht]; simp [hmem]) with hmem | heq
        · exact absurd (hprint _ hmem) (by decide)
        · exact absurd heq (by decide)
  obtain ⟨hline, hpast⟩ := Cursor.past_line hskip' hreturn hb k'
  have hrest' : ((v.cursor.skip 1).past (body ++ b :: pad k')).rest = text := by
    refine Cursor.rest_past (hskip'.trans (by simp)) ?_
    simp only [List.mem_append, List.mem_cons, not_or]
    exact ⟨hreturn, Ne.symm hb.ne_return,
      fun hmem => absurd (eq_space_of_mem_pad hmem) (by decide)⟩
  have hstep : v.step '|' = some { v.add (.scalar .literal (String.ofList chars)) with
      cursor := (v.cursor.skip 1).past (body ++ b :: pad k'), keyAllowed := true } := by
    have hscalar : v.step '|' = v.blockScalar .literal := by simp [Scan.step, hbound, hflow]
    rw [hscalar, blockScalar, dropKey, hready.key, ← hpasses]
    simp [hcolumn, hread]
  refine ⟨_, ⟨1, ?_, fun fuel => hrun '|' _ _ (hready.rest.symm.trans hrest) hstep fuel⟩, ?_⟩
  · change 1 + ((v.cursor.skip 1).past (body ++ b :: pad k')).rest.length ≤ _
    rw [← hready.rest, hrest] at hlength
    simp only [List.length_cons, List.length_append] at hlength
    rw [hrest']
    omega
  · exact before_pad (j := 0) hrest' htext hpast (.of_none hready.key) rfl
      ⟨hready.between.outside, hready.between.columns, hready.between.wrote.add _⟩

/-- The two ways to write a collection between brackets or braces. -/
inductive Brackets : Char → Char → Token → Token → Prop where
  | sequence : Brackets '[' ']' .openBracket .closeBracket
  | mapping : Brackets '{' '}' .openBrace .closeBrace

theorem Brackets.opens_open {y : Char} {opening closing : Token}
    (hpair : Brackets x y opening closing) (rest : List Char) : Opens (x :: rest) :=
  opens_cons (by cases hpair <;> decide) rest

theorem Brackets.opens_close {y : Char} {opening closing : Token}
    (hpair : Brackets x y opening closing) (rest : List Char) : Opens (y :: rest) :=
  opens_cons (by cases hpair <;> decide) rest

theorem Brackets.step_open {y : Char} {opening closing : Token}
    (hpair : Brackets x y opening closing) (hbound : v.cursor.isAtBound = false) :
    v.step x = v.openFlow opening := by
  cases hpair <;> simp [Scan.step, hbound]

theorem Brackets.step_close {y : Char} {opening closing : Token}
    (hpair : Brackets x y opening closing) (hbound : v.cursor.isAtBound = false) :
    v.step y = v.closeFlow closing := by
  cases hpair <;> simp [Scan.step, hbound]

/-- Inside brackets the possible key in front of them is kept. -/
theorem dropStaleKeys_of_inside {key : Option KeyStart} (hkey : v.key = none)
    (hinside : v.outerKeys = [key]) (hfresh : ∀ q ∈ key, isStale v.cursor q = false) :
    v.dropStaleKeys = some v := by
  have hsame : { v with key := none, outerKeys := [key] } = v := by
    cases v
    simp_all
  rw [dropStaleKeys, hinside, hkey]
  cases key with
  | none => exact congrArg some hsame
  | some q =>
      simp only [List.mapM_cons, List.mapM_nil, hfresh q rfl, Bool.false_eq_true, if_false]
      exact congrArg some hsame

/-- An empty collection on the line of its mark. -/
theorem Before.empty {y : Char} {opening closing : Token} (hpair : Brackets x y opening closing)
    (h : s.Before (x :: y :: '\n' :: (pad k' ++ text)) m allowed (k :: outer) done) (hm : k < m)
    (htext : Opens text) :
    ∃ s', s.Advances s' ∧ s'.Before text k' true (k :: outer) (done ++ [opening, closing]) := by
  obtain ⟨v, hready, hlength, hrun⟩ := h.ready (by omega)
  have hcolumn : 0 < v.cursor.column := by rw [hready.column]; omega
  have hbetween := between_noting hready.between
  obtain ⟨u, hu⟩ : ∃ u : Scan, u = { v.noting.addSkipping opening 1 with
      key := none, outerKeys := [v.noting.key], keyAllowed := true } := ⟨_, rfl⟩
  obtain ⟨w, hw⟩ : ∃ w : Scan, w = { u.addSkipping closing 1 with
      key := v.noting.key, outerKeys := [], keyAllowed := false } := ⟨_, rfl⟩
  have hucursor : u.cursor = v.cursor.skip 1 := by
    rw [hu, ← noting_cursor v]
    rfl
  have hwcursor : w.cursor = v.cursor.skip 2 := by
    rw [hw, ← Cursor.skip_skip v.cursor 1 1, ← hucursor]
    rfl
  have hopen : v.step x = some u := by
    rw [hpair.step_open (Cursor.isAtBound_of_column hcolumn), openFlow, noteKey_eq hready.key]
    simp only [Option.bind_eq_bind, Option.bind_some, noting_outerKeys, hready.between.outside]
    rw [hu]
    rfl
  have hrest : u.cursor.rest = y :: '\n' :: (pad k' ++ text) := by
    rw [hucursor, Cursor.skip_rest, hready.rest]
    rfl
  have hinside : u.outerKeys = [v.noting.key] := by rw [hu]
  have hukey : u.key = none := by rw [hu]
  have harrive : u.arrive = some u := by
    rw [arrive, toNextToken_pad (j := 0) hrest (hpair.opens_close _), Cursor.skip_zero]
    refine dropStaleKeys_of_inside hukey hinside fun q hq => ?_
    rw [noting] at hq
    split at hq
    · obtain rfl := Option.some.inj hq
      simp [isStale, hucursor]
    · rw [hready.key] at hq
      cases hq
  have hclose : (u.closeBlocks u.cursor.column).step y = some w := by
    have hflow : u.inFlow = true := by rw [inFlow, hinside]; rfl
    have hbound : u.cursor.isAtBound = false :=
      Cursor.isAtBound_of_column (by rw [hucursor]; exact Nat.succ_pos _)
    rw [closeBlocks, if_pos hflow, hpair.step_close hbound, closeFlow, dropKey, hukey]
    simp [hinside, hw]
  have hwrest : w.cursor.rest = '\n' :: (pad k' ++ text) := by
    rw [hwcursor, Cursor.skip_rest, hready.rest]
    rfl
  -- Behind the closing bracket the key that was noted in front of the opening one is back, and the
  -- line end makes it stale.
  refine ⟨w, ⟨2, ?_, fun fuel => ?_⟩, before_line hwrest htext ?_ ⟨?_, ?_, ?_⟩⟩
  · rw [List.length_cons, List.length_cons] at hlength
    rw [hwrest]
    omega
  · rw [show fuel + 2 = (fuel + 1) + 1 from rfl, hrun x _ _ rfl hopen,
      run_step harrive (Cursor.peek_of_rest hrest) hclose]
  · have hkey := hready.keyBefore_noting hm (Nat.lt_succ_self _)
    rw [hwcursor]
    intro q hq
    rw [hw] at hq
    exact hkey q hq
  · rw [hw]
  · rw [hw, hu]
    exact hbetween.columns
  · have hwrote := (hbetween.wrote.add opening).add closing
    rw [List.append_assoc] at hwrote
    rw [hw, hu]
    exact hwrote

end Leaves

end Token.Scan

end ResourceApi.Yaml
