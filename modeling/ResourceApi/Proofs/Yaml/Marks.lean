import ResourceApi.Proofs.Yaml.Scanning

/-!
Marks of items, keys and values. Each is one token, in front of which a block starts if the mark is
further in than the block around it. What it marks stands behind it on its line or on the line
below.
-/

namespace ResourceApi.Yaml.Token.Scan

/-- The columns of the blocks around the entries at a column. -/
def columnsAt (k : Nat) (b : Int) (outer : List Int) : List Int :=
  if b < k then k :: b :: outer else b :: outer

/-- A block starts where its entries are further in than the block around it. -/
def startAt (k : Nat) (b : Int) (t : Token) : List Token := if b < k then [t] else []

section Marks

variable {s v : Scan} {text rest : List Char} {k m : Nat} {allowed : Bool}
  {columns outer : List Int} {done : List Token} {b : Int}

theorem KeyBefore.of_none {line : Nat} (h : s.key = none) : s.KeyBefore line := by
  intro q hq
  rw [h] at hq
  cases hq

/-- A part on the line of its mark. -/
theorem Ready.before_blank (h : s.Ready (' ' :: text) m allowed columns done)
    (htext : Opens text) : s.Before text (m + 1) allowed columns done :=
  before_pad (j := 1) h.rest htext (by rw [h.column]) (.of_none h.key) h.keyAllowed h.between

/-- A part on the line below its mark. -/
theorem Ready.before_line (h : s.Ready ('\n' :: (pad k ++ text)) m allowed columns done)
    (htext : Opens text) : s.Before text k true columns done :=
  Scan.before_line h.rest htext (.of_none h.key) h.between

/-- A block may start in front of the mark of its first entry. -/
theorem Ready.openBlock (h : v.Ready text k allowed (b :: outer) done) (t : Token) :
    ∃ w : Scan, v.openBlock k t = w ∧
      w.Ready text k allowed (columnsAt k b outer) (done ++ startAt k b t) := by
  rw [Scan.openBlock, columnsAt, startAt, inFlow_of_outside h.between.outside, h.between.column_eq]
  by_cases hb : b < k
  · simp only [hb, Bool.not_false, Bool.true_and, decide_true, if_true]
    exact ⟨_, rfl, h.rest, h.column, h.key, h.keyAllowed, h.between.outside,
      by rw [h.between.outer_eq], h.between.wrote.add t⟩
  · simp only [hb, Bool.not_false, Bool.true_and, decide_false, Bool.false_eq_true, if_false]
    exact ⟨_, rfl, by simpa using h⟩

/-- A mark becomes a token. -/
theorem Ready.marked {x : Char} (h : v.Ready (x :: rest) k allowed columns done) (t : Token)
    (allowed' : Bool) :
    Ready { v.addSkipping t 1 with keyAllowed := allowed' } rest (k + 1) allowed' columns
      (done ++ [t]) where
  rest := by
    change v.cursor.rest.drop 1 = rest
    rw [h.rest]
    rfl
  column := by
    change v.cursor.column + 1 = k + 1
    rw [h.column]
  key := h.key
  keyAllowed := rfl
  between := ⟨h.between.outside, h.between.columns, h.between.wrote.add t⟩

theorem head?_ne_of_endsWord {x : Char} (h : endsWord rest.head? = true)
    (hx : isBlank x = false ∧ isBreak x = false) : rest.head? ≠ some x := by
  intro heq
  rw [heq, endsWord_eq_false hx] at h
  cases h

/-- A mark that stands alone does not look like the bound of a document. -/
theorem isAtBound_of_mark {c : Cursor} {x : Char} (h : c.rest = x :: rest) (hx : x ≠ '.')
    (hrest : endsWord rest.head? = true) : c.isAtBound = false := by
  have hnext : rest.head? ≠ some '-' := head?_ne_of_endsWord hrest (by decide)
  have hdash : c.rest.take 3 ≠ ['-', '-', '-'] := by
    rw [h]
    intro heq
    cases rest with
    | nil => cases heq
    | cons y rest =>
        obtain ⟨-, heq⟩ := List.cons.inj heq
        exact hnext (by rw [(List.cons.inj heq).1]; rfl)
  have hdot : c.rest.take 3 ≠ ['.', '.', '.'] := by
    rw [h]
    intro heq
    exact hx (List.cons.inj heq).1
  simp [Cursor.isAtBound, hdash, hdot]

theorem peekAt_one {c : Cursor} {x : Char} (h : c.rest = x :: rest) :
    c.peekAt 1 = rest.head? := by
  rw [Cursor.peekAt, h]
  cases rest <;> rfl

/-- The mark of an item. -/
theorem Ready.step_entry (h : v.Ready ('-' :: rest) k true (b :: outer) done)
    (hrest : endsWord rest.head? = true) :
    ∃ s', v.step '-' = some s' ∧ s'.Ready rest (k + 1) true (columnsAt k b outer)
      (done ++ startAt k b .sequenceStart ++ [.entry]) := by
  have hbound := isAtBound_of_mark h.rest (by decide) hrest
  have hstep : v.step '-' = v.blockEntry := by simp [step, hbound, peekAt_one h.rest, hrest]
  obtain ⟨w, hw, hready⟩ := h.openBlock .sequenceStart
  refine ⟨_, ?_, hready.marked .entry true⟩
  rw [hstep, blockEntry, h.column, hw, h.keyAllowed]
  simp [dropKey, hready.key]

/-- The mark of a key that is written out. -/
theorem Ready.step_key (h : v.Ready ('?' :: rest) k true (b :: outer) done)
    (hrest : endsWord rest.head? = true) :
    ∃ s', v.step '?' = some s' ∧ s'.Ready rest (k + 1) true (columnsAt k b outer)
      (done ++ startAt k b .mappingStart ++ [.key]) := by
  have hbound := isAtBound_of_mark h.rest (by decide) hrest
  have hstep : v.step '?' = v.explicitKey := by simp [step, hbound, peekAt_one h.rest, hrest]
  obtain ⟨w, hw, hready⟩ := h.openBlock .mappingStart
  refine ⟨_, ?_, hready.marked .key true⟩
  rw [hstep, explicitKey, h.column, hw, h.keyAllowed]
  simp [dropKey, hready.key, inFlow_of_outside hready.between.outside]

/-- The mark of a value, below the key that is written out. -/
theorem Ready.step_value (h : v.Ready (':' :: rest) k true (k :: outer) done)
    (hrest : endsWord rest.head? = true) :
    ∃ s', v.step ':' = some s' ∧ s'.Ready rest (k + 1) true (k :: outer) (done ++ [.value]) := by
  have hbound := isAtBound_of_mark h.rest (by decide) hrest
  have hstep : v.step ':' = v.valueMark := by simp [step, hbound, peekAt_one h.rest, hrest]
  refine ⟨_, ?_, h.marked .value true⟩
  rw [hstep, valueMark, h.key]
  simp [h.keyAllowed, inFlow_of_outside h.between.outside, Scan.openBlock, h.column,
    h.between.column_eq]

/-- One token is read, and the scanner is behind its mark. -/
theorem Before.marked {x : Char} {columns' : List Int} {done' : List Token} {allowed' : Bool}
    (h : s.Before (x :: rest) k allowed (b :: outer) done) (hb : b ≤ k)
    (hstep : ∀ v : Scan, v.Ready (x :: rest) k allowed (b :: outer) done →
      ∃ s', v.step x = some s' ∧ s'.Ready rest m allowed' columns' done') :
    ∃ s', s.Advances s' ∧ s'.Ready rest m allowed' columns' done' := by
  obtain ⟨v, hready, hlength, hrun⟩ := h.ready hb
  obtain ⟨s', hs', hmarked⟩ := hstep v hready
  refine ⟨s', ⟨1, ?_, fun fuel => hrun x rest s' rfl hs' fuel⟩, hmarked⟩
  rw [List.length_cons] at hlength
  rw [hmarked.rest]
  omega

end Marks

end ResourceApi.Yaml.Token.Scan
