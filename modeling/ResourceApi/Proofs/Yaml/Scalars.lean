import ResourceApi.Proofs.Yaml.Marks
import ResourceApi.Proofs.Yaml.Unquoted

/-!
Scalars. A string that is written on one line, or between quotes, is one token; it becomes a key if
a colon follows, as long as it is short, and it is a value if its line ends behind it.
-/

namespace ResourceApi.Yaml.Token.Scan

/-- The text of a scalar in one of the styles that may be a key. -/
inductive Scalar : Style → List Char → List Char → Prop where
  | plain {s : List Char} (hs : Words s) (hbegins : beginsMarkup s = false)
      (hmark : s.head? ≠ some '\ufeff') : Scalar .plain s s
  | single {t s : List Char} (h : Spells '\'' t s) : Scalar .single ('\'' :: (t ++ ['\''])) s
  | double {t s : List Char} (h : Spells '"' t s) : Scalar .double ('"' :: (t ++ ['"'])) s

section Scalars

variable {s v : Scan} {text rest w chars : List Char} {k m limit : Nat} {allowed broken : Bool}
  {columns outer : List Int} {done : List Token} {b : Int} {x : Char} {style : Style}

/-- The scanner notes that a key may begin here. -/
def noting (v : Scan) : Scan :=
  if v.keyAllowed then
    { v with
      key := some ⟨!v.inFlow && v.column = v.cursor.column, v.count, v.cursor.line, v.cursor.index,
        v.cursor.column⟩ }
  else v

theorem noteKey_eq (h : v.key = none) : v.noteKey = some v.noting := by
  rw [noteKey, noting]
  split
  · rw [dropKey, h]
    rfl
  · rfl

theorem ne_of_isIndicator {y : Char} (h : isIndicator x = false) (hy : isIndicator y = true) :
    x ≠ y := by
  rintro rfl
  rw [h] at hy
  cases hy

/-- The first character of text without quotes is no indicator, and a mark there ends no word. -/
theorem beginsMarkup_cons (h : beginsMarkup (x :: w) = false) :
    isIndicator x = false ∧ (x = '-' ∨ x = '?' ∨ x = ':' → endsWord w.head? = false) := by
  simp only [beginsMarkup, Bool.or_eq_false_iff] at h
  refine ⟨h.1.1.1, fun hx => Bool.eq_false_iff.mpr fun hends => ?_⟩
  have hmark := h.1.1.2
  rcases hx with rfl | rfl | rfl <;> simp [hends] at hmark

theorem step_plain (houtside : v.outerKeys = []) (hbound : v.cursor.isAtBound = false)
    (h : v.cursor.rest = x :: rest) (hblank : isBlank x = false) (hind : isIndicator x = false)
    (hmark : x = '-' ∨ x = '?' ∨ x = ':' → endsWord rest.head? = false) :
    v.step x = v.plainScalar := by
  have hflow : v.inFlow = false := inFlow_of_outside houtside
  have hne (y : Char) (hy : isIndicator y = true) : x ≠ y := ne_of_isIndicator hind hy
  have hbegins : beginsPlain false x rest.head? = true := by
    rw [beginsPlain]
    by_cases hx : x = '-' ∨ x = '?' ∨ x = ':'
    · have hends := hmark hx
      rcases hx with rfl | rfl | rfl
      · have hnext : (rest.head?.map isBlank).getD false = false := by
          cases rest with
          | nil => rfl
          | cons y rest =>
              rw [List.head?_cons, endsWord, Bool.or_eq_false_iff] at hends
              exact hends.1
        simp [hnext]
      · simp [hends]
      · simp [hends]
    · simp only [not_or] at hx
      simp [hblank, hind, hx]
  have hends {y : Char} (hy : y = '-' ∨ y = '?' ∨ y = ':') :
      ¬ (x = y ∧ endsWord rest.head? = true) := by
    rintro ⟨rfl, hends⟩
    rw [hmark hy] at hends
    cases hends
  rw [step]
  simp [peekAt_one h, hbound, hflow, hbegins, hends (.inl rfl), hends (.inr (.inl rfl)),
    hends (.inr (.inr rfl)), hne '%' (by decide), hne '[' (by decide), hne '{' (by decide),
    hne ']' (by decide), hne '}' (by decide), hne ',' (by decide), hne '*' (by decide),
    hne '&' (by decide), hne '!' (by decide), hne '|' (by decide), hne '>' (by decide),
    hne '\'' (by decide), hne '"' (by decide)]

theorem take_three_of_append {y : Char} (hrest : ∀ z ∈ rest.head?, z ≠ y)
    (hne : rest ≠ []) (h : (w ++ rest).take 3 = [y, y, y]) : w.take 3 = [y, y, y] := by
  obtain ⟨z, rest, rfl⟩ := List.exists_cons_of_ne_nil hne
  have hz : z ≠ y := hrest z rfl
  match w with
  | [] => simp_all
  | [a] => simp_all
  | [a, b] => simp_all
  | a :: b :: c :: w => simpa using h

/-- No scalar looks like the bound of a document. -/
theorem Scalar.isAtBound {c : Cursor} (hw : Scalar style w chars) (h : c.rest = w ++ rest)
    (hrest : rest.head? = some ':' ∨ rest.head? = some '\n') : c.isAtBound = false := by
  have hne : rest ≠ [] := by
    rintro rfl
    simp at hrest
  have hhead {y : Char} (hcolon : ':' ≠ y) (hfeed : '\n' ≠ y) : ∀ z ∈ rest.head?, z ≠ y := by
    intro z hz
    rcases hrest with heq | heq <;> rw [heq] at hz <;> obtain rfl := Option.some.inj hz
    · exact hcolon
    · exact hfeed
  have hbound : ¬ (w.take 3 = ['-', '-', '-'] ∨ w.take 3 = ['.', '.', '.']) := by
    cases hw with
    | plain hs hbegins hbom =>
        obtain ⟨x, w, rfl, -⟩ := hs.exists_cons
        simp only [beginsMarkup, Bool.or_eq_false_iff, decide_eq_false_iff_not] at hbegins
        exact not_or.mpr ⟨hbegins.1.2, hbegins.2⟩
    | single h => simp
    | double h => simp
  rw [not_or] at hbound
  have hdash : (w ++ rest).take 3 ≠ ['-', '-', '-'] := fun heq =>
    hbound.1 (take_three_of_append (hhead (by decide) (by decide)) hne heq)
  have hdot : (w ++ rest).take 3 ≠ ['.', '.', '.'] := fun heq =>
    hbound.2 (take_three_of_append (hhead (by decide) (by decide)) hne heq)
  simp [Cursor.isAtBound, h, hdash, hdot]

theorem Scalar.ne_nil (hw : Scalar style w chars) : w ≠ [] := by
  cases hw with
  | plain hs hbegins hbom =>
      obtain ⟨x, t, rfl, -⟩ := hs.exists_cons
      exact List.cons_ne_nil x t
  | single h => exact List.cons_ne_nil _ _
  | double h => exact List.cons_ne_nil _ _

theorem noting_cursor (v : Scan) : v.noting.cursor = v.cursor := by
  rw [noting]
  split <;> rfl

theorem noting_column (v : Scan) : v.noting.column = v.column := by
  rw [noting]
  split <;> rfl

theorem noting_outerKeys (v : Scan) : v.noting.outerKeys = v.outerKeys := by
  rw [noting]
  split <;> rfl

theorem quotedScalar_eq {quote : Char} {t : List Char} (hs : Spells quote t chars)
    (hkey : v.key = none) (hquote : isBlank quote = false) (hbreak : isBreak quote = false)
    (h : v.cursor.rest = quote :: (t ++ quote :: rest))
    (hrest : quote = '\'' → rest.head? ≠ some '\'') :
    v.quotedScalar style quote =
      some { v.noting.add (.scalar style (String.ofList chars)) with
        cursor := v.cursor.past (quote :: (t ++ [quote])), keyAllowed := false } := by
  have hskip : (v.cursor.skip 1).rest = t ++ quote :: rest := by
    rw [Cursor.skip_rest, h]
    rfl
  have hfuel : t.length < v.cursor.rest.length + 1 := by
    rw [h, List.length_cons, List.length_append]
    omega
  have hpast : v.cursor.past (quote :: (t ++ [quote])) =
      (v.cursor.skip 1).past (t ++ [quote]) := by
    rw [Cursor.past, List.foldl_cons, hbreak, if_neg (by decide), ← Cursor.past]
  rw [quotedScalar, keyToken, noteKey_eq hkey]
  simp [noting_cursor, quotedText_spells hs hquote hbreak hskip hrest (Nat.succ_pos _) hfuel, hpast]

/-- A scalar is one token. Text without quotes is read up to the text behind it. -/
theorem Scalar.step {passed : List Char} (hw : Scalar style w chars) (hkey : v.key = none)
    (houtside : v.outerKeys = []) (h : v.cursor.rest = w ++ rest)
    (hrest : EndsPlain limit rest passed broken) (hlimit : (v.column + 1).toNat = limit)
    (hcolumn : limit ≤ v.cursor.column + 1) :
    ∃ x t passed' broken', w ++ rest = x :: t ∧
      (passed' = passed ∧ broken' = broken ∨ passed' = [] ∧ broken' = false) ∧
      v.step x = some { v.noting.add (.scalar style (String.ofList chars)) with
        cursor := v.cursor.past (w ++ passed'), keyAllowed := broken' } := by
  have hbound := hw.isAtBound h hrest.head?
  have hflow : v.noting.inFlow = false :=
    inFlow_of_outside ((noting_outerKeys v).trans houtside)
  have hquote : rest.head? ≠ some '\'' := by
    rcases hrest.head? with heq | heq <;> rw [heq] <;> decide
  cases hw with
  | plain hs hbegins hbom =>
      obtain ⟨x, t, rfl, hblank, -⟩ := hs.exists_cons
      obtain ⟨hind, hmark⟩ := beginsMarkup_cons hbegins
      have hmark' : x = '-' ∨ x = '?' ∨ x = ':' → endsWord (t ++ rest).head? = false := by
        intro hx
        have hends := hmark hx
        cases t with
        | nil => cases hends
        | cons y t => exact hends
      refine ⟨x, t ++ rest, passed, broken, rfl, .inl ⟨rfl, rfl⟩, ?_⟩
      rw [step_plain houtside hbound h hblank hind hmark', plainScalar, noteKey_eq hkey]
      have hfuel : (x :: t).length < v.cursor.rest.length + 1 := by
        rw [h, List.length_append]
        omega
      simp [hflow, noting_cursor, noting_column, hlimit,
        plainText_words hs h hrest hbound hcolumn hfuel, Gap.text, Gap.none]
  | @single t chars hs =>
      refine ⟨'\'', t ++ ['\''] ++ rest, [], false, rfl, .inr ⟨rfl, rfl⟩, ?_⟩
      have hstep : v.step '\'' = v.quotedScalar .single '\'' := by simp [Scan.step, hbound]
      rw [hstep, quotedScalar_eq hs hkey (by decide) (by decide) (by simpa using h) fun _ => hquote,
        List.append_nil]
  | @double t chars hs =>
      refine ⟨'"', t ++ ['"'] ++ rest, [], false, rfl, .inr ⟨rfl, rfl⟩, ?_⟩
      have hstep : v.step '"' = v.quotedScalar .double '"' := by simp [Scan.step, hbound]
      rw [hstep, quotedScalar_eq hs hkey (by decide) (by decide) (by simpa using h) fun _ => hquote,
        List.append_nil]

/-! ### Keys -/

theorem Ready.noting_eq (h : v.Ready text k true columns done) :
    v.noting = { v with
      key := some ⟨v.column = k, v.count, v.cursor.line, v.cursor.index, k⟩ } := by
  rw [noting, if_pos h.keyAllowed, h.column, inFlow_of_outside h.between.outside]
  rfl

/-- A colon behind a possible key marks the token that began it. -/
theorem valueMark_of_key {q : KeyStart} (hkey : s.key = some q) (houtside : s.outerKeys = [])
    (hcolumn : s.column = b) (hq : q.column = k) :
    s.valueMark = some ({ s with
      column := if b < k then k else b, outer := if b < k then b :: s.outer else s.outer,
      marks := (q.number, startAt k b .mappingStart ++ [Token.key]) :: s.marks,
      key := none, keyAllowed := false }.addSkipping .value 1) := by
  rw [valueMark, hkey]
  simp only [inFlow_of_outside houtside, hcolumn, hq, startAt]
  by_cases hb : b < k
  · simp [hb]
  · simp [hb]
    rw [← hcolumn]

/-- The token in front of a colon becomes a key, and a block may start in front of it. -/
theorem Ready.run_colon {n : Nat} (h : v.Ready text k true (b :: outer) done) (hb : b ≤ k)
    (t : Token) (hn : 0 < n) (hshort : n ≤ 1024) (hcolon : text.drop n = ':' :: rest)
    (hrest : endsWord rest.head? = true) :
    ∃ s', (∀ fuel, run (fuel + 1)
        { v.noting.add t with cursor := v.cursor.skip n, keyAllowed := false } = run fuel s') ∧
      s'.Ready rest (k + n + 1) false (columnsAt k b outer)
        (done ++ (startAt k b .mappingStart ++ [.key] ++ [t, .value])) := by
  have hcolumn := h.between.column_eq
  have houter := h.between.outer_eq
  rw [h.noting_eq]
  -- The scanner stops once more in front of the colon, where the key that was noted is not stale.
  obtain ⟨s, hs⟩ : ∃ s : Scan, s = { Scan.add { v with
      key := some ⟨v.column = k, v.count, v.cursor.line, v.cursor.index, k⟩ } t with
      cursor := v.cursor.skip n, keyAllowed := false } := ⟨_, rfl⟩
  rw [← hs]
  have hsrest : s.cursor.rest = ':' :: rest := by
    rw [hs, ← hcolon, ← h.rest]
    rfl
  have hskip : s.cursor.column = k + n := by rw [hs, ← h.column]; rfl
  have hscolumn : s.column = b := by rw [hs, ← hcolumn]; rfl
  have houtside : s.outerKeys = [] := by rw [hs]; exact h.between.outside
  have hkey : s.key = some ⟨v.column = k, v.count, v.cursor.line, v.cursor.index, k⟩ := by
    rw [hs]
    rfl
  have hopens : Opens (':' :: rest) := opens_cons (by decide) rest
  have hfresh : ∀ q ∈ s.key, isStale s.cursor q = false := by
    intro q hq
    rw [hkey] at hq
    obtain rfl := Option.some.inj hq
    rw [hs]
    simp [isStale, hshort]
  have harrive : s.arrive = some s := by
    rw [arrive, toNextToken_pad (j := 0) hsrest hopens, Cursor.skip_zero]
    exact dropStaleKeys_of_fresh houtside hfresh
  have hclose : s.closeBlocks s.cursor.column = s := by
    refine closeBlocks_self ?_
    rw [hskip, hscolumn]
    omega
  have hbound : s.cursor.isAtBound = false :=
    Cursor.isAtBound_of_column (by rw [hskip]; omega)
  have hstep : s.step ':' = s.valueMark := by
    simp [Scan.step, hbound, peekAt_one hsrest, hrest]
  have hread := (congrArg (fun u : Scan => u.step ':') hclose).trans
    (hstep.trans (valueMark_of_key hkey houtside hscolumn rfl))
  refine ⟨_, fun fuel => run_step harrive (Cursor.peek_of_rest hsrest) hread fuel, ?_, ?_, rfl, rfl,
    houtside, ?_, ?_⟩
  · change s.cursor.rest.drop 1 = rest
    rw [hsrest]
    rfl
  · change s.cursor.column + 1 = k + n + 1
    rw [hskip]
  · change (if b < k then (k : Int) else b) :: (if b < k then b :: s.outer else s.outer) = _
    have hsouter : s.outer = outer := by rw [hs, ← houter]; rfl
    rw [columnsAt, hsouter]
    split <;> rfl
  · have hwrote := h.between.wrote.addKey t (startAt k b .mappingStart ++ [.key])
    rw [hs]
    exact hwrote

/-- A scalar that a colon follows is a key. -/
theorem Before.key (h : s.Before (w ++ ':' :: rest) k true (b :: outer) done) (hb : b ≤ k)
    (hw : Scalar style w chars) (hflat : ∀ x ∈ w, isBreak x = false) (hshort : w.length ≤ 1024)
    (hrest : endsWord rest.head? = true) :
    ∃ s', s.Advances s' ∧ s'.Ready rest (k + w.length + 1) false (columnsAt k b outer)
      (done ++ (startAt k b .mappingStart ++ [.key] ++
        [.scalar style (String.ofList chars), .value])) := by
  obtain ⟨v, hready, hlength, hrun⟩ := h.ready hb
  have hcolumn : v.column = b := hready.between.column_eq
  have hends : EndsPlain (b + 1).toNat (':' :: rest) [] false := .colon hrest
  obtain ⟨x, t, passed, broken, hxt, hpassed, hstep⟩ := hw.step hready.key
    hready.between.outside hready.rest hends (by rw [hcolumn]) (by rw [hready.column]; omega)
  obtain ⟨rfl, rfl⟩ : passed = [] ∧ broken = false := by simpa using hpassed
  rw [List.append_nil, Cursor.past_of_flat hflat] at hstep
  have hpos : 0 < w.length := List.length_pos_iff.mpr hw.ne_nil
  obtain ⟨s', hcolon, hmarked⟩ := hready.run_colon hb (.scalar style (String.ofList chars)) hpos
    hshort (List.drop_left ..) hrest
  refine ⟨s', ⟨2, ?_, fun fuel => ?_⟩, hmarked⟩
  · rw [List.length_append, List.length_cons] at hlength
    rw [hmarked.rest]
    omega
  · rw [show fuel + 2 = (fuel + 1) + 1 from rfl, hrun x t _ hxt hstep, hcolon]

end Scalars

end ResourceApi.Yaml.Token.Scan
