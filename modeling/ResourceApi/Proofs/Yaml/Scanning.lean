import ResourceApi.Yaml.Token
import ResourceApi.Proofs.Yaml.Literal

/-!
Steps of the scanner. What is written so far is the stream of tokens with their marks in place. In
front of a token the scanner closes the blocks that are further in; the mark of an entry, a key or a
value opens a block where it is further in than the block around it.
-/

namespace ResourceApi.Yaml.Token

/-! ### The stream -/

section Stream

variable {tokens : List Token} {marks : List (Nat × List Token)} {n : Nat}

theorem splice_append (n : Nat) (tokens : List Token) (marks : List (Nat × List Token))
    (done more : List Token) :
    splice n tokens marks (done ++ more) = splice n tokens marks done ++ more := by
  induction tokens generalizing n marks done with
  | nil => rfl
  | cons t tokens ih =>
      rw [splice, splice, ← ih, List.append_assoc, List.cons_append]

/-- A token to which no mark belongs comes behind those before it. -/
theorem splice_cons (t : Token) (h : ∀ m ∈ marks, m.1 < n) (done : List Token) :
    splice (n + 1) (t :: tokens) marks done = splice n tokens marks [] ++ t :: done := by
  have htake : marks.takeWhile (fun m => m.1 = n + 1 - 1) = [] ∧
      marks.dropWhile (fun m => m.1 = n + 1 - 1) = marks := by
    cases marks with
    | nil => exact ⟨rfl, rfl⟩
    | cons m marks =>
        have hm : m.1 ≠ n := Nat.ne_of_lt (h m List.mem_cons_self)
        simp [hm]
  rw [splice, htake.1, htake.2, List.flatMap_nil, List.nil_append, ← List.nil_append (t :: done),
    splice_append]
  rfl

/-- The marks of a key come in front of the token that began it. -/
theorem splice_key (t v : Token) (ms : List Token) (h : ∀ m ∈ marks, m.1 < n) :
    splice (n + 2) (v :: t :: tokens) ((n, ms) :: marks) [] =
      splice n tokens marks [] ++ (ms ++ [t, v]) := by
  have htake : marks.takeWhile (fun m => m.1 = n) = [] ∧
      marks.dropWhile (fun m => m.1 = n) = marks := by
    cases marks with
    | nil => exact ⟨rfl, rfl⟩
    | cons m marks =>
        have hm : m.1 ≠ n := Nat.ne_of_lt (h m List.mem_cons_self)
        simp [hm]
  rw [splice, splice]
  simp [htake, ← splice_append]

/-- Tokens in reverse order with their marks are a stream. -/
structure Wrote (n : Nat) (tokens : List Token) (marks : List (Nat × List Token))
    (done : List Token) : Prop where
  stream : splice n tokens marks [] = done
  below : ∀ m ∈ marks, m.1 < n
  sorted : marks.Pairwise fun m m' => m'.1 < m.1

variable {done : List Token}

theorem Wrote.add (h : Wrote n tokens marks done) (t : Token) :
    Wrote (n + 1) (t :: tokens) marks (done ++ [t]) where
  stream := (splice_cons t h.below []).trans (by rw [h.stream])
  below m hm := Nat.lt_succ_of_lt (h.below m hm)
  sorted := h.sorted

/-- A token that turns out to be a key, and the colon behind it. -/
theorem Wrote.addKey (h : Wrote n tokens marks done) (t : Token) (ms : List Token) :
    Wrote (n + 2) (.value :: t :: tokens) ((n, ms) :: marks) (done ++ (ms ++ [t, .value])) where
  stream := (splice_key t .value ms h.below).trans (by rw [h.stream])
  below := List.forall_mem_cons.mpr
    ⟨Nat.lt_add_of_pos_right (by decide), fun m hm => Nat.lt_add_right 2 (h.below m hm)⟩
  sorted := List.pairwise_cons.mpr ⟨h.below, h.sorted⟩

/-- The marks are in order already. -/
theorem Wrote.mergeSort (h : Wrote n tokens marks done) :
    splice n tokens (marks.mergeSort fun a b => decide (b.1 ≤ a.1)) [] = done := by
  rw [List.mergeSort_of_pairwise, h.stream]
  exact h.sorted.imp fun hlt => decide_eq_true (Nat.le_of_lt hlt)

end Stream

namespace Scan

/-! ### Coming to a token -/

/-- The scanner in front of the next token. -/
def arrive (s : Scan) : Option Scan := (toNextToken (s.cursor.rest.length + 1) s).dropStaleKeys

/-- The scanner outside brackets, with the columns of the blocks around it, after some tokens. -/
structure Between (s : Scan) (columns : List Int) (done : List Token) : Prop where
  outside : s.outerKeys = []
  columns : s.column :: s.outer = columns
  wrote : Wrote s.count s.tokens s.marks done

/-- The text begins with a token, or nothing is left of it. -/
def Opens (text : List Char) : Prop :=
  ∀ x ∈ text.head?, isBlank x = false ∧ isBreak x = false ∧ x ≠ '#' ∧ x ≠ '\ufeff'

/-- The scanner comes to the text at a column, where blocks that are further in are still open; the
tokens count as if these were closed. Also whether a key may begin here. -/
def Before (s : Scan) (text : List Char) (k : Nat) (allowed : Bool) (columns : List Int)
    (done : List Token) : Prop :=
  ∃ u inner written, s.arrive = some u ∧ u.cursor.rest = text ∧ u.cursor.column = k ∧
    text.length ≤ s.cursor.rest.length ∧ u.key = none ∧ u.keyAllowed = allowed ∧
    u.Between (inner ++ columns) written ∧ (∀ column ∈ inner, (k : Int) < column) ∧
    written ++ List.replicate inner.length .blockEnd = done

/-- The scanner stands at a column in front of the text, inside blocks that began at these columns
and behind these tokens. No key may turn out to have begun already; also whether one may begin
here. -/
structure Ready (s : Scan) (text : List Char) (k : Nat) (allowed : Bool) (columns : List Int)
    (done : List Token) : Prop where
  rest : s.cursor.rest = text
  column : s.cursor.column = k
  key : s.key = none
  keyAllowed : s.keyAllowed = allowed
  between : s.Between columns done

/-- A run goes on from another state, in no more steps than characters are passed. -/
def Advances (s s' : Scan) : Prop :=
  ∃ n, n + s'.cursor.rest.length ≤ s.cursor.rest.length ∧
    ∀ fuel, run (fuel + n) s = run fuel s'

theorem opens_cons {x : Char}
    (h : isBlank x = false ∧ isBreak x = false ∧ x ≠ '#' ∧ x ≠ '\ufeff') (rest : List Char) :
    Opens (x :: rest) := by
  intro y hy
  obtain rfl := Option.some.inj hy
  exact h

theorem inFlow_of_outside {s : Scan} (h : s.outerKeys = []) : s.inFlow = false := by
  rw [inFlow, h]
  rfl

theorem Between.column_eq {s : Scan} {b : Int} {outer : List Int} {done : List Token}
    (h : s.Between (b :: outer) done) : s.column = b := (List.cons.inj h.columns).1

theorem Between.outer_eq {s : Scan} {b : Int} {outer : List Int} {done : List Token}
    (h : s.Between (b :: outer) done) : s.outer = outer := (List.cons.inj h.columns).2

section Arrive

variable {s s' s'' u : Scan} {text rest : List Char} {k m : Nat} {columns outer : List Int}
  {done : List Token} {b : Int} {x : Char} {allowed : Bool}

theorem Advances.trans (h : s.Advances s') (h' : s'.Advances s'') : s.Advances s'' := by
  obtain ⟨n, hn, hrun⟩ := h
  obtain ⟨n', hn', hrun'⟩ := h'
  refine ⟨n' + n, by omega, fun fuel => ?_⟩
  rw [← Nat.add_assoc, hrun, hrun']

theorem run_step (harrive : s.arrive = some u) (hpeek : u.cursor.peek = some x)
    (hstep : (u.closeBlocks u.cursor.column).step x = some s') (fuel : Nat) :
    run (fuel + 1) s = run fuel s' := by
  rw [arrive] at harrive
  rw [run, harrive]
  simp only [hpeek, hstep]

theorem run_end (harrive : s.arrive = some u) (hpeek : u.cursor.peek = none) (fuel : Nat) :
    run (fuel + 1) s = (u.closeBlocks (-1)).dropKey := by
  rw [arrive] at harrive
  rw [run, harrive]
  simp only [hpeek]

theorem closeBlocks_self {column : Int} (h : u.column ≤ column) : u.closeBlocks column = u := by
  rw [closeBlocks]
  split
  · rfl
  · simp [h]

/-- Blocks that are further in than a column are closed. -/
theorem closeBlocks_between {inner : List Int} {column : Int}
    (h : u.Between (inner ++ b :: outer) done) (hinner : ∀ c ∈ inner, column < c)
    (hb : b ≤ column) :
    ∃ v, u.closeBlocks column = v ∧ v.cursor = u.cursor ∧ v.key = u.key ∧
      v.keyAllowed = u.keyAllowed ∧
      v.Between (b :: outer) (done ++ List.replicate inner.length .blockEnd) := by
  have hclosed : (u.column :: u.outer).takeWhile (fun c => column < c) = inner := by
    rw [h.columns, List.takeWhile_append_of_pos (by simpa using hinner)]
    simp [hb]
  rw [closeBlocks, inFlow_of_outside h.outside, if_neg (by decide)]
  simp only [hclosed]
  clear hclosed
  induction inner generalizing u done with
  | nil => exact ⟨u, rfl, rfl, rfl, rfl, by simpa using h⟩
  | cons c inner ih =>
      obtain ⟨c', rest, hrest⟩ : ∃ c' rest, inner ++ b :: outer = c' :: rest := by
        cases inner with
        | nil => exact ⟨b, outer, rfl⟩
        | cons c' inner => exact ⟨c', _, rfl⟩
      have houter : u.outer = c' :: rest := h.outer_eq.trans hrest
      have hnext : Between { u.add .blockEnd with column := c', outer := rest }
          (inner ++ b :: outer) (done ++ [.blockEnd]) :=
        ⟨h.outside, hrest.symm, h.wrote.add _⟩
      obtain ⟨v, hv, hcursor, hkey, hallowed, hbetween⟩ :=
        ih hnext fun c hc => hinner c (List.mem_cons_of_mem _ hc)
      refine ⟨v, ?_, hcursor, hkey, hallowed, ?_⟩
      · rw [List.foldl_cons, houter]
        exact hv
      · rw [List.length_cons, List.replicate_succ]
        simpa using hbetween

/-- A block that is further in than the text counts as closed in front of it. -/
theorem Before.pop {c : Int} (h : s.Before text k allowed (c :: columns) done)
    (hc : (k : Int) < c) : s.Before text k allowed columns (done ++ [.blockEnd]) := by
  obtain ⟨u, inner, written, harrive, hrest, hcolumn, hlength, hkey, hallowed, hbetween, hinner,
    hdone⟩ := h
  refine ⟨u, inner ++ [c], written, harrive, hrest, hcolumn, hlength, hkey, hallowed, ?_, ?_, ?_⟩
  · rw [List.append_assoc]
    exact hbetween
  · simpa [or_imp, forall_and] using ⟨hinner, hc⟩
  · rw [← hdone, List.length_append, List.length_singleton, List.replicate_succ',
      List.append_assoc]

/-- The scanner reads the next token in front of it, with the blocks closed. -/
theorem Before.ready (h : s.Before text k allowed (b :: outer) done) (hb : b ≤ k) :
    ∃ v : Scan, v.Ready text k allowed (b :: outer) done ∧ text.length ≤ s.cursor.rest.length ∧
      ∀ x rest s', text = x :: rest → v.step x = some s' →
        ∀ fuel, run (fuel + 1) s = run fuel s' := by
  obtain ⟨u, inner, written, harrive, hrest, hcolumn, hlength, hkey, hallowed, hbetween, hinner,
    hdone⟩ := h
  obtain ⟨v, hv, hcursor, hvkey, hvallowed, hvbetween⟩ := closeBlocks_between hbetween hinner hb
  refine ⟨v, ⟨?_, ?_, ?_, ?_, hdone ▸ hvbetween⟩, hlength, fun x rest s' htext hstep fuel => ?_⟩
  · rw [hcursor, hrest]
  · rw [hcursor, hcolumn]
  · rw [hvkey, hkey]
  · rw [hvallowed, hallowed]
  · refine run_step harrive (Cursor.peek_of_rest (hrest.trans htext)) ?_ fuel
    rw [hcolumn, hv, hstep]

/-- At the end all blocks are closed. -/
theorem Before.finish (h : s.Before [] k allowed [(k : Int), -1] done) (fuel : Nat) :
    ∃ v, run (fuel + 1) s = some v ∧
      splice v.count v.tokens (v.marks.mergeSort fun a b => decide (b.1 ≤ a.1)) [] =
        done ++ [.blockEnd] := by
  obtain ⟨u, inner, written, harrive, hrest, -, -, hkey, -, hbetween, hinner, hdone⟩ := h
  -- At the end the block of the text itself is closed as well, down to the column of no block.
  have hbetween' : u.Between ((inner ++ [(k : Int)]) ++ -1 :: []) written := by
    rw [List.append_assoc]
    exact hbetween
  have hinner' : ∀ c ∈ inner ++ [(k : Int)], -1 < c := by
    intro c hc
    rcases List.mem_append.mp hc with hc | hc
    · have hlt := hinner c hc
      omega
    · rw [List.mem_singleton.mp hc]
      omega
  obtain ⟨v, hv, -, hvkey, -, hvbetween⟩ := closeBlocks_between hbetween' hinner' (Int.le_refl _)
  have hpeek : u.cursor.peek = none := by
    rw [Cursor.peek, hrest]
    rfl
  refine ⟨v, ?_, ?_⟩
  · rw [run_end harrive hpeek, hv, dropKey, hvkey, hkey]
  · rw [hvbetween.wrote.mergeSort, ← hdone, List.length_append, List.length_singleton,
      List.replicate_succ', List.append_assoc]

/-! Blanks and line ends in front of a token -/

theorem toNextToken_pad {fuel j : Nat} (h : s.cursor.rest = pad j ++ text) (htext : Opens text) :
    toNextToken (fuel + 1) s = { s with cursor := s.cursor.skip j } := by
  have hmark : s.cursor.peek ≠ some '\ufeff' := by
    cases j with
    | zero =>
        intro hpeek
        rw [Cursor.peek, h] at hpeek
        exact (htext _ hpeek).2.2.2 rfl
    | succ j =>
        rw [pad_succ] at h
        rw [Cursor.peek_of_rest h]
        decide
  have hskip : (s.cursor.skip j).rest = text := by
    rw [Cursor.skip_rest, h, List.drop_left' (length_pad _)]
  have hcomment : (s.cursor.skip j).peek ≠ some '#' := by
    intro hpeek
    rw [Cursor.peek, hskip] at hpeek
    exact (htext _ hpeek).2.2.1 rfl
  have hbreak : (s.cursor.skip j).isAt isBreak = false := by
    cases htext' : text with
    | nil => exact Cursor.isAt_of_nil (hskip.trans htext') _
    | cons x rest =>
        rw [Cursor.isAt_of_rest (hskip.trans htext')]
        exact (htext x (by rw [htext']; rfl)).2.1
  have hwhile (tabs : Bool) :
      s.cursor.skipWhile (fun x => x = ' ' || (tabs && x = '\t')) = s.cursor.skip j := by
    rw [Cursor.skipWhile_of_rest h, length_pad]
    · exact List.all_eq_true.mpr fun x hx => by simp [eq_space_of_mem_pad hx]
    · cases htext' : text with
      | nil => rfl
      | cons x rest =>
          have hblank := (htext x (by rw [htext']; rfl)).1
          simp only [isBlank, Bool.or_eq_false_iff, decide_eq_false_iff_not] at hblank
          simp [hblank]
  rw [toNextToken]
  simp only [hmark, decide_false, Bool.and_false, Bool.false_eq_true, if_false, hwhile,
    Cursor.skipComment, hcomment, hbreak]

theorem toNextToken_line {fuel j : Nat} (h : s.cursor.rest = '\n' :: (pad j ++ text))
    (htext : Opens text) (houtside : s.outerKeys = []) :
    toNextToken (fuel + 2) s =
      { s with cursor := s.cursor.past ('\n' :: pad j), keyAllowed := true } := by
  have hline := Cursor.skipLine_of_rest h (by decide)
  have hwhile (tabs : Bool) :
      s.cursor.skipWhile (fun x => x = ' ' || (tabs && x = '\t')) = s.cursor := by
    simp [Cursor.skipWhile, h, Cursor.skip_zero]
  rw [toNextToken]
  simp only [Cursor.peek_of_rest h, Option.some.injEq, show '\n' ≠ '\ufeff' by decide, decide_false,
    Bool.and_false, Bool.false_eq_true, if_false, hwhile, Cursor.skipComment,
    show '\n' ≠ '#' by decide, Cursor.isAt_of_rest h, show isBreak '\n' = true by decide, if_true,
    inFlow_of_outside houtside, Bool.not_false, Bool.or_true]
  rw [toNextToken_pad (by rw [hline]) htext, Cursor.past_cons_break (by decide), Cursor.past_pad]

/-- A possible key that is not one any more by the time the scanner is on a later line. -/
def KeyBefore (s : Scan) (line : Nat) : Prop := ∀ q ∈ s.key, q.required = false ∧ q.line < line

theorem dropStaleKeys_of_line (houtside : s.outerKeys = []) (hkey : s.KeyBefore s.cursor.line) :
    s.dropStaleKeys = some { s with key := none } := by
  rw [dropStaleKeys, houtside]
  cases hs : s.key with
  | none => rfl
  | some q =>
      obtain ⟨hrequired, hline⟩ := hkey q hs
      have hstale : isStale s.cursor q = true := by simp [isStale, hline]
      simp only [hstale, if_true, hrequired, Bool.false_eq_true, if_false, List.mapM_nil]
      rfl

theorem dropStaleKeys_of_fresh (houtside : s.outerKeys = [])
    (hkey : ∀ q ∈ s.key, isStale s.cursor q = false) : s.dropStaleKeys = some s := by
  have hsame : { s with key := s.key, outerKeys := [] } = s := by rw [← houtside]
  rw [dropStaleKeys, houtside]
  cases hs : s.key with
  | none =>
      rw [hs] at hsame
      exact congrArg some hsame
  | some q =>
      rw [hs] at hsame
      simp only [hkey q hs, Bool.false_eq_true, if_false, List.mapM_nil]
      exact congrArg some hsame

theorem before_pad {j : Nat} (h : s.cursor.rest = pad j ++ text) (htext : Opens text)
    (hk : s.cursor.column + j = k) (hkey : s.KeyBefore s.cursor.line)
    (hallowed : s.keyAllowed = allowed) (hbetween : s.Between columns done) :
    s.Before text k allowed columns done := by
  refine ⟨{ s with cursor := s.cursor.skip j, key := none }, [], done, ?_, ?_, hk, ?_, rfl,
    hallowed, ⟨hbetween.outside, hbetween.columns, hbetween.wrote⟩, by simp, by simp⟩
  · rw [arrive, toNextToken_pad h htext]
    exact dropStaleKeys_of_line hbetween.outside hkey
  · change s.cursor.rest.drop j = text
    rw [h, List.drop_left' (length_pad _)]
  · rw [h]
    simp

theorem before_line (h : s.cursor.rest = '\n' :: (pad k ++ text)) (htext : Opens text)
    (hkey : s.KeyBefore (s.cursor.line + 1)) (hbetween : s.Between columns done) :
    s.Before text k true columns done := by
  obtain ⟨hline, hcolumn⟩ := Cursor.past_line (show s.cursor.rest = [] ++ _ from h)
    List.not_mem_nil (.inl rfl) k
  have hlength : s.cursor.rest.length = (k + text.length) + 1 := by simp [h]
  refine ⟨{ s with cursor := s.cursor.past ('\n' :: pad k), key := none, keyAllowed := true }, [],
    done, ?_, ?_, hcolumn, ?_, rfl, rfl,
    ⟨hbetween.outside, hbetween.columns, hbetween.wrote⟩, by simp, by simp⟩
  · rw [arrive, hlength, toNextToken_line h htext hbetween.outside]
    refine dropStaleKeys_of_line hbetween.outside fun q hq => ?_
    obtain ⟨hrequired, hbefore⟩ := hkey q hq
    exact ⟨hrequired, Nat.lt_of_lt_of_le hbefore hline⟩
  · have hreturn : '\r' ∉ ['\n'] ++ pad k := not_mem_breaks_pad (by simp [IsLineEnd]) k
    exact Cursor.rest_past (show s.cursor.rest = ['\n'] ++ pad k ++ text from h) hreturn
  · omega

end Arrive

end Scan

end ResourceApi.Yaml.Token
