import ResourceApi.Proofs.Yaml.Cursor

/-!
Text without quotes is read as what it is. It consists of words with blanks between them; no word
begins like a comment or ends like a key, so each of them is read to its end, and the last one is
followed by a colon or by a line that is indented less.
-/

namespace ResourceApi.Yaml

/-- Characters between blanks that are taken neither for a comment nor for a key. -/
structure IsWord (w : List Char) : Prop where
  ne_nil : w ≠ []
  solid : ∀ x ∈ w, isBlank x = false ∧ isBreak x = false
  head : w.head? ≠ some '#'
  last : w.getLast? ≠ some ':'

/-- Words with blanks between them. -/
inductive Words : List Char → Prop where
  | last {w : List Char} (h : IsWord w) : Words w
  | more {w u : List Char} (h : IsWord w) (n : Nat) (hu : Words u) :
      Words (w ++ pad (n + 1) ++ u)

/-- What may stand behind a word. -/
def EndsWord (rest : List Char) : Prop :=
  ∀ x ∈ rest.head?, isBlank x = true ∨ isBreak x = true ∨ x = ':' ∧ endsWord rest.tail.head? = true

/-- What may stand behind unquoted text: what of it is passed over, and whether that is the end of a
line. -/
inductive EndsPlain (limit : Nat) : List Char → List Char → Bool → Prop where
  | colon {rest : List Char} (h : endsWord rest.head? = true) :
      EndsPlain limit (':' :: rest) [] false
  | line {rest : List Char} {k : Nat} (hk : k < limit) (h : EndsGap rest) :
      EndsPlain limit ('\n' :: pad k ++ rest) ('\n' :: pad k) true

section Reading

variable {limit fuel : Nat} {c : Cursor} {w u rest passed done : List Char} {gap : Gap}
  {broken : Bool}

theorem EndsPlain.endsWord (h : EndsPlain limit rest passed broken) : EndsWord rest := by
  intro x hx
  cases h with
  | colon h =>
      obtain rfl := Option.some.inj hx
      exact .inr (.inr ⟨rfl, h⟩)
  | line hk h =>
      obtain rfl := Option.some.inj hx
      exact .inr (.inl (by decide))

theorem EndsPlain.head? (h : EndsPlain limit rest passed broken) :
    rest.head? = some ':' ∨ rest.head? = some '\n' := by
  cases h with
  | colon h => exact .inl rfl
  | line hk h => exact .inr rfl

theorem plainWord_end (h : EndsWord c.rest) : plainWord false fuel done c = some (done, c) := by
  cases fuel with
  | zero => rfl
  | succ fuel =>
      rw [plainWord]
      cases hrest : c.rest with
      | nil =>
          rw [Cursor.peek, hrest]
          rfl
      | cons x rest =>
          rw [hrest] at h
          rw [Cursor.peek_of_rest hrest]
          rcases h x rfl with hx | hx | ⟨rfl, hx⟩
          · simp [hx]
          · simp [hx]
          · have hnext : endsWord (c.peekAt 1) = true := by
              rw [Cursor.peekAt, hrest, ← hx]
              cases rest <;> rfl
            simp [hnext]

theorem plainWord_solid (hw : ∀ x ∈ w, isBlank x = false ∧ isBreak x = false)
    (hlast : w.getLast? ≠ some ':') (h : c.rest = w ++ rest) (hrest : EndsWord rest)
    (hfuel : w.length ≤ fuel) :
    plainWord false fuel done c = some (w.reverse ++ done, c.skip w.length) := by
  induction w generalizing fuel done c with
  | nil => exact plainWord_end (by rwa [h])
  | cons x w ih =>
      obtain ⟨hx, hrestw⟩ := List.forall_mem_cons.mp hw
      obtain ⟨fuel, rfl⟩ := Nat.exists_eq_add_of_le' (Nat.lt_of_lt_of_le (Nat.succ_pos _) hfuel)
      have hcolon : ¬ (x = ':' ∧ endsWord (c.peekAt 1) = true) := by
        rintro ⟨rfl, hends⟩
        rw [Cursor.peekAt, h] at hends
        cases w with
        | nil => exact hlast rfl
        | cons y w =>
            have hy := endsWord_eq_false (hrestw y List.mem_cons_self)
            have hends : endsWord (some y) = true := hends
            rw [hy] at hends
            cases hends
      have hlast' : w.getLast? ≠ some ':' := by
        cases w with
        | nil => simp
        | cons y w => rwa [List.getLast?_cons_cons] at hlast
      have hskip : (c.skip 1).rest = w ++ rest := by rw [Cursor.skip_rest, h]; rfl
      rw [plainWord, Cursor.peek_of_rest h]
      simp only [hx.1, hx.2, Bool.or_self, Bool.false_and, Bool.false_eq_true, if_false]
      rw [if_neg (by simpa using hcolon), ih hrestw hlast' hskip (by simpa using hfuel)]
      simp [Cursor.skip_skip, Nat.add_comm]

/-- The reader passes over one word. -/
theorem plainText_word (hw : IsWord w) (h : c.rest = w ++ rest) (hrest : EndsWord rest)
    (hbound : c.isAtBound = false) :
    plainText false limit (fuel + 1) done gap c =
      if (c.skip w.length).isAt (fun x => isBlank x || isBreak x) then
        match Gap.scan limit rest.length .none (c.skip w.length) with
        | none => none
        | some (next, d) =>
          if d.column < limit then some (w.reverse ++ (gap.text.reverse ++ done), next.broken, d)
          else plainText false limit fuel (w.reverse ++ (gap.text.reverse ++ done)) next d
      else some (w.reverse ++ (gap.text.reverse ++ done), false, c.skip w.length) := by
  have hpeek : c.peek ≠ some '#' := by
    obtain ⟨x, tail, rfl⟩ := List.exists_cons_of_ne_nil hw.ne_nil
    rw [Cursor.peek_of_rest h]
    exact hw.head
  have hread : plainWord false c.rest.length [] c = some (w.reverse, c.skip w.length) := by
    rw [plainWord_solid hw.solid hw.last h hrest (by simp [h]), List.append_nil]
  have hword : w.reverse.isEmpty = false := by simpa using hw.ne_nil
  have hbehind : c.rest.length - w.length = rest.length := by simp [h]
  have hstart : ¬(c.isAtBound || decide (c.peek = some '#')) = true := by simp [hbound, hpeek]
  rw [plainText, if_neg hstart, hread]
  cases hat : (c.skip w.length).isAt fun x => isBlank x || isBreak x with
  | false => simp [hat, hword, Gap.none]
  | true =>
      cases hscan : Gap.scan limit rest.length .none (c.skip w.length) with
      | none => simp [hat, hword, hbehind, hscan]
      | some next => simp [hat, hword, hbehind, hscan]

theorem IsWord.flat (hw : IsWord w) : ∀ x ∈ w, isBreak x = false := fun x hx => (hw.solid x hx).2

theorem Words.exists_cons (hu : Words u) :
    ∃ x t, u = x :: t ∧ isBlank x = false ∧ isBreak x = false := by
  cases hu with
  | last hw =>
      obtain ⟨x, t, rfl⟩ := List.exists_cons_of_ne_nil hw.ne_nil
      exact ⟨x, t, rfl, hw.solid x List.mem_cons_self⟩
  | more hw n hu =>
      obtain ⟨x, t, rfl⟩ := List.exists_cons_of_ne_nil hw.ne_nil
      exact ⟨x, _, rfl, hw.solid x List.mem_cons_self⟩

theorem Words.endsGap (hu : Words u) (rest : List Char) : EndsGap (u ++ rest) := by
  obtain ⟨x, t, rfl, hblank, hbreak⟩ := hu.exists_cons
  exact endsGap_cons hblank hbreak _

/-- Words are read to their end and joined by the blanks between them. -/
theorem plainText_words (hu : Words u) (h : c.rest = u ++ rest)
    (hrest : EndsPlain limit rest passed broken) (hbound : c.isAtBound = false)
    (hlimit : limit ≤ c.column + 1) (hfuel : u.length < fuel) :
    plainText false limit fuel done gap c =
      some (u.reverse ++ (gap.text.reverse ++ done), broken, c.past (u ++ passed)) := by
  -- The gap in front of a word is part of the state: it is put in only once the word is there.
  induction hu generalizing fuel done gap c with
  | @last w hw =>
      obtain ⟨fuel, rfl⟩ := Nat.exists_eq_add_of_le' (Nat.lt_of_le_of_lt (Nat.zero_le _) hfuel)
      have hskip : (c.skip w.length).rest = rest := by simp [h]
      rw [plainText_word hw h hrest.endsWord hbound, Cursor.past_append,
        Cursor.past_of_flat hw.flat]
      cases hrest with
      | colon h =>
          rw [Cursor.isAt_of_rest hskip, if_neg (by decide)]
          rfl
      | @line tail k hk htail =>
          have hscan : Gap.scan limit ('\n' :: pad k ++ tail).length .none (c.skip w.length) =
              some (⟨[], true, ['\n'], []⟩, (c.skip w.length).past ('\n' :: pad k)) :=
            Gap.scan_lines hskip (.inl rfl) (by simp) htail rfl (by simp)
          have hline : (c.skip w.length).rest = [] ++ '\n' :: (pad k ++ tail) := hskip
          have hcolumn : ((c.skip w.length).past ('\n' :: pad k)).column = k :=
            (Cursor.past_line hline (by simp) (.inl rfl) k).2
          rw [Cursor.isAt_of_rest hskip, if_pos (by decide), hscan]
          simp only
          rw [if_pos (by rwa [hcolumn])]
  | @more w u hw n hu ih =>
      obtain ⟨fuel, rfl⟩ := Nat.exists_eq_add_of_le' (Nat.lt_of_le_of_lt (Nat.zero_le _) hfuel)
      rw [List.append_assoc, List.append_assoc] at h
      have hends : EndsWord (pad (n + 1) ++ (u ++ rest)) := by
        intro x hx
        obtain rfl := Option.some.inj hx
        exact .inl (by decide)
      have hskip : (c.skip w.length).rest = pad (n + 1) ++ (u ++ rest) := by simp [h]
      have hscan : Gap.scan limit (pad (n + 1) ++ (u ++ rest)).length .none (c.skip w.length) =
          some (⟨pad (n + 1), false, [], []⟩, (c.skip w.length).skip (n + 1)) :=
        Gap.scan_blanks hskip (hu.endsGap rest) rfl (by simp)
      have hnext : ((c.skip w.length).skip (n + 1)).rest = u ++ rest := by
        rw [Cursor.skip_rest, hskip, List.drop_left' (length_pad _)]
      have hbound' : ((c.skip w.length).skip (n + 1)).isAtBound = false :=
        Cursor.isAtBound_of_column (Nat.lt_add_left _ (Nat.succ_pos n))
      have hlength : (w ++ pad (n + 1) ++ u).length = w.length + (n + 1) + u.length := by
        simp [Nat.add_assoc]
      rw [plainText_word hw h hends hbound, Cursor.isAt_of_rest hskip, if_pos (by decide), hscan]
      simp only
      rw [if_neg (by simp; omega), ih hnext hbound' (by simp; omega) (by omega)]
      simp [Cursor.past_append, Cursor.past_of_flat hw.flat, Cursor.past_pad, Gap.text]

end Reading

/-! ### Text that is written without quotes -/

section Writing

variable {s t : List Char} {x : Char}

theorem holdsMarkup_of_suffix (h : t <:+ s) (hs : holdsMarkup s = false) :
    holdsMarkup t = false := by
  obtain ⟨p, rfl⟩ := h
  induction p with
  | nil => exact hs
  | cons x p ih =>
      refine ih ?_
      rw [List.cons_append] at hs
      cases hrest : p ++ t with
      | nil => rfl
      | cons y rest =>
          rw [hrest, holdsMarkup] at hs
          simp only [Bool.or_eq_false_iff] at hs
          exact hs.2

/-- A colon that ends a word is markup. -/
theorem endsWord_eq_false_of_holdsMarkup (h : holdsMarkup (x :: ':' :: t) = false) :
    endsWord t.head? = false := by
  rw [holdsMarkup] at h
  simp only [Bool.or_eq_false_iff, decide_true, Bool.true_and] at h
  exact h.1.1

theorem isWord_of_holdsMarkup {w : List Char} (hw : w ≠ [])
    (hsolid : ∀ x ∈ w, isBlank x = false ∧ isBreak x = false) (ht : endsWord t.head? = true)
    (h : holdsMarkup (' ' :: (w ++ t)) = false) : IsWord w where
  ne_nil := hw
  solid := hsolid
  head hhead := by
    obtain ⟨w, rfl⟩ := List.head?_eq_some_iff.mp hhead
    simp [holdsMarkup, endsWord, isBlank] at h
  last hlast := by
    obtain ⟨p, rfl⟩ := List.getLast?_eq_some_iff.mp hlast
    obtain ⟨q, x, hq⟩ : ∃ q x, ' ' :: p = q ++ [x] :=
      ⟨_, _, (List.dropLast_concat_getLast (List.cons_ne_nil _ _)).symm⟩
    have hsuffix : x :: ':' :: t <:+ ' ' :: (p ++ [':'] ++ t) := by
      refine ⟨q, ?_⟩
      rw [List.append_assoc, ← List.cons_append, hq]
      simp
    rw [endsWord_eq_false_of_holdsMarkup (holdsMarkup_of_suffix hsuffix h)] at ht
    cases ht

theorem exists_pad (s : List Char) : ∃ n t, s = pad n ++ t ∧ t.head? ≠ some ' ' := by
  induction s with
  | nil => exact ⟨0, [], rfl, by simp⟩
  | cons x s ih =>
      by_cases hx : x = ' '
      · obtain ⟨n, t, hs, ht⟩ := ih
        exact ⟨n + 1, t, by rw [hx, hs, pad_succ]; rfl, ht⟩
      · exact ⟨0, x :: s, rfl, by simpa using hx⟩

/-- Text up to a blank, and the blanks behind it. -/
theorem exists_word (s : List Char) :
    ∃ w n t, s = w ++ pad n ++ t ∧ (∀ x ∈ w, x ≠ ' ') ∧ t.head? ≠ some ' ' ∧ (n = 0 → t = []) := by
  induction s with
  | nil => exact ⟨[], 0, [], rfl, by simp, by simp, fun _ => rfl⟩
  | cons x s ih =>
      by_cases hx : x = ' '
      · obtain ⟨n, t, hs, ht⟩ := exists_pad s
        exact ⟨[], n + 1, t, by rw [hx, hs, pad_succ]; rfl, by simp, ht, by simp⟩
      · obtain ⟨w, n, t, hs, hw, ht⟩ := ih
        exact ⟨x :: w, n, t, by rw [hs]; rfl, List.forall_mem_cons.mpr ⟨hx, hw⟩, ht⟩

/-- Without line ends, tabs and outer blanks, text that holds no markup is made of words. -/
theorem words_of_holdsMarkup (hs : s ≠ []) (hhead : s.head? ≠ some ' ')
    (hlast : s.getLast? ≠ some ' ') (hsolid : ∀ x ∈ s, x ≠ '\t' ∧ isBreak x = false)
    (h : holdsMarkup (' ' :: s) = false) : Words s := by
  induction hn : s.length using Nat.strongRecOn generalizing s with
  | _ length ih =>
  obtain ⟨w, n, t, rfl, hw, ht, hnt⟩ := exists_word s
  have hne : w ≠ [] := by
    rintro rfl
    cases n with
    | zero => exact hs (by rw [hnt rfl]; rfl)
    | succ n => exact hhead (by simp [pad_succ])
  have hwsolid (x : Char) (hx : x ∈ w) : isBlank x = false ∧ isBreak x = false := by
    obtain ⟨htab, hbreak⟩ := hsolid x (by simp [hx])
    exact ⟨by simp [isBlank, hw x hx, htab], hbreak⟩
  have hends : endsWord (pad n ++ t).head? = true := by
    cases n with
    | zero => rw [hnt rfl]; rfl
    | succ n => rfl
  rw [List.append_assoc] at h
  have hword := isWord_of_holdsMarkup hne hwsolid hends h
  cases n with
  | zero =>
      rw [hnt rfl, pad, List.replicate_zero, List.append_nil, List.append_nil]
      exact .last hword
  | succ n =>
      have htne : t ≠ [] := by
        rintro rfl
        refine hlast ?_
        simp [pad, List.replicate_succ']
      refine .more hword n (ih t.length ?_ htne ht ?_ (fun x hx => hsolid x (by simp [hx])) ?_ rfl)
      · rw [← hn]
        simp
        omega
      · rwa [List.getLast?_append, List.getLast?_eq_some_getLast htne, Option.some_or,
          ← List.getLast?_eq_some_getLast htne] at hlast
      · refine holdsMarkup_of_suffix ⟨' ' :: (w ++ pad n), ?_⟩ h
        simp [pad, List.replicate_succ']

/-- Text that may be written without quotes is made of words. -/
theorem words_of_plainAllowed (hs : s ≠ []) (h : plainAllowed s = true) : Words s := by
  simp only [plainAllowed, Bool.not_eq_true', Bool.or_eq_false_iff] at h
  obtain ⟨⟨⟨⟨houter, hprint⟩, hbreak⟩, hbegins⟩, hholds⟩ := h
  simp only [hasOuterBlank, Bool.or_eq_false_iff] at houter
  have hspace : ((some ' ').map fun c => isSpace c || isBreak c).getD false = true := by decide
  refine words_of_holdsMarkup hs (fun h => ?_) (fun h => ?_) (fun x hx => ⟨?_, ?_⟩) ?_
  · rw [h, hspace] at houter
    cases houter.1
  · rw [h, hspace] at houter
    cases houter.2
  · rintro rfl
    have hall : s.all isPrintable = true := by
      simpa only [hasUnprintable, Bool.not_eq_false'] using hprint
    exact absurd (List.all_eq_true.mp hall _ hx) (by decide)
  · exact Bool.eq_false_iff.mpr fun h => by simpa using List.any_eq_false.mp hbreak x hx h
  · obtain ⟨x, s, rfl⟩ := List.exists_cons_of_ne_nil hs
    rw [holdsMarkup, hholds, Bool.or_false]
    simp only [beginsMarkup, Bool.or_eq_false_iff] at hbegins
    obtain ⟨⟨⟨hindicator, hmark⟩, -⟩, -⟩ := hbegins
    have hcolon : (decide (x = ':') && endsWord s.head?) = false := by
      refine Bool.eq_false_iff.mpr fun hends => ?_
      simp_all
    have hcomment : x ≠ '#' := by
      rintro rfl
      exact absurd hindicator (by decide)
    simp [hcolon, hcomment]

end Writing

end ResourceApi.Yaml
