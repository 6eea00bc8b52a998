import ResourceApi.Proofs.Yaml.Escapes

/-!
Text between quotes is read as what it is. What stands between the quotes is described by how it
spells a string: characters one by one, runs of blanks, and line ends with the indentation of the
next line. Both quoted forms of a string spell it.
-/

namespace ResourceApi.Yaml

/-- Between such quotes the text stands for the character. -/
inductive SpellsChar (quote : Char) : List Char → Char → Prop where
  | solid {x : Char} (hblank : isBlank x = false) (hbreak : isBreak x = false) (hx : x ≠ quote)
      (hslash : quote = '"' → x ≠ '\\') : SpellsChar quote [x] x
  | doubled (h : quote = '\'') : SpellsChar quote [quote, quote] quote
  | escaped {e : List Char} {x : Char} (h : quote = '"') (he : IsEscape e x) :
      SpellsChar quote ('\\' :: e) x

/-- Between such quotes the text stands for the string. -/
inductive Spells (quote : Char) : List Char → List Char → Prop where
  | nil : Spells quote [] []
  | char {w t s : List Char} {x : Char} (hw : SpellsChar quote w x) (h : Spells quote t s) :
      Spells quote (w ++ t) (x :: s)
  | blanks {t s : List Char} (n : Nat) (ht : EndsGap t) (h : Spells quote t s) :
      Spells quote (pad (n + 1) ++ t) (pad (n + 1) ++ s)
  | lines {t s more : List Char} {b : Char} (n : Nat) (hb : IsLineEnd b) (hfeed : b ≠ '\n')
      (hmore : ∀ b ∈ more, IsLineEnd b) (ht : EndsGap t) (h : Spells quote t s) :
      Spells quote (b :: more ++ pad (n + 1) ++ t) (b :: more ++ s)

/-! ### Reading -/

/-- How the reader goes on behind a word. -/
def afterWord (quote : Char) (fuel : Nat) (word : List Char × Bool × Cursor) :
    Option (List Char × Cursor) :=
  match word.2.2.peek with
  | none => none
  | some x =>
    if x = quote then some (word.1, word.2.2.skip 1)
    else
      match Gap.scan 0 word.2.2.rest.length { Gap.none with broken := word.2.1 } word.2.2 with
      | none => none
      | some (gap, c) => quotedText quote fuel (gap.text.reverse ++ word.1) c

section Reading

variable {quote x : Char} {w t s tail done : List Char} {c : Cursor} {fuel : Nat}

theorem quotedText_succ (hbound : c.isAtBound = false) :
    quotedText quote (fuel + 1) done c =
      (quotedWord quote c.rest.length done c).bind (afterWord quote fuel) := by
  rw [quotedText, hbound, if_neg (by decide)]
  cases quotedWord quote c.rest.length done c <;> rfl

theorem SpellsChar.flat (h : SpellsChar quote w x) (hquote : isBreak quote = false) :
    ∀ y ∈ w, isBreak y = false := by
  cases h with
  | solid hblank hbreak hx hslash => simpa using hbreak
  | doubled h => simpa using hquote
  | escaped h he => exact List.forall_mem_cons.mpr ⟨by decide, he.flat⟩

theorem SpellsChar.ne_nil (h : SpellsChar quote w x) : w ≠ [] := by
  cases h <;> exact List.cons_ne_nil _ _

/-- A word goes on with each character that is spelled. -/
theorem quotedWord_char (h : SpellsChar quote w x) (hquote : isBlank quote = false)
    (hbreak : isBreak quote = false) (hrest : c.rest = w ++ t) :
    quotedWord quote (fuel + 1) done c = quotedWord quote fuel (x :: done) (c.skip w.length) := by
  cases h with
  | solid hblank hbreak hx hslash =>
      have hplain : ¬ (quote = '"' ∧ x = '\\') := fun h => hslash h.1 h.2
      rw [quotedWord, Cursor.peek_of_rest hrest]
      simp only [hblank, hbreak, Bool.or_self, Bool.false_eq_true, if_false, hx, hplain]
      rfl
  | doubled h =>
      have hnext : c.peekAt 1 = some '\'' := by
        rw [Cursor.peekAt, hrest, h]
        rfl
      rw [quotedWord, Cursor.peek_of_rest hrest]
      simp only [hquote, hbreak, Bool.or_self, Bool.false_eq_true, if_false, if_true]
      rw [if_pos ⟨h, hnext⟩]
      rfl
  | @escaped e x h he =>
      have hskip : (c.skip 1).rest = e ++ t := by
        rw [Cursor.skip_rest, hrest]
        rfl
      have hat : (c.skip 1).isAt isBreak = false := by
        obtain ⟨y, e, rfl⟩ := List.exists_cons_of_ne_nil he.ne_nil
        rw [Cursor.isAt_of_rest hskip]
        exact he.flat y List.mem_cons_self
      rw [quotedWord, Cursor.peek_of_rest hrest, he.read hskip, Cursor.skip_skip]
      simp [h, hat, isBlank, isBreak, Nat.add_comm]

/-- A word ends in front of a blank, a line end or the closing quote. -/
theorem quotedWord_end (hrest : c.rest = x :: t)
    (hx : isBlank x = true ∨ isBreak x = true ∨ x = quote ∧ (quote = '\'' → t.head? ≠ some '\'')) :
    quotedWord quote fuel done c = some (done, false, c) := by
  cases fuel with
  | zero => rfl
  | succ fuel =>
      rw [quotedWord, Cursor.peek_of_rest hrest]
      rcases hx with hx | hx | ⟨rfl, hx⟩
      · simp [hx]
      · simp [hx]
      · have hnext : ¬ (x = '\'' ∧ c.peekAt 1 = some '\'') := by
          rintro ⟨hquote, hpeek⟩
          refine hx hquote ?_
          rw [← hpeek, Cursor.peekAt, hrest]
          cases t <;> rfl
        simp [hnext]

theorem EndsGap.append (h : EndsGap t) (hquote : isBlank quote = false)
    (hbreak : isBreak quote = false) (tail : List Char) : EndsGap (t ++ quote :: tail) := by
  cases t with
  | nil => exact endsGap_cons hquote hbreak tail
  | cons z t => exact h

/-- Text between quotes is read as the string that it spells. -/
theorem afterWord_spells (h : Spells quote t s) (hquote : isBlank quote = false)
    (hbreak : isBreak quote = false) (hrest : c.rest = t ++ quote :: tail)
    (htail : quote = '\'' → tail.head? ≠ some '\'') (wordFuel : Nat) (hword : t.length ≤ wordFuel)
    (hfuel : t.length ≤ fuel) :
    (quotedWord quote wordFuel done c).bind (afterWord quote fuel) =
      some (s.reverse ++ done, c.past (t ++ [quote])) := by
  -- Characters go on with the word that is being read; blanks and line ends finish it, so that the
  -- induction is over the word with all that the reader does behind it.
  induction h generalizing done c fuel wordFuel with
  | nil =>
      rw [quotedWord_end hrest (.inr (.inr ⟨rfl, htail⟩)), Option.bind_some, afterWord]
      simp only [Cursor.peek_of_rest hrest, if_true]
      simp [Cursor.past_of_flat, hbreak]
  | @char w t s x hw h ih =>
      have hpos : 0 < w.length := List.length_pos_iff.mpr hw.ne_nil
      rw [List.length_append] at hword hfuel
      obtain ⟨wordFuel, rfl⟩ := Nat.exists_eq_add_of_le' (show 1 ≤ wordFuel by omega)
      rw [List.append_assoc] at hrest
      have hskip : (c.skip w.length).rest = t ++ quote :: tail := by simp [hrest]
      rw [quotedWord_char hw hquote hbreak hrest, ih hskip wordFuel (by omega) (by omega)]
      simp [Cursor.past_append, Cursor.past_of_flat (hw.flat hbreak)]
  | @blanks t s n ht h ih =>
      rw [List.append_assoc] at hrest
      have hends := ht.append hquote hbreak tail
      have hspace : ' ' ≠ quote := by
        rintro rfl
        cases hquote
      have hskip : (c.skip (n + 1)).rest = t ++ quote :: tail := by
        rw [Cursor.skip_rest, hrest, List.drop_left' (length_pad _)]
      have hscan : Gap.scan 0 c.rest.length .none c =
          some (⟨pad (n + 1), false, [], []⟩, c.skip (n + 1)) :=
        Gap.scan_blanks hrest hends rfl (by simp [hrest])
      have hbound : (c.skip (n + 1)).isAtBound = false :=
        Cursor.isAtBound_of_column (Nat.lt_add_left _ (Nat.succ_pos n))
      rw [List.length_append, length_pad] at hword hfuel
      obtain ⟨fuel, rfl⟩ := Nat.exists_eq_add_of_le' (show 1 ≤ fuel by omega)
      rw [quotedWord_end hrest (.inl (by decide)), Option.bind_some, afterWord]
      simp only [Cursor.peek_of_rest hrest, hspace, if_false]
      rw [show ({ Gap.none with broken := false } : Gap) = Gap.none from rfl, hscan]
      simp only
      rw [quotedText_succ hbound, ih hskip _ (by rw [hskip]; simp) (by omega)]
      simp [Cursor.past_append, Cursor.past_pad, Gap.text]
  | @lines t s more b n hb hfeed hmore ht h ih =>
      rw [List.append_assoc] at hrest
      have hends := ht.append hquote hbreak tail
      have hquote' : b ≠ quote := by
        rintro rfl
        rw [hb.isBreak] at hbreak
        cases hbreak
      have hreturn : '\r' ∉ b :: more ++ pad (n + 1) :=
        not_mem_breaks_pad (List.forall_mem_cons.mpr ⟨hb, hmore⟩) _
      have hpast : (c.past (b :: more ++ pad (n + 1))).rest = t ++ quote :: tail :=
        Cursor.rest_past hrest hreturn
      have hscan : Gap.scan 0 c.rest.length .none c =
          some (⟨[], true, [b], more⟩, c.past (b :: more ++ pad (n + 1))) :=
        Gap.scan_lines hrest hb hmore hends rfl (by simp [hrest])
      have hbound : (c.past (b :: more ++ pad (n + 1))).isAtBound = false := by
        refine Cursor.isAtBound_of_column ?_
        rw [Cursor.past_append, Cursor.past_pad, Cursor.skip_column]
        omega
      have hlength : (b :: more ++ pad (n + 1)).length = more.length + (n + 1) + 1 := by simp
      rw [List.length_append, hlength] at hword hfuel
      obtain ⟨fuel, rfl⟩ := Nat.exists_eq_add_of_le' (show 1 ≤ fuel by omega)
      rw [quotedWord_end hrest (.inr (.inl hb.isBreak)), Option.bind_some, afterWord]
      simp only [Cursor.peek_of_rest hrest, hquote', if_false]
      rw [show ({ Gap.none with broken := false } : Gap) = Gap.none from rfl, hscan]
      simp only
      rw [quotedText_succ hbound, ih hpast _ (by rw [hpast]; simp) (by omega),
        ← Cursor.past_append, ← List.append_assoc]
      simp [Gap.text, hfeed]

theorem quotedText_spells (h : Spells quote t s) (hquote : isBlank quote = false)
    (hbreak : isBreak quote = false) (hrest : c.rest = t ++ quote :: tail)
    (htail : quote = '\'' → tail.head? ≠ some '\'') (hcolumn : 0 < c.column)
    (hfuel : t.length < fuel) :
    quotedText quote fuel done c = some (s.reverse ++ done, c.past (t ++ [quote])) := by
  obtain ⟨fuel, rfl⟩ := Nat.exists_eq_add_of_le' (Nat.succ_le_of_lt (Nat.zero_lt_of_lt hfuel))
  rw [quotedText_succ (Cursor.isAtBound_of_column hcolumn)]
  exact afterWord_spells h hquote hbreak hrest htail _ (by rw [hrest]; simp) (by omega)

end Reading

/-! ### Writing -/

section Writing

variable {quote x : Char} {w s : List Char}

theorem SpellsChar.endsGap (h : SpellsChar quote w x) (hquote : isBlank quote = false)
    (hbreak : isBreak quote = false) (t : List Char) : EndsGap (w ++ t) := by
  cases h with
  | solid hblank hsolid hx hslash => exact endsGap_cons hblank hsolid _
  | doubled h => exact endsGap_cons hquote hbreak _
  | escaped h he => exact endsGap_cons (by decide) (by decide) _

theorem spells_pad (quote : Char) (n : Nat) : Spells quote (pad n) (pad n) := by
  cases n with
  | zero => exact .nil
  | succ n => simpa using Spells.blanks n (fun x hx => by cases hx) .nil

/-- Blanks in front of a character. -/
theorem SpellsChar.spells (h : SpellsChar quote w x) (hquote : isBlank quote = false)
    (hbreak : isBreak quote = false) {t : List Char} (ht : Spells quote t s) (n : Nat) :
    Spells quote (pad n ++ (w ++ t)) (pad n ++ x :: s) := by
  cases n with
  | zero =>
      change Spells quote (w ++ t) (x :: s)
      exact .char h ht
  | succ n => exact .blanks n (h.endsGap hquote hbreak t) (.char h ht)

/-- How a character is written between double quotes. -/
def doubleChar (c : Char) : List Char :=
  if !isPrintable c || isBreak c || c = '"' || c = '\\' then escaped c else [c]

theorem doubleQuoted_eq (s : List Char) :
    doubleQuoted s = '"' :: (s.flatMap doubleChar ++ ['"']) := rfl

theorem isBlank_of_isPrintable (h : isPrintable x = true) (hx : x ≠ ' ') : isBlank x = false := by
  have htab : x ≠ '\t' := by
    rintro rfl
    cases h
  simp [isBlank, hx, htab]

/-- Of the ends of lines, only those that are read as what they are count as printable. -/
theorem isLineEnd_of_isPrintable (h : isPrintable x = true) (hx : isBreak x = true) :
    IsLineEnd x := by
  simp only [isBreak, Bool.or_eq_true, decide_eq_true_eq] at hx
  rcases hx with (((rfl | rfl) | rfl) | rfl) | rfl
  · exact .inl rfl
  · cases h
  · cases h
  · exact .inr (.inl rfl)
  · exact .inr (.inr rfl)

theorem spellsChar_doubleChar (hx : x ≠ ' ') : SpellsChar '"' (doubleChar x) x := by
  rw [doubleChar]
  split
  · obtain ⟨e, he, hread⟩ := exists_escaped x
    rw [he]
    exact .escaped rfl hread
  · next h =>
      simp only [Bool.or_eq_true, Bool.not_eq_true', decide_eq_true_eq, not_or,
        Bool.not_eq_false, Bool.not_eq_true] at h
      obtain ⟨⟨⟨hprint, hbreak⟩, hquote⟩, hslash⟩ := h
      exact .solid (isBlank_of_isPrintable hprint hx) hbreak hquote fun _ => hslash

/-- Every string can be spelled between double quotes. -/
theorem spells_doubleChar (s : List Char) (n : Nat) :
    Spells '"' (pad n ++ s.flatMap doubleChar) (pad n ++ s) := by
  induction s generalizing n with
  | nil => simpa using spells_pad '"' n
  | cons x s ih =>
      rw [List.flatMap_cons]
      by_cases hx : x = ' '
      · have hchar : doubleChar ' ' = [' '] := by decide
        rw [hx, hchar, List.singleton_append, pad_append_space, pad_append_space]
        exact ih (n + 1)
      · exact (spellsChar_doubleChar hx).spells (by decide) (by decide) (ih 0) n

/-- How a character is written between single quotes. -/
def singleChar (c : Char) : List Char := if c = '\'' then ['\'', '\''] else [c]

/-- The text between single quotes: behind the last line end stands the indentation alone. -/
def singleBody (indent : Nat) (lineStart : Bool) (s : List Char) : List Char :=
  (indentLines indent lineStart s).flatMap singleChar ++
    match s.getLast? with
    | some c => if isBreak c then pad indent else []
    | none => if lineStart then pad indent else []

theorem singleQuoted_eq (indent : Nat) (s : List Char) :
    singleQuoted indent s = '\'' :: (singleBody indent false s ++ ['\'']) := by
  cases s <;> rfl

theorem singleBody_break (indent : Nat) (lineStart : Bool) (hx : isBreak x = true) :
    singleBody indent lineStart (x :: s) = x :: singleBody indent true s := by
  have hchar : singleChar x = [x] := by
    refine if_neg ?_
    rintro rfl
    cases hx
  rw [singleBody, indentLines, if_pos hx, List.flatMap_cons, hchar]
  cases s with
  | nil => simp [hx, singleBody, indentLines]
  | cons y s => rfl

theorem singleBody_solid (indent : Nat) (lineStart : Bool) (hx : isBreak x = false) :
    singleBody indent lineStart (x :: s) =
      (if lineStart then pad indent else []) ++ (singleChar x ++ singleBody indent false s) := by
  have hpad : (if lineStart then pad indent else []).flatMap singleChar =
      if lineStart then pad indent else [] := by
    cases lineStart with
    | false => rfl
    | true => simp [pad, List.flatMap_replicate, singleChar]
  rw [singleBody, indentLines, hx, if_neg (by decide), List.flatMap_append, List.flatMap_cons, hpad]
  cases s with
  | nil => simp [hx, singleBody, indentLines]
  | cons y s => simp [singleBody, List.getLast?_eq_some_getLast]

theorem spellsChar_singleChar (hblank : isBlank x = false) (hbreak : isBreak x = false) :
    SpellsChar '\'' (singleChar x) x := by
  rw [singleChar]
  split
  · next h =>
      rw [h]
      exact .doubled rfl
  · next h => exact .solid hblank hbreak h fun hquote => absurd hquote (by decide)

theorem singleAllowed_cons (h : singleAllowed (x :: s) = true) :
    isPrintable x = true ∧ (x = ' ' → (s.head?.map isBreak).getD false = false) ∧
      (isBreak x = true → s.head? ≠ some ' ') ∧ singleAllowed s = true := by
  simp only [singleAllowed, Bool.not_eq_true', Bool.or_eq_false_iff, hasUnprintable,
    Bool.not_eq_false', List.all_cons, Bool.and_eq_true] at h ⊢
  obtain ⟨⟨⟨hprint, hall⟩, hblank⟩, hbreak⟩ := h
  cases s with
  | nil => simp [hprint, adjacent]
  | cons y s =>
      simp only [adjacent, Bool.or_eq_false_iff, Bool.and_eq_false_imp] at hblank hbreak
      refine ⟨hprint, ?_, ?_, ⟨hall, hblank.2⟩, hbreak.2⟩
      · rintro rfl
        exact hblank.1 rfl
      · intro hx hy
        obtain rfl := Option.some.inj hy
        exact absurd (hbreak.1 hx) (by decide)

/-- The lines of the string are spelled between single quotes: behind blanks no line ends, and
behind the end of a line no blanks follow. -/
theorem spells_singleBody {s : List Char} (indent : Nat) (hs : singleAllowed s = true)
    (hfeed : '\n' ∉ s) :
    (∀ n, (0 < n → (s.head?.map isBreak).getD false = false) →
      Spells '\'' (pad n ++ singleBody (indent + 1) false s) (pad n ++ s)) ∧
    (∀ b more, IsLineEnd b → b ≠ '\n' → (∀ b ∈ more, IsLineEnd b) → s.head? ≠ some ' ' →
      Spells '\'' (b :: more ++ singleBody (indent + 1) true s) (b :: more ++ s)) := by
  -- Blanks and line ends are spelled in runs, so both kinds of runs in front of the string have to
  -- be carried along.
  induction s with
  | nil =>
      refine ⟨fun n _ => by simpa [singleBody, indentLines] using spells_pad '\'' n,
        fun b more hb hb' hmore _ => ?_⟩
      simpa [singleBody, indentLines] using
        Spells.lines indent hb hb' hmore (fun x hx => by cases hx) .nil
  | cons x s ih =>
      simp only [List.mem_cons, not_or] at hfeed
      obtain ⟨hprint, hspace, hbreak, htail⟩ := singleAllowed_cons hs
      obtain ⟨ihword, ihline⟩ := ih htail hfeed.2
      by_cases hx : isBreak x = true
      · have hend : IsLineEnd x := isLineEnd_of_isPrintable hprint hx
        refine ⟨fun n hn => ?_, fun b more hb hb' hmore _ => ?_⟩
        · obtain rfl : n = 0 := by
            by_contra hne
            have hflat : isBreak x = false := hn (Nat.pos_of_ne_zero hne)
            rw [hx] at hflat
            cases hflat
          rw [singleBody_break _ _ hx]
          exact ihline x [] hend (Ne.symm hfeed.1) (by simp) (hbreak hx)
        · have hends : ∀ y ∈ more ++ [x], IsLineEnd y := by
            simpa [or_imp, forall_and] using ⟨hmore, hend⟩
          have hline := ihline b (more ++ [x]) hb hb' hends (hbreak hx)
          rw [singleBody_break _ _ hx]
          simpa using hline
      · have hflat : isBreak x = false := Bool.eq_false_iff.mpr hx
        rw [singleBody_solid _ _ hflat, singleBody_solid _ _ hflat]
        by_cases hx' : x = ' '
        · refine ⟨fun n _ => ?_, fun b more _ _ _ hhead => absurd (by rw [hx']; rfl) hhead⟩
          have hchar : singleChar ' ' = [' '] := by decide
          have hword := ihword (n + 1) fun _ => hspace hx'
          rw [← pad_append_space, ← pad_append_space] at hword
          rw [hx', hchar]
          exact hword
        · have hblank := isBlank_of_isPrintable hprint hx'
          have hchar := spellsChar_singleChar hblank hflat
          have hrest : Spells '\'' (singleBody (indent + 1) false s) s := ihword 0 (by simp)
          refine ⟨fun n _ => hchar.spells (by decide) (by decide) hrest n,
            fun b more hb hb' hmore _ => ?_⟩
          have hends := hchar.endsGap (by decide) (by decide) (singleBody (indent + 1) false s)
          simpa using Spells.lines indent hb hb' hmore hends (.char hchar hrest)

end Writing

end ResourceApi.Yaml
