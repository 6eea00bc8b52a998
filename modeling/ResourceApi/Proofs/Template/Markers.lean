import ResourceApi.Proofs.Dictionaries
import ResourceApi.Proofs.Text.Edges
import ResourceApi.Proofs.Text.Splitting
import ResourceApi.Template.Render

/-!
Where markers occur in a template. A marker has no opening brace behind its first two, so no marker
starts inside another one, and a scan from left to right meets all of them.
-/

namespace ResourceApi.Template

/-- White space, segments of path characters, none of them empty, and white space. -/
structure Marker.Valid (m : Marker) : Prop where
  left : ∀ c ∈ m.left, Text.isWhiteSpace c = true
  nonempty : m.segments ≠ []
  segments : ∀ segment ∈ m.segments, segment ≠ [] ∧ ∀ c ∈ segment, isPathCharacter c = true
  right : ∀ c ∈ m.right, Text.isWhiteSpace c = true

/-- The marker stands in the template, between two parts of it. -/
structure Occurs (template before : List Char) (m : Marker) (after : List Char) : Prop where
  valid : m.Valid
  written : template = before ++ (m.written ++ after)

/-! ### Characters -/

theorem not_pathCharacter_of_whiteSpace {c : Char} (h : Text.isWhiteSpace c = true) :
    isPathCharacter c = false := by
  have hall : (Text.whiteSpace.all fun c => !isPathCharacter c) = true := by decide
  have hmem : c ∈ Text.whiteSpace := by simpa [Text.isWhiteSpace] using h
  simpa using List.all_eq_true.mp hall c hmem

theorem ne_of_whiteSpace {c d : Char} (h : Text.isWhiteSpace c = true)
    (hd : Text.isWhiteSpace d = false) : c ≠ d := by
  rintro rfl
  rw [h] at hd
  cases hd

theorem ne_of_pathCharacter {c d : Char} (h : isPathCharacter c = true)
    (hd : isPathCharacter d = false) : c ≠ d := by
  rintro rfl
  rw [h] at hd
  cases hd

/-! ### Reading -/

section Reading

variable {s rest after : List Char} {segments : List (List Char)} {m : Marker}

theorem written_of_segments? (h : segments? s = some (segments, rest)) :
    segments ≠ [] ∧ s = List.intercalate ['.'] segments ++ rest ∧
      ∀ segment ∈ segments, segment ≠ [] ∧ ∀ c ∈ segment, isPathCharacter c = true := by
  have hpath : ∀ s : List Char, ∀ c ∈ s.takeWhile isPathCharacter, isPathCharacter c = true :=
    fun _ _ hc => List.all_eq_true.mp List.all_takeWhile _ hc
  fun_induction segments? s generalizing segments rest with
  | case1 => cases h
  | case2 s segment hne more hdot _ others behind hothers =>
      rename_i ih
      simp only [Option.some.injEq, Prod.mk.injEq] at h
      obtain ⟨rfl, rfl⟩ := h
      obtain ⟨hothers, hmore, hall⟩ := ih hothers
      obtain ⟨other, others, rfl⟩ := List.exists_cons_of_ne_nil hothers
      refine ⟨List.cons_ne_nil _ _, ?_, ?_⟩
      · rw [List.intercalate_cons_cons, List.append_assoc, List.append_assoc, ← hmore,
          List.singleton_append, ← hdot]
        exact List.takeWhile_append_dropWhile.symm
      · exact List.forall_mem_cons.mpr ⟨⟨by simpa using hne, hpath s⟩, hall⟩
  | case3 s segment hne more hdot =>
      simp only [Option.some.injEq, Prod.mk.injEq] at h
      obtain ⟨rfl, rfl⟩ := h
      refine ⟨List.cons_ne_nil _ _, ?_, ?_⟩
      · rw [List.intercalate_singleton, ← hdot]
        exact List.takeWhile_append_dropWhile.symm
      · exact List.forall_mem_cons.mpr ⟨⟨by simpa using hne, hpath s⟩, by simp⟩
  | case4 s segment hne =>
      simp only [Option.some.injEq, Prod.mk.injEq] at h
      obtain ⟨rfl, rfl⟩ := h
      refine ⟨List.cons_ne_nil _ _, ?_, ?_⟩
      · rw [List.intercalate_singleton]
        exact List.takeWhile_append_dropWhile.symm
      · exact List.forall_mem_cons.mpr ⟨⟨by simpa using hne, hpath s⟩, by simp⟩

theorem segments?_last {segment : List Char} (hne : segment ≠ [])
    (hpath : ∀ c ∈ segment, isPathCharacter c = true)
    (hrest : ∀ c ∈ rest.head?, isPathCharacter c = false ∧ c ≠ '.') :
    segments? (segment ++ rest) = some ([segment], rest) := by
  obtain ⟨htake, hdrop⟩ := Text.takeWhile_append_stop hpath fun c hc => (hrest c hc).1
  have hdot : ∀ more, rest ≠ '.' :: more := by
    rintro more rfl
    exact (hrest '.' rfl).2 rfl
  fun_cases segments? (segment ++ rest) with
  | case1 segment' hempty => exact absurd (htake.symm.trans (List.isEmpty_iff.mp hempty)) hne
  | case2 _ _ more hmore => exact absurd (hdrop.symm.trans hmore) (hdot more)
  | case3 _ _ more hmore => exact absurd (hdrop.symm.trans hmore) (hdot more)
  | case4 => exact congrArg some (Prod.ext (congrArg ([·]) htake) hdrop)

theorem segments?_dot {segment more : List Char} (hne : segment ≠ [])
    (hpath : ∀ c ∈ segment, isPathCharacter c = true)
    (hmore : segments? more = some (segments, rest)) :
    segments? (segment ++ '.' :: more) = some (segment :: segments, rest) := by
  have hdot : ∀ c ∈ ('.' :: more).head?, isPathCharacter c = false := by
    intro c hc
    obtain rfl : '.' = c := by simpa using hc
    decide
  obtain ⟨htake, hdrop⟩ := Text.takeWhile_append_stop hpath hdot
  fun_cases segments? (segment ++ '.' :: more) with
  | case1 segment' hempty => exact absurd (htake.symm.trans (List.isEmpty_iff.mp hempty)) hne
  | case2 segment' _ more' hmore' _ others behind hothers =>
      obtain ⟨-, rfl⟩ := List.cons.inj (hdrop.symm.trans hmore')
      obtain ⟨rfl, rfl⟩ := Prod.mk.inj (Option.some.inj (hmore.symm.trans hothers))
      exact congrArg some (Prod.ext (congrArg (· :: segments) htake) rfl)
  | case3 segment' _ more' hmore' _ hnone =>
      obtain ⟨-, rfl⟩ := List.cons.inj (hdrop.symm.trans hmore')
      exact absurd (hmore.symm.trans hnone) (Option.some_ne_none _)
  | case4 _ _ hstop => exact absurd hdrop (hstop more)

theorem segments?_of_written (hne : segments ≠ [])
    (hsegments : ∀ segment ∈ segments, segment ≠ [] ∧ ∀ c ∈ segment, isPathCharacter c = true)
    (hrest : ∀ c ∈ rest.head?, isPathCharacter c = false ∧ c ≠ '.') :
    segments? (List.intercalate ['.'] segments ++ rest) = some (segments, rest) := by
  induction segments with
  | nil => exact absurd rfl hne
  | cons segment segments ih =>
      obtain ⟨⟨hsegment, hpath⟩, hothers⟩ := List.forall_mem_cons.mp hsegments
      cases segments with
      | nil =>
          rw [List.intercalate_singleton]
          exact segments?_last hsegment hpath hrest
      | cons other others =>
          rw [List.intercalate_cons_cons, List.append_assoc, List.append_assoc,
            List.singleton_append]
          exact segments?_dot hsegment hpath (ih (List.cons_ne_nil _ _) hothers)

theorem whiteSpace_brace (after : List Char) :
    ∀ c ∈ ('}' :: '}' :: after).head?, Text.isWhiteSpace c = false := by
  intro c hc
  obtain rfl : '}' = c := by simpa using hc
  decide

theorem written_append (m : Marker) (after : List Char) :
    m.written ++ after =
      '{' :: '{' :: (m.left ++ (m.path ++ (m.right ++ '}' :: '}' :: after))) := by
  simp [Marker.written]

theorem head?_append_of_forall {p : Char → Prop} {front rest : List Char}
    (hfront : ∀ c ∈ front, p c) (hrest : ∀ c ∈ rest.head?, p c) :
    ∀ c ∈ (front ++ rest).head?, p c := by
  cases front with
  | nil => exact hrest
  | cons d front =>
      intro c hc
      obtain rfl : d = c := by simpa using hc
      exact hfront d List.mem_cons_self

/-- A path starts with a path character. -/
theorem Marker.Valid.head?_path (hm : m.Valid) (rest : List Char) :
    ∀ c ∈ (m.path ++ rest).head?, isPathCharacter c = true := by
  obtain ⟨segment, segments, hsegments⟩ := List.exists_cons_of_ne_nil hm.nonempty
  obtain ⟨hne, hpath⟩ := hm.segments segment (hsegments ▸ List.mem_cons_self)
  obtain ⟨d, segment, rfl⟩ := List.exists_cons_of_ne_nil hne
  intro c hc
  obtain rfl : d = c := by
    rw [Marker.path, hsegments] at hc
    cases segments <;> simpa using hc
  exact hpath d List.mem_cons_self

/-- A marker is read exactly where one is written. -/
theorem marker?_eq_some :
    marker? s = some (m, after) ↔ m.Valid ∧ s = m.written ++ after := by
  constructor
  · intro h
    unfold marker? at h
    split at h
    · rename_i s
      split at h
      · cases h
      · rename_i segments rest hsegments
        split at h
        · rename_i after' hafter
          obtain ⟨rfl, rfl⟩ := Prod.mk.inj (Option.some.inj h)
          obtain ⟨hne, hs, hall⟩ := written_of_segments? hsegments
          refine ⟨⟨fun c => List.mem_takeWhile_imp, hne, hall, fun c => List.mem_takeWhile_imp⟩, ?_⟩
          rw [written_append, Marker.path, ← hafter, List.takeWhile_append_dropWhile, ← hs,
            List.takeWhile_append_dropWhile]
        · cases h
    · cases h
  · rintro ⟨hm, rfl⟩
    have hright : ∀ c ∈ (m.right ++ '}' :: '}' :: after).head?,
        isPathCharacter c = false ∧ c ≠ '.' := by
      apply head?_append_of_forall
      · intro c hc
        have hspace := hm.right c hc
        exact ⟨not_pathCharacter_of_whiteSpace hspace, ne_of_whiteSpace hspace (by decide)⟩
      · intro c hc
        obtain rfl : '}' = c := by simpa using hc
        decide
    have hleft : ∀ c ∈ (m.path ++ (m.right ++ '}' :: '}' :: after)).head?,
        Text.isWhiteSpace c = false := by
      intro c hc
      have hpath := hm.head?_path _ c hc
      by_contra hspace
      rw [not_pathCharacter_of_whiteSpace (by simpa using hspace)] at hpath
      cases hpath
    obtain ⟨htakeLeft, hdropLeft⟩ := Text.takeWhile_append_stop hm.left hleft
    obtain ⟨htakeRight, hdropRight⟩ := Text.takeWhile_append_stop hm.right (whiteSpace_brace after)
    have hsegments : segments? (m.path ++ (m.right ++ '}' :: '}' :: after)) =
        some (m.segments, m.right ++ '}' :: '}' :: after) :=
      segments?_of_written hm.nonempty hm.segments hright
    rw [written_append, marker?, hdropLeft, hsegments]
    dsimp only
    rw [hdropRight, htakeRight, htakeLeft]
    rfl

end Reading

/-! ### Occurrences -/

section Occurrences

variable {template before before' after after' : List Char} {m m' : Marker}

/-- Behind its first two braces a marker has no opening brace. -/
def Marker.body (m : Marker) : List Char := m.left ++ (m.path ++ (m.right ++ ['}', '}']))

theorem of_mem_intercalate {p : Char → Prop} {separator : Char} {parts : List (List Char)}
    (hseparator : p separator) (hparts : ∀ part ∈ parts, ∀ c ∈ part, p c) :
    ∀ c ∈ List.intercalate [separator] parts, p c := by
  induction parts with
  | nil => simp
  | cons part parts ih =>
      obtain ⟨hpart, hrest⟩ := List.forall_mem_cons.mp hparts
      cases parts with
      | nil => simpa using hpart
      | cons next parts =>
          intro c hc
          rw [List.intercalate_cons_cons, List.append_assoc, List.mem_append,
            List.singleton_append, List.mem_cons] at hc
          rcases hc with hc | rfl | hc
          · exact hpart c hc
          · exact hseparator
          · exact ih hrest c hc

theorem Marker.Valid.brace_not_mem_body (hm : m.Valid) : '{' ∉ m.body := by
  have hpath : ∀ c ∈ m.path, c ≠ '{' := of_mem_intercalate (by decide) fun part hpart c hc =>
    ne_of_pathCharacter ((hm.segments part hpart).2 c hc) (by decide)
  rw [Marker.body]
  simp only [List.mem_append, not_or]
  refine ⟨?_, ?_, ?_, by decide⟩
  · intro h
    exact ne_of_whiteSpace (hm.left _ h) (by decide) rfl
  · intro h
    exact hpath _ h rfl
  · intro h
    exact ne_of_whiteSpace (hm.right _ h) (by decide) rfl

theorem written_eq (m : Marker) : m.written = '{' :: '{' :: m.body := by
  simp [Marker.written, Marker.body]

/-- A text that starts with the first brace of a marker and goes on behind it with two braces
reaches beyond the marker. -/
theorem exists_between {inside rest : List Char} {c : Char} (hm : m.Valid)
    (h : '{' :: '{' :: (m.body ++ after) = c :: (inside ++ '{' :: '{' :: rest)) :
    ∃ between, c :: inside = '{' :: '{' :: (m.body ++ between) := by
  have hbody := hm.brace_not_mem_body
  obtain ⟨rfl, htail⟩ := List.cons.inj h
  cases inside with
  | nil =>
      -- The second brace of the marker would be followed by a third one.
      obtain ⟨d, body, hd⟩ := List.exists_cons_of_ne_nil (l := m.body) (by simp [Marker.body])
      simp only [hd, List.nil_append, List.cons_append, List.cons.injEq, true_and] at htail
      obtain ⟨rfl, -⟩ := htail
      exact absurd (hd ▸ List.mem_cons_self) hbody
  | cons d inside =>
      rw [List.cons_append, List.cons.injEq] at htail
      obtain ⟨rfl, hbehind⟩ := htail
      rcases List.append_eq_append_iff.mp hbehind with ⟨between, rfl, -⟩ | ⟨behind, hbehind, hrest⟩
      · exact ⟨between, rfl⟩
      · cases behind with
        | nil => exact ⟨[], by simp [hbehind]⟩
        | cons e behind =>
            rw [List.cons_append, List.cons.injEq] at hrest
            obtain ⟨rfl, -⟩ := hrest
            exact absurd (by simp [hbehind]) hbody

/-- Where a marker starts, no other one does. -/
theorem Occurs.unique (h : Occurs template before m after)
    (h' : Occurs template before m' after') : m = m' ∧ after = after' := by
  have heq : m.written ++ after = m'.written ++ after' :=
    List.append_cancel_left (h.written.symm.trans h'.written)
  have hread := marker?_eq_some.mpr ⟨h.valid, heq.symm⟩
  have hread' : marker? (m'.written ++ after') = some (m', after') :=
    marker?_eq_some.mpr ⟨h'.valid, rfl⟩
  exact Prod.mk.inj (Option.some.inj (hread.symm.trans hread'))

/-- A marker that starts behind another one does so behind its end. -/
theorem Occurs.between {c : Char} {cs : List Char} (h : Occurs template before m after)
    (h' : Occurs template (before ++ c :: cs) m' after') :
    ∃ between, before ++ c :: cs = before ++ (m.written ++ between) := by
  have heq := h.written.symm.trans h'.written
  rw [List.append_assoc, List.append_cancel_left_eq, written_eq, written_eq, List.cons_append,
    List.cons_append, List.cons_append, List.cons_append, List.cons_append] at heq
  obtain ⟨between, hbetween⟩ := exists_between h.valid heq
  exact ⟨between, by rw [hbetween, written_eq, List.cons_append, List.cons_append]⟩

/-- Two markers of a template are the same, or one ends before the other one starts. -/
theorem Occurs.disjoint (h : Occurs template before m after)
    (h' : Occurs template before' m' after') :
    (before = before' ∧ m = m' ∧ after = after') ∨
      (∃ between, before' = before ++ (m.written ++ between)) ∨
      ∃ between, before = before' ++ (m'.written ++ between) := by
  rcases List.append_eq_append_iff.mp (h.written.symm.trans h'.written) with
    ⟨gap, rfl, -⟩ | ⟨gap, rfl, -⟩
  · cases gap with
    | nil =>
        rw [List.append_nil] at h' ⊢
        exact .inl ⟨rfl, h.unique h'⟩
    | cons c cs => exact .inr (.inl (h.between h'))
  · cases gap with
    | nil =>
        rw [List.append_nil] at h ⊢
        exact .inl ⟨rfl, h.unique h'⟩
    | cons c cs => exact .inr (.inr (h'.between h))

end Occurrences

/-! ### The scan -/

section Scan

variable {template before after : List Char} {m : Marker}

theorem valid_of_mem_pieces {s : List Char} (h : .marker m ∈ pieces s) : m.Valid := by
  fun_induction pieces s with
  | case1 => simp at h
  | case2 c s m' after h' _ ih =>
      rcases List.mem_cons.mp h with heq | h
      · obtain rfl := Piece.marker.inj heq
        exact (marker?_eq_some.mp h').1
      · exact ih h
  | case3 c s h' ih =>
      rcases List.mem_cons.mp h with heq | h
      · cases heq
      · exact ih h

/-- The pieces make up the template. -/
theorem pieces_written (s : List Char) : (pieces s).flatMap Piece.written = s := by
  fun_induction pieces s with
  | case1 => rfl
  | case2 c s m after h _ ih =>
      rw [List.flatMap_cons, ih]
      exact (marker?_eq_some.mp h).2.symm
  | case3 c s h ih => 
      rw [List.flatMap_cons, ih]
      rfl

/-- A scan meets all markers, between the pieces of the text before and those of the text behind. -/
theorem exists_pieces (h : Occurs template before m after) :
    ∃ front back, pieces template = front ++ .marker m :: back ∧
      front.flatMap Piece.written = before ∧ back.flatMap Piece.written = after := by
  fun_induction pieces template generalizing before with
  | case1 =>
      have hwritten := h.written
      rw [written_eq] at hwritten
      simp at hwritten
  | case2 c s m' after' hread _ ih =>
      obtain ⟨hm', hs⟩ := marker?_eq_some.mp hread
      have hfirst : Occurs (c :: s) [] m' after' := ⟨hm', hs⟩
      rcases hfirst.disjoint h with ⟨rfl, rfl, rfl⟩ | ⟨between, rfl⟩ | ⟨between, hbetween⟩
      · exact ⟨[], pieces after', rfl, rfl, pieces_written after'⟩
      · have hrest : Occurs after' between m after := by
          refine ⟨h.valid, ?_⟩
          have := hs.symm.trans h.written
          rw [List.nil_append, List.append_assoc] at this
          exact List.append_cancel_left this
        obtain ⟨front, back, hpieces, hfront, hback⟩ := ih hrest
        refine ⟨.marker m' :: front, back, by rw [hpieces, List.cons_append], ?_, hback⟩
        rw [List.flatMap_cons, hfront]
        rfl
      · rw [written_eq] at hbetween
        simp at hbetween
  | case3 c s hread ih =>
      cases before with
      | nil =>
          rw [marker?_eq_some.mpr ⟨h.valid, h.written⟩] at hread
          cases hread
      | cons d before =>
          obtain ⟨rfl, hs⟩ := List.cons.inj h.written
          obtain ⟨front, back, hpieces, hfront, hback⟩ := ih ⟨h.valid, hs⟩
          refine ⟨.character c :: front, back, by rw [hpieces, List.cons_append], ?_, hback⟩
          rw [List.flatMap_cons, hfront]
          rfl

theorem occurs_iff :
    Occurs template before m after ↔ ∃ front back, pieces template = front ++ .marker m :: back ∧
      front.flatMap Piece.written = before ∧ back.flatMap Piece.written = after := by
  refine ⟨exists_pieces, ?_⟩
  rintro ⟨front, back, hpieces, rfl, rfl⟩
  refine ⟨valid_of_mem_pieces (s := template) (by simp [hpieces]), ?_⟩
  have hwritten := pieces_written template
  rw [hpieces, List.flatMap_append, List.flatMap_cons] at hwritten
  exact hwritten.symm

end Scan

/-! ### Following a path -/

section Following

/-- Segments lead from a value to a part of it: each of them is the key of a member, or the index of
an item in decimal digits, with any number of zeros in front. -/
inductive Leads : Json → List (List Char) → Json → Prop where
  | here (v : Json) : Leads v [] v
  | member {before after : Entries Json} {key : String} {part v : Json}
      {segments : List (List Char)} (hfirst : key ∉ before.keys) (h : Leads part segments v) :
      Leads (.object (before ++ (key, part) :: after)) (key.toList :: segments) v
  | item {before after : List Json} {zeros : Nat} {part v : Json} {segments : List (List Char)}
      (hindex : before.length < Nat.pow 2 64) (h : Leads part segments v) :
      Leads (.array (before ++ part :: after))
        ((List.replicate zeros '0' ++ Nat.toDigits 10 before.length) :: segments) v

theorem getElem?_eq_some_iff_append {α : Type} {l : List α} {i : Nat} {a : α} :
    l[i]? = some a ↔ ∃ before after, l = before ++ a :: after ∧ before.length = i := by
  constructor
  · intro h
    obtain ⟨hi, rfl⟩ := List.getElem?_eq_some_iff.mp h
    refine ⟨l.take i, l.drop (i + 1), ?_, List.length_take_of_le (Nat.le_of_lt hi)⟩
    rw [← List.drop_eq_getElem_cons hi, List.take_append_drop]
  · rintro ⟨before, after, rfl, rfl⟩
    simp

/-- Where a segment leads is a member with this key, or an item with this index. -/
theorem part?_eq_some {v part : Json} {segment : List Char} (hsign : '+' ∉ segment) :
    v.part? (String.ofList segment) = some part ↔
      (∃ before after key, v = .object (before ++ (key, part) :: after) ∧
        key ∉ Entries.keys before ∧ segment = key.toList) ∨
      ∃ before after zeros, v = .array (before ++ part :: after) ∧ before.length < Nat.pow 2 64 ∧
        segment = List.replicate zeros '0' ++ Nat.toDigits 10 before.length := by
  constructor
  · intro h
    cases v with
    | object members =>
        obtain ⟨before, after, rfl, hbefore⟩ := Entries.find?_eq_some.mp h
        exact .inl ⟨before, after, _, rfl, hbefore, String.toList_ofList.symm⟩
    | array items =>
        obtain ⟨i, hi, hitem⟩ := Option.bind_eq_some_iff.mp h
        rw [String.toList_ofList] at hi
        obtain ⟨hlt, zeros, rfl⟩ := (Text.natural?_eq_some hsign).mp hi
        obtain ⟨before, after, rfl, rfl⟩ := getElem?_eq_some_iff_append.mp hitem
        exact .inr ⟨before, after, zeros, rfl, hlt, rfl⟩
    | null => cases h
    | bool b => cases h
    | number n => cases h
    | string s => cases h
  · rintro (⟨before, after, key, rfl, hbefore, rfl⟩ | ⟨before, after, zeros, rfl, hlt, rfl⟩)
    · rw [String.ofList_toList]
      exact Entries.find?_eq_some.mpr ⟨before, after, rfl, hbefore⟩
    · refine Option.bind_eq_some_iff.mpr ⟨before.length, ?_, ?_⟩
      · rw [String.toList_ofList]
        exact (Text.natural?_eq_some hsign).mpr ⟨hlt, zeros, rfl⟩
      · exact getElem?_eq_some_iff_append.mpr ⟨before, after, rfl, rfl⟩

/-- What is found behind the segments is where they lead. -/
theorem resolve?_eq_some {document v : Json} {segments : List (List Char)}
    (hsign : ∀ segment ∈ segments, '+' ∉ segment) :
    document.resolve? (segments.map String.ofList) = some v ↔ Leads document segments v := by
  induction segments generalizing document with
  | nil =>
      constructor
      · intro h
        obtain rfl := Option.some.inj h
        exact .here _
      · rintro ⟨⟩
        rfl
  | cons segment segments ih =>
      obtain ⟨hfirst, hsegments⟩ := List.forall_mem_cons.mp hsign
      rw [List.map_cons, Json.resolve?, List.foldlM_cons]
      constructor
      · intro h
        obtain ⟨part, hpart, h⟩ := Option.bind_eq_some_iff.mp h
        have hleads := (ih hsegments).mp h
        rcases (part?_eq_some hfirst).mp hpart with
          ⟨before, after, key, rfl, hbefore, rfl⟩ | ⟨before, after, zeros, rfl, hlt, rfl⟩
        · exact .member hbefore hleads
        · exact .item hlt hleads
      · intro h
        cases h with
        | member hbefore hleads =>
            refine Option.bind_eq_some_iff.mpr ⟨_, ?_, (ih hsegments).mpr hleads⟩
            exact (part?_eq_some hfirst).mpr (.inl ⟨_, _, _, rfl, hbefore, rfl⟩)
        | item hlt hleads =>
            refine Option.bind_eq_some_iff.mpr ⟨_, ?_, (ih hsegments).mpr hleads⟩
            exact (part?_eq_some hfirst).mpr (.inr ⟨_, _, _, rfl, hlt, rfl⟩)

theorem Marker.Valid.resolve?_eq_some {m : Marker} (hm : m.Valid) {document v : Json} :
    document.resolve? (m.segments.map String.ofList) = some v ↔ Leads document m.segments v := by
  apply Template.resolve?_eq_some
  intro segment hsegment hplus
  exact ne_of_pathCharacter ((hm.segments segment hsegment).2 _ hplus) (by decide) rfl

end Following

/-! ### Filling -/

section Filling

/-- The segments of a path are what stands between its dots. -/
theorem Marker.Valid.resolve?_path {m : Marker} (hm : m.Valid) (document : Json) :
    resolve? document m.path = document.resolve? (m.segments.map String.ofList) := by
  rw [resolve?, Marker.path, Text.split_intercalate hm.nonempty]
  intro segment hsegment hdot
  exact ne_of_pathCharacter ((hm.segments segment hsegment).2 _ hdot) (by decide) rfl

/-- What stands in place of a piece: the value to which the segments of a marker lead, if there is
one. -/
def Piece.replaced (document : Json) : Piece → List Char
  | .character c => [c]
  | .marker m =>
    match document.resolve? (m.segments.map String.ofList) with
    | some (.string s) => s.toList
    | some v => v.compact.toList
    | none => m.written

theorem filled_eq_replaced {document : Json} {p : Piece}
    (hp : ∀ m, p = .marker m → m.Valid) : p.filled document = p.replaced document := by
  cases p with
  | character c => rfl
  | marker m =>
      rw [Piece.filled, Piece.replaced, (hp m rfl).resolve?_path]
      cases document.resolve? (m.segments.map String.ofList) with
      | none => rfl
      | some v => cases v <;> rfl

theorem toList_fill (document : Json) (template : String) :
    (fill document template).toList =
      (pieces template.toList).flatMap (Piece.replaced document) := by
  rw [fill, String.toList_ofList, List.flatMap, List.flatMap]
  congr 1
  apply List.map_congr_left
  intro p hp
  apply filled_eq_replaced
  rintro m rfl
  exact valid_of_mem_pieces hp

/-- The markers of a template do not overlap, so it is a sequence of all its markers and of the
characters outside of them. The paths of the markers are listed in this order. When the template is
filled, the value to which its segments lead stands in place of each marker, if there is one, and
all else is as it was; if the source is no JSON, the whole template is. -/
theorem every_marker_is_filled (template : String) :
    (∀ before m after before' m' after', Occurs template.toList before m after →
      Occurs template.toList before' m' after' →
      (before = before' ∧ m = m' ∧ after = after') ∨
        (∃ between, before' = before ++ (m.written ++ between)) ∨
        ∃ between, before = before' ++ (m'.written ++ between)) ∧
    ∃ ps : List Piece,
      ps.flatMap Piece.written = template.toList ∧
      (∀ before m after, Occurs template.toList before m after ↔
        ∃ front back, ps = front ++ .marker m :: back ∧
          front.flatMap Piece.written = before ∧ back.flatMap Piece.written = after) ∧
      (markers template).map Marker.path = (ps.filterMap Piece.marker?).map Marker.path ∧
      (∀ document, (fill document template).toList = ps.flatMap (Piece.replaced document)) ∧
      (∀ document m v, .marker m ∈ ps →
        (document.resolve? (m.segments.map String.ofList) = some v ↔
          Leads document m.segments v)) ∧
      ∀ source,
        (∀ document, Json.parse source = .ok document →
          render source template = fill document template) ∧
        ∀ e, Json.parse source = .error e → render source template = template := by
  refine ⟨fun _ _ _ _ _ _ => Occurs.disjoint, pieces template.toList, pieces_written _,
    fun _ _ _ => occurs_iff, rfl, fun document => toList_fill document template,
    fun _ _ _ hm => (valid_of_mem_pieces hm).resolve?_eq_some, ?_⟩
  intro source
  constructor
  · intro document hdocument
    rw [render, hdocument]
  · intro e he
    rw [render, he]

/-- A marker, a brace and the same marker again. -/
def adjacentTemplate : String := "\x7b\x7ba\x7d\x7d\x7b\x7b\x7ba\x7d\x7d"

def adjacentMarker : Marker := ⟨[], [['a']], []⟩

/-- Markers for an item of an array, with a zero in front of its index, and for one that is
missing. -/
def indexedTemplate : String := "\x7b\x7ba.01\x7d\x7d, \x7b\x7b a.2 \x7d\x7d"

def indexedMarker : Marker := ⟨[], [['a'], ['0', '1']], []⟩

/-- An object with an array. -/
def indexedDocument : Json :=
  .object [("a", .array [.string "x", .object [("b", .array [.bool true, .null])]])]

theorem every_marker_is_filled_adjacent :
    (∃ between, "\x7b\x7ba\x7d\x7d\x7b".toList = [] ++ (adjacentMarker.written ++ between)) ∧
    (∃ document, Json.parse "\x7b\"a\":\"\x7b\"\x7d" = .ok document ∧
      render "\x7b\"a\":\"\x7b\"\x7d" adjacentTemplate = fill document adjacentTemplate) ∧
    render "a" adjacentTemplate = adjacentTemplate ∧
    indexedDocument.resolve? ["a", "01"] = some (.object [("b", .array [.bool true, .null])]) ∧
    fill indexedDocument indexedTemplate =
      "\x7b\"b\":[true,null]\x7d, \x7b\x7b a.2 \x7d\x7d" := by
  obtain ⟨hdisjoint, ps, -, -, -, -, -, hrender⟩ := every_marker_is_filled adjacentTemplate
  have hletter : isPathCharacter 'a' = true := by decide
  have hvalid : adjacentMarker.Valid := by
    constructor <;> simp [adjacentMarker, hletter]
  have hfirst : Occurs adjacentTemplate.toList [] adjacentMarker
      "\x7b\x7b\x7ba\x7d\x7d".toList := ⟨hvalid, by decide⟩
  have hsecond : Occurs adjacentTemplate.toList "\x7b\x7ba\x7d\x7d\x7b".toList adjacentMarker
      [] := ⟨hvalid, by decide⟩
  refine ⟨?_, ?_, ?_, ?_, by decide +kernel⟩
  · rcases hdisjoint _ _ _ _ _ _ hfirst hsecond with ⟨heq, -⟩ | hbetween | ⟨between, heq⟩
    · exact absurd heq (by decide)
    · exact hbetween
    · simp at heq
  · cases hparse : Json.parse "\x7b\"a\":\"\x7b\"\x7d" with
    | error e =>
        have hok : (Json.parse "\x7b\"a\":\"\x7b\"\x7d").isOk = true := by decide +kernel
        rw [hparse] at hok
        cases hok
    | ok document => exact ⟨document, rfl, (hrender _).1 document hparse⟩
  · cases hparse : Json.parse "a" with
    | error e => exact (hrender _).2 e hparse
    | ok document =>
        have herror : (Json.parse "a").isOk = false := by decide +kernel
        rw [hparse] at herror
        cases herror
  · obtain ⟨-, ps, -, hoccurs, -, -, hvalue, -⟩ := every_marker_is_filled indexedTemplate
    have hdigits : isPathCharacter '0' = true ∧ isPathCharacter '1' = true := by decide
    have hindexed : indexedMarker.Valid := by
      constructor <;> simp [indexedMarker, hletter, hdigits]
    have hmarker : Occurs indexedTemplate.toList [] indexedMarker
        ", \x7b\x7b a.2 \x7d\x7d".toList := ⟨hindexed, by decide⟩
    obtain ⟨front, back, hps, -, -⟩ := (hoccurs _ _ _).mp hmarker
    have hmem : .marker indexedMarker ∈ ps := by simp [hps]
    let part : Json := .object [("b", .array [.bool true, .null])]
    have hitem : Leads (.array ([.string "x"] ++ part :: []))
        [List.replicate 1 '0' ++ Nat.toDigits 10 1] part := .item (by decide) (.here part)
    have hmember : Leads (.object ([] ++ ("a", .array [.string "x", part]) :: []))
        ["a".toList, ['0', '1']] part := .member List.not_mem_nil hitem
    exact (hvalue indexedDocument indexedMarker part hmem).mpr hmember

end Filling

end ResourceApi.Template
