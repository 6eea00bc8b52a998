import ResourceApi.Proofs.Json.Coverage
import ResourceApi.Proofs.Json.Reading
import ResourceApi.Proofs.Json.Scanning

/-!
The scanner takes every document and records spans that cover its value. The loops over items and
members keep what has been recorded and add what covers one more part.
-/

namespace ResourceApi.Json.Spans

open Pointer (ofTokens)

/-- The place in a text at which a rest is left. -/
def placeOf (text : String) (rest : List Char) : Cursor := ⟨text.length - rest.length, rest⟩

section Place

variable {text : String} {s rest : List Char}

theorem offset_append {a : List Char} (h : a ++ s <:+ text.toList) :
    text.length - (a ++ s).length + a.length = text.length - s.length := by
  have hle := h.length_le
  rw [String.length_toList, List.length_append] at hle
  rw [List.length_append]
  omega

theorem placeOf_append {a : List Char} (h : a ++ s <:+ text.toList) :
    ⟨text.length - (a ++ s).length + a.length, s⟩ = placeOf text s := by
  rw [offset_append h, placeOf]

theorem suffix_of_append {a : List Char} (h : a ++ s <:+ text.toList) : s <:+ text.toList :=
  (List.suffix_append a s).trans h

theorem next?_placeOf {c : Char} (h : c :: s <:+ text.toList) :
    (placeOf text (c :: s)).next? = some (c, placeOf text s) := by
  have := placeOf_append (a := [c]) h
  exact congrArg (fun place => some (c, place)) this

theorem skipBlank_placeOf {b : List Char} {c : Char} (h : b ++ c :: s <:+ text.toList)
    (hb : Blank b) (hc : Reader.isBlank c = false) :
    (placeOf text (b ++ c :: s)).skipBlank = placeOf text (c :: s) := by
  rw [placeOf, skipBlank_cons hb hc, placeOf_append h]

theorem string_placeOf {q : List Char} {k : String} (h : q ++ s <:+ text.toList)
    (hq : Quoted q k) : Spans.string (placeOf text (q ++ s)) = .ok (k, placeOf text s) := by
  rw [placeOf, string_append hq, placeOf_append h]

theorem skipWhile_placeOf {t : List Char} {n : Number} (h : t ++ s <:+ text.toList)
    (ht : Numeral t n) (hs : Stops s) :
    (placeOf text (t ++ s)).skipWhile isNumberCharacter = placeOf text s := by
  rw [placeOf, skipWhile_numeral ht hs, placeOf_append h]

/-- The range of characters before a rest. -/
def spanBefore (text : String) (t rest : List Char) : Span :=
  ⟨(placeOf text (t ++ rest)).offset, (placeOf text rest).offset⟩

theorem holds_spanBefore {depth : Nat} {t : List Char} {w : Json}
    (h : t ++ rest <:+ text.toList) (hw : Written depth t w) (hdepth : depth ≤ Reader.depthLimit) :
    (spanBefore text t rest).Holds text (lastWins w) := by
  obtain ⟨before, hbefore⟩ := h
  have hlength : text.length = before.length + (t.length + rest.length) := by
    rw [← String.length_toList, ← hbefore, List.length_append, List.length_append]
  have hstart : (spanBefore text t rest).start = before.length := by
    simp only [spanBefore, placeOf, List.length_append]
    omega
  have hstop : (spanBefore text t rest).stop = before.length + t.length := by
    simp only [spanBefore, placeOf]
    omega
  have hslice : (spanBefore text t rest).slice text = String.ofList t := by
    rw [Span.slice, hstart, hstop, ← hbefore, List.drop_left, Nat.add_sub_cancel_left,
      List.take_left]
  obtain ⟨c, t', rfl, -⟩ := hw.opens
  exact ⟨by rw [hstart, hstop, List.length_cons]; omega, by rw [hstop, hlength]; omega,
    by rw [hslice]; exact hw.parse hdepth⟩

end Place

/-- The scanner passes over the text of a value wherever it stands, and records spans that cover
the value. -/
def Records (text : String) (scan : String → State → Except Error State) (t : List Char)
    (w : Json) : Prop :=
  ∀ ts spans lead rest, Blank lead → Stops rest → lead ++ (t ++ rest) <:+ text.toList →
    ∃ entries, scan (ofTokens ts) (spans, placeOf text (lead ++ (t ++ rest))) =
      .ok (entries ++ spans, placeOf text rest) ∧ Covers text entries ts w

section Loops

variable {text : String} {scan : String → State → Except Error State}

/-- One part is scanned, then the blanks behind it and the character after them. -/
theorem Records.step {t after rest : List Char} {w : Json} {c : Char}
    (h : Records text scan t w) (ts : List String) (token : String) (spans : Entries Span)
    {lead : List Char} (hlead : Blank lead) (hafter : Blank after)
    (hc : isNumberCharacter c = false) (hblank : Reader.isBlank c = false)
    (hsuffix : lead ++ (t ++ (after ++ c :: rest)) <:+ text.toList) :
    ∃ entries place, scan (Pointer.push (ofTokens ts) token)
        (spans, placeOf text (lead ++ (t ++ (after ++ c :: rest)))) =
          .ok (entries ++ spans, place) ∧
      place.skipBlank = placeOf text (c :: rest) ∧
      (placeOf text (c :: rest)).next? = some (c, placeOf text rest) ∧
      Covers text entries (ts ++ [token]) w := by
  have hstops : Stops (after ++ c :: rest) := stops_blank hafter (stops_cons.mpr hc)
  obtain ⟨entries, hscan, hcovers⟩ := h (ts ++ [token]) spans lead _ hlead hstops hsuffix
  have hbehind := suffix_of_append (suffix_of_append hsuffix)
  rw [Pointer.ofTokens_concat] at hscan
  exact ⟨entries, _, hscan, skipBlank_placeOf hbehind hafter hblank,
    next?_placeOf (suffix_of_append hbehind), hcovers⟩

theorem items_records (ts : List String) {items : List Item} {i : Item}
    (hspaced : ∀ j ∈ i :: items, j.Spaced)
    (hrecords : ∀ j ∈ i :: items, Records text scan j.text j.value) {fuel : Nat}
    (hfuel : items.length < fuel) (index : Nat) (spans : Entries Span) {rest : List Char}
    (hsuffix : i.chars ++ (followed ']' (items.map Item.chars) ++ rest) <:+ text.toList) :
    ∃ entries, Spans.items scan (ofTokens ts) fuel index
      (spans, placeOf text (i.chars ++ (followed ']' (items.map Item.chars) ++ rest))) =
        .ok (entries ++ spans, placeOf text rest) ∧
      CoversParts text ts entries (indexed index ((i :: items).map Item.value)) := by
  induction items generalizing i fuel index spans with
  | nil =>
      obtain ⟨fuel, rfl⟩ : ∃ n, fuel = n + 1 := ⟨fuel - 1, by omega⟩
      have hi := hspaced i List.mem_cons_self
      have hchars : i.chars ++ (followed ']' (List.map Item.chars []) ++ rest) =
          i.before ++ (i.text ++ (i.after ++ ']' :: rest)) := by
        simp [Item.chars, followed]
      rw [hchars] at hsuffix ⊢
      obtain ⟨entries, place, hscan, hskip, hnext, hcovers⟩ :=
        (hrecords i List.mem_cons_self).step ts (toString index) spans hi.before hi.after
          (by decide) (by decide) hsuffix
      refine ⟨entries, ?_, .later .none hcovers⟩
      simp only [Spans.items, hscan, hskip, hnext]
  | cons j items ih =>
      obtain ⟨fuel, rfl⟩ : ∃ n, fuel = n + 1 := ⟨fuel - 1, by omega⟩
      have hi := hspaced i List.mem_cons_self
      have hchars : i.chars ++ (followed ']' (List.map Item.chars (j :: items)) ++ rest) =
          i.before ++ (i.text ++ (i.after ++ ',' ::
            (j.chars ++ (followed ']' (items.map Item.chars) ++ rest)))) := by
        simp [Item.chars, followed]
      rw [hchars] at hsuffix ⊢
      obtain ⟨first, place, hscan, hskip, hnext, hcovers⟩ :=
        (hrecords i List.mem_cons_self).step ts (toString index) spans hi.before hi.after
          (by decide) (by decide) hsuffix
      have hnextpart := suffix_of_append (a := [','])
        (suffix_of_append (suffix_of_append (suffix_of_append hsuffix)))
      obtain ⟨entries, hloop, hparts⟩ := ih (fun j hj => hspaced j (List.mem_cons_of_mem _ hj))
        (fun j hj => hrecords j (List.mem_cons_of_mem _ hj)) (Nat.lt_of_succ_lt_succ hfuel)
        (index + 1) (first ++ spans) hnextpart
      refine ⟨entries ++ first, ?_, .later hparts hcovers⟩
      simp only [Spans.items, hscan, hskip, hnext, hloop, List.append_assoc]

/-- The key of a member is scanned, then the colon behind it. -/
theorem key_placeOf {m : Member} (hm : m.Spaced) {s : List Char}
    (hsuffix : m.before ++ (m.quoted ++ (m.beforeColon ++ ':' :: s)) <:+ text.toList) :
    Spans.string (placeOf text
        (m.before ++ (m.quoted ++ (m.beforeColon ++ ':' :: s)))).skipBlank =
      .ok (m.key, placeOf text (m.beforeColon ++ ':' :: s)) ∧
    (placeOf text (m.beforeColon ++ ':' :: s)).skipBlank.expect ':' = .ok (placeOf text s) := by
  have hquoted := suffix_of_append hsuffix
  have hcolon := suffix_of_append hquoted
  obtain ⟨t, ht⟩ := hm.quoted.cons
  constructor
  · rw [ht, List.cons_append] at hsuffix hquoted ⊢
    rw [skipBlank_placeOf hsuffix hm.before (by decide)]
    exact string_placeOf (q := '"' :: t) hquoted (ht ▸ hm.quoted)
  · rw [skipBlank_placeOf hcolon hm.beforeColon (by decide), Cursor.expect,
      next?_placeOf (suffix_of_append hcolon)]
    rfl

theorem members_records (ts : List String) {members : List Member} {m : Member}
    (hspaced : ∀ n ∈ m :: members, n.Spaced)
    (hrecords : ∀ n ∈ m :: members, Records text scan n.text n.value) {fuel : Nat}
    (hfuel : members.length < fuel) (spans : Entries Span) {rest : List Char}
    (hsuffix : m.chars ++ (followed '}' (members.map Member.chars) ++ rest) <:+ text.toList) :
    ∃ entries, Spans.members scan (ofTokens ts) fuel
      (spans, placeOf text (m.chars ++ (followed '}' (members.map Member.chars) ++ rest))) =
        .ok (entries ++ spans, placeOf text rest) ∧
      CoversParts text ts entries ((m :: members).map Member.entry).reverse := by
  induction members generalizing m fuel spans with
  | nil =>
      obtain ⟨fuel, rfl⟩ : ∃ n, fuel = n + 1 := ⟨fuel - 1, by omega⟩
      have hm := hspaced m List.mem_cons_self
      have hchars : m.chars ++ (followed '}' (List.map Member.chars []) ++ rest) =
          m.before ++ (m.quoted ++ (m.beforeColon ++ ':' :: (m.beforeValue ++
            (m.text ++ (m.after ++ '}' :: rest))))) := by
        simp [Member.chars, Member.fromColon, followed]
      rw [hchars] at hsuffix ⊢
      obtain ⟨hkey, hcolon⟩ := key_placeOf hm hsuffix
      have hbehind := suffix_of_append (a := [':'])
        (suffix_of_append (suffix_of_append (suffix_of_append hsuffix)))
      obtain ⟨entries, place, hscan, hskip, hnext, hcovers⟩ :=
        (hrecords m List.mem_cons_self).step ts m.key spans hm.beforeValue hm.after
          (by decide) (by decide) hbehind
      refine ⟨entries, ?_, .later .none hcovers⟩
      simp only [Spans.members, hkey, hcolon, hscan, hskip, hnext]
  | cons n members ih =>
      obtain ⟨fuel, rfl⟩ : ∃ n, fuel = n + 1 := ⟨fuel - 1, by omega⟩
      have hm := hspaced m List.mem_cons_self
      have hchars : m.chars ++ (followed '}' (List.map Member.chars (n :: members)) ++ rest) =
          m.before ++ (m.quoted ++ (m.beforeColon ++ ':' :: (m.beforeValue ++
            (m.text ++ (m.after ++ ',' ::
              (n.chars ++ (followed '}' (members.map Member.chars) ++ rest))))))) := by
        simp [Member.chars, Member.fromColon, followed]
      rw [hchars] at hsuffix ⊢
      obtain ⟨hkey, hcolon⟩ := key_placeOf hm hsuffix
      have hbehind := suffix_of_append (a := [':'])
        (suffix_of_append (suffix_of_append (suffix_of_append hsuffix)))
      obtain ⟨first, place, hscan, hskip, hnext, hcovers⟩ :=
        (hrecords m List.mem_cons_self).step ts m.key spans hm.beforeValue hm.after
          (by decide) (by decide) hbehind
      have hnextpart := suffix_of_append (a := [','])
        (suffix_of_append (suffix_of_append (suffix_of_append hbehind)))
      obtain ⟨entries, hloop, hparts⟩ := ih (fun n hn => hspaced n (List.mem_cons_of_mem _ hn))
        (fun n hn => hrecords n (List.mem_cons_of_mem _ hn)) (Nat.lt_of_succ_lt_succ hfuel)
        (first ++ spans) hnextpart
      refine ⟨entries ++ first, ?_, ?_⟩
      · simp only [Spans.members, hkey, hcolon, hscan, hskip, hnext, hloop, List.append_assoc]
      · rw [List.map_cons, List.reverse_cons]
        exact .later hparts hcovers

end Loops

/-- Puts the span of a value before those of its parts. -/
def finish (pointer : String) (start : Nat) (r : Except Error State) : Except Error State :=
  r.map fun s => ((pointer, ⟨start, s.2.offset⟩) :: s.1, s.2)

/-- A value from its first character on. The character `x` stands at the place `c`, and what is
behind it stands at `d`. -/
def valueFrom (fuel : Nat) (pointer : String) (spans : Entries Span) (c : Cursor) (x : Char)
    (d : Cursor) : Except Error State :=
  let finish := finish pointer c.offset
  if x = '{' then
    match d.skipBlank.next? with
    | some ('}', d) => finish (.ok (spans, d))
    | _ => finish (Spans.members (Spans.value fuel) pointer (d.skipBlank.rest.length + 1)
        (spans, d.skipBlank))
  else if x = '[' then
    match d.skipBlank.next? with
    | some (']', d) => finish (.ok (spans, d))
    | _ => finish (Spans.items (Spans.value fuel) pointer (d.skipBlank.rest.length + 1) 0
        (spans, d.skipBlank))
  else if x = '"' then finish ((Spans.string c).map fun r => (spans, r.2))
  else if x = 't' then finish ((c.literal "true" "true".toList).map fun c => (spans, c))
  else if x = 'f' then finish ((c.literal "false" "false".toList).map fun c => (spans, c))
  else if x = 'n' then finish ((c.literal "null" "null".toList).map fun c => (spans, c))
  else if x = '-' || x.isDigit then finish (.ok (spans, c.skipWhile isNumberCharacter))
  else c.refuse .character

section Values

variable {text : String} {fuel : Nat} {pointer : String} {spans : Entries Span}
  {lead s : List Char}

/-- Blanks before a value are passed over and do not belong to its span. -/
theorem value_placeOf {x : Char} (hlead : Blank lead) (hsuffix : lead ++ x :: s <:+ text.toList)
    (hx : Reader.isBlank x = false) :
    Spans.value (fuel + 1) pointer (spans, placeOf text (lead ++ x :: s)) =
      valueFrom fuel pointer spans (placeOf text (x :: s)) x (placeOf text s) := by
  simp only [Spans.value, skipBlank_placeOf hsuffix hlead hx,
    next?_placeOf (suffix_of_append hsuffix)]
  rfl

theorem value_string (hlead : Blank lead) (hsuffix : lead ++ '"' :: s <:+ text.toList) :
    Spans.value (fuel + 1) pointer (spans, placeOf text (lead ++ '"' :: s)) =
      finish pointer (placeOf text ('"' :: s)).offset
        ((Spans.string (placeOf text ('"' :: s))).map fun r => (spans, r.2)) := by
  rw [value_placeOf hlead hsuffix (by decide)]
  rfl

/-- A word is passed over once its first character has been seen. -/
theorem literal_placeOf (name : String) (h : name.toList ++ s <:+ text.toList) :
    Cursor.literal name name.toList (placeOf text (name.toList ++ s)) = .ok (placeOf text s) := by
  rw [placeOf, literal_append, placeOf_append h]

theorem value_array_empty {d : Cursor} (hlead : Blank lead)
    (hsuffix : lead ++ '[' :: s <:+ text.toList)
    (hclose : (placeOf text s).skipBlank.next? = some (']', d)) :
    Spans.value (fuel + 1) pointer (spans, placeOf text (lead ++ '[' :: s)) =
      finish pointer (placeOf text ('[' :: s)).offset (.ok (spans, d)) := by
  rw [value_placeOf hlead hsuffix (by decide)]
  simp only [valueFrom, hclose]
  rfl

theorem value_array_items {c : Char} {d : Cursor} (hlead : Blank lead)
    (hsuffix : lead ++ '[' :: s <:+ text.toList)
    (hnext : (placeOf text s).skipBlank.next? = some (c, d)) (hc : c ≠ ']') :
    Spans.value (fuel + 1) pointer (spans, placeOf text (lead ++ '[' :: s)) =
      finish pointer (placeOf text ('[' :: s)).offset
        (Spans.items (Spans.value fuel) pointer
          ((placeOf text s).skipBlank.rest.length + 1) 0 (spans, (placeOf text s).skipBlank)) := by
  rw [value_placeOf hlead hsuffix (by decide)]
  simp only [valueFrom, hnext]
  rw [if_neg (by decide), if_pos trivial]
  split
  · rename_i heq
    simp only [Option.some.injEq, Prod.mk.injEq] at heq
    exact absurd heq.1 hc
  · rfl

theorem value_object_empty {d : Cursor} (hlead : Blank lead)
    (hsuffix : lead ++ '{' :: s <:+ text.toList)
    (hclose : (placeOf text s).skipBlank.next? = some ('}', d)) :
    Spans.value (fuel + 1) pointer (spans, placeOf text (lead ++ '{' :: s)) =
      finish pointer (placeOf text ('{' :: s)).offset (.ok (spans, d)) := by
  rw [value_placeOf hlead hsuffix (by decide)]
  simp only [valueFrom, hclose]
  rfl

theorem value_object_members {c : Char} {d : Cursor} (hlead : Blank lead)
    (hsuffix : lead ++ '{' :: s <:+ text.toList)
    (hnext : (placeOf text s).skipBlank.next? = some (c, d)) (hc : c ≠ '}') :
    Spans.value (fuel + 1) pointer (spans, placeOf text (lead ++ '{' :: s)) =
      finish pointer (placeOf text ('{' :: s)).offset
        (Spans.members (Spans.value fuel) pointer
          ((placeOf text s).skipBlank.rest.length + 1) (spans, (placeOf text s).skipBlank)) := by
  rw [value_placeOf hlead hsuffix (by decide)]
  simp only [valueFrom, hnext]
  rw [if_pos trivial]
  split
  · rename_i heq
    simp only [Option.some.injEq, Prod.mk.injEq] at heq
    exact absurd heq.1 hc
  · rfl

theorem value_number {c : Char} (hc : c = '-' ∨ Reader.isDigit c = true) (hlead : Blank lead)
    (hsuffix : lead ++ c :: s <:+ text.toList) :
    Spans.value (fuel + 1) pointer (spans, placeOf text (lead ++ c :: s)) =
      finish pointer (placeOf text (c :: s)).offset
        (.ok (spans, (placeOf text (c :: s)).skipWhile isNumberCharacter)) := by
  have hopens : Opens c := by
    rcases hc with rfl | hc
    · decide
    · simp [Opens, hc]
  have hnumber : (c = '-' || c.isDigit) = true := by
    rcases hc with rfl | hc
    · rfl
    · rw [← isDigit_eq, hc, Bool.or_true]
  have hne : ∀ d, d ≠ '-' → Reader.isDigit d = false → c ≠ d := by
    rintro d hminus hdigit rfl
    rcases hc with rfl | hc
    · exact hminus rfl
    · rw [hc] at hdigit
      cases hdigit
  rw [value_placeOf hlead hsuffix hopens.not_blank]
  simp only [valueFrom, hne '{' (by decide) (by decide),
    hne '[' (by decide) (by decide), hne '"' (by decide) (by decide),
    hne 't' (by decide) (by decide), hne 'f' (by decide) (by decide),
    hne 'n' (by decide) (by decide), hnumber, if_false, if_true]

theorem value_null (hlead : Blank lead) (hsuffix : lead ++ 'n' :: s <:+ text.toList) :
    Spans.value (fuel + 1) pointer (spans, placeOf text (lead ++ 'n' :: s)) =
      finish pointer (placeOf text ('n' :: s)).offset
        (((placeOf text ('n' :: s)).literal "null" "null".toList).map fun c => (spans, c)) := by
  rw [value_placeOf hlead hsuffix (by decide)]
  rfl

theorem value_true (hlead : Blank lead) (hsuffix : lead ++ 't' :: s <:+ text.toList) :
    Spans.value (fuel + 1) pointer (spans, placeOf text (lead ++ 't' :: s)) =
      finish pointer (placeOf text ('t' :: s)).offset
        (((placeOf text ('t' :: s)).literal "true" "true".toList).map fun c => (spans, c)) := by
  rw [value_placeOf hlead hsuffix (by decide)]
  rfl

theorem value_false (hlead : Blank lead) (hsuffix : lead ++ 'f' :: s <:+ text.toList) :
    Spans.value (fuel + 1) pointer (spans, placeOf text (lead ++ 'f' :: s)) =
      finish pointer (placeOf text ('f' :: s)).offset
        (((placeOf text ('f' :: s)).literal "false" "false".toList).map fun c => (spans, c)) := by
  rw [value_placeOf hlead hsuffix (by decide)]
  rfl

end Values

section Written

variable {text : String} {fuel : Nat} {t : List Char} {w : Json}

theorem length_le_followed (close : Char) {parts : List (List Char)} {part : List Char}
    (h : part ∈ parts) : part.length ≤ (followed close parts).length := by
  induction parts with
  | nil => cases h
  | cons first parts ih =>
      simp only [followed, List.length_cons, List.length_append]
      rcases List.mem_cons.mp h with rfl | h
      · omega
      · have := ih h
        omega

/-- What stands between brackets is at least as long as each of its parts. -/
theorem length_le_listed (close : Char) (b : List Char) {α : Type} (parts : List α)
    (chars : α → List Char) {part : α} (h : part ∈ parts) :
    (chars part).length ≤ (listed close b (parts.map chars)).length := by
  cases parts with
  | nil => cases h
  | cons first parts =>
      simp only [List.map_cons, listed, List.length_append]
      rcases List.mem_cons.mp h with rfl | h
      · omega
      · have := length_le_followed close (List.mem_map_of_mem (f := chars) h)
        omega

theorem length_lt_chars {close : Char} {α : Type} (parts : List α) (chars : α → List Char)
    (s rest : List Char) :
    parts.length <
      (placeOf text (s ++ (followed close (parts.map chars) ++ rest))).rest.length + 1 := by
  have := length_lt_followed close (parts.map chars)
  simp only [placeOf, List.length_append, List.length_map] at this ⊢
  omega

/-- A value without parts is recorded once its text is passed over. -/
theorem records_of_no_parts {depth : Nat} (h : Written depth t w)
    (hdepth : depth ≤ Reader.depthLimit) (hnone : ∀ step, (lastWins w).step? step = none)
    (hscan : ∀ pointer spans lead rest, Blank lead → Stops rest →
      lead ++ (t ++ rest) <:+ text.toList →
      Spans.value fuel pointer (spans, placeOf text (lead ++ (t ++ rest))) =
        finish pointer (placeOf text (t ++ rest)).offset (.ok (spans, placeOf text rest))) :
    Records text (Spans.value fuel) t w := by
  intro ts spans lead rest hlead hrest hsuffix
  have hholds := holds_spanBefore (suffix_of_append hsuffix) h hdepth
  refine ⟨[(ofTokens ts, spanBefore text t rest)], ?_, .of_no_parts hholds hnone⟩
  rw [hscan (ofTokens ts) spans lead rest hlead hrest hsuffix]
  rfl

theorem records_word {depth : Nat} (name : String) (h : Written depth name.toList w)
    (hdepth : depth ≤ Reader.depthLimit) (hnone : ∀ step, (lastWins w).step? step = none)
    (hopen : ∀ pointer spans lead rest, Blank lead → lead ++ (name.toList ++ rest) <:+ text.toList →
      Spans.value fuel pointer (spans, placeOf text (lead ++ (name.toList ++ rest))) =
        finish pointer (placeOf text (name.toList ++ rest)).offset
          (((placeOf text (name.toList ++ rest)).literal name name.toList).map
            fun c => (spans, c))) :
    Records text (Spans.value fuel) name.toList w := by
  refine records_of_no_parts h hdepth hnone fun pointer spans lead rest hlead hrest hsuffix => ?_
  rw [hopen pointer spans lead rest hlead hsuffix, literal_placeOf name (suffix_of_append hsuffix)]
  rfl

theorem records_array {depth : Nat} {blank : List Char} {items : List Item} (hblank : Blank blank)
    (hspaced : ∀ i ∈ items, i.Spaced) (hitems : ∀ i ∈ items, Written depth i.text i.value)
    (hdepth : depth + 1 ≤ Reader.depthLimit)
    (hrecords : ∀ i ∈ items, Records text (Spans.value fuel) i.text i.value) :
    Records text (Spans.value (fuel + 1)) ('[' :: listed ']' blank (items.map Item.chars))
      (.array (items.map Item.value)) := by
  intro ts spans lead rest hlead hrest hsuffix
  have hholds := holds_spanBefore (suffix_of_append hsuffix)
    (.array hblank hspaced hitems) hdepth
  cases items with
  | nil =>
      have hchars : '[' :: listed ']' blank (List.map Item.chars []) ++ rest =
          '[' :: (blank ++ ']' :: rest) := by
        simp [listed]
      simp only [hchars, spanBefore] at hsuffix hholds ⊢
      have hclose := suffix_of_append (a := ['[']) (suffix_of_append hsuffix)
      have hnext : (placeOf text (blank ++ ']' :: rest)).skipBlank.next? =
          some (']', placeOf text rest) := by
        rw [skipBlank_placeOf hclose hblank (by decide), next?_placeOf (suffix_of_append hclose)]
      rw [value_array_empty hlead hsuffix hnext]
      exact ⟨_, rfl, .array .none hholds⟩
  | cons i items =>
      obtain ⟨c, t, ht, hc⟩ := (hitems i List.mem_cons_self).opens
      have hi := hspaced i List.mem_cons_self
      have hchars : '[' :: listed ']' blank (List.map Item.chars (i :: items)) ++ rest =
          '[' :: (i.before ++ c ::
            (t ++ (i.after ++ (followed ']' (items.map Item.chars) ++ rest)))) := by
        simp [listed, Item.chars, ht]
      simp only [hchars, spanBefore] at hsuffix hholds ⊢
      have hopen := suffix_of_append (a := ['[']) (suffix_of_append hsuffix)
      have hskip := skipBlank_placeOf hopen hi.before hc.not_blank
      have hnext := next?_placeOf (suffix_of_append hopen)
      rw [← hskip] at hnext
      rw [value_array_items hlead hsuffix hnext hc.ne_close, hskip]
      have hfirst : ∀ j ∈ (⟨[], i.text, i.after, i.value⟩ :: items : List Item), j.Spaced :=
        List.forall_mem_cons.mpr ⟨⟨by simp [Blank], hi.after⟩,
          fun j hj => hspaced j (List.mem_cons_of_mem _ hj)⟩
      have hpart : c :: (t ++ (i.after ++ (followed ']' (items.map Item.chars) ++ rest))) =
          Item.chars ⟨[], i.text, i.after, i.value⟩ ++
            (followed ']' (items.map Item.chars) ++ rest) := by
        simp [Item.chars, ht]
      have hinside := suffix_of_append hopen
      rw [hpart] at hinside hholds ⊢
      obtain ⟨entries, hloop, hparts⟩ := items_records ts hfirst
        (List.forall_mem_cons.mpr (List.forall_mem_cons.mp hrecords))
        (length_lt_chars items Item.chars _ rest) 0 spans hinside
      refine ⟨(ofTokens ts, _) :: entries, ?_, .array hparts hholds⟩
      rw [hloop]
      rfl

theorem records_object {depth : Nat} {blank : List Char} {members : List Member}
    (hblank : Blank blank) (hspaced : ∀ m ∈ members, m.Spaced)
    (hmembers : ∀ m ∈ members, Written depth m.text m.value)
    (hdepth : depth + 1 ≤ Reader.depthLimit)
    (hrecords : ∀ m ∈ members, Records text (Spans.value fuel) m.text m.value) :
    Records text (Spans.value (fuel + 1)) ('{' :: listed '}' blank (members.map Member.chars))
      (.object (members.map Member.entry)) := by
  intro ts spans lead rest hlead hrest hsuffix
  have hholds := holds_spanBefore (suffix_of_append hsuffix)
    (.object hblank hspaced hmembers) hdepth
  cases members with
  | nil =>
      have hchars : '{' :: listed '}' blank (List.map Member.chars []) ++ rest =
          '{' :: (blank ++ '}' :: rest) := by
        simp [listed]
      simp only [hchars, spanBefore] at hsuffix hholds ⊢
      have hclose := suffix_of_append (a := ['{']) (suffix_of_append hsuffix)
      have hnext : (placeOf text (blank ++ '}' :: rest)).skipBlank.next? =
          some ('}', placeOf text rest) := by
        rw [skipBlank_placeOf hclose hblank (by decide), next?_placeOf (suffix_of_append hclose)]
      rw [value_object_empty hlead hsuffix hnext]
      exact ⟨_, rfl, .object .none hholds⟩
  | cons m members =>
      have hm := hspaced m List.mem_cons_self
      obtain ⟨t, ht⟩ := hm.quoted.cons
      have hchars : '{' :: listed '}' blank (List.map Member.chars (m :: members)) ++ rest =
          '{' :: (m.before ++ '"' :: (t ++ (m.beforeColon ++ (m.fromColon ++
            (followed '}' (members.map Member.chars) ++ rest))))) := by
        simp [listed, Member.chars, ht]
      simp only [hchars, spanBefore] at hsuffix hholds ⊢
      have hopen := suffix_of_append (a := ['{']) (suffix_of_append hsuffix)
      have hskip := skipBlank_placeOf hopen hm.before (by decide)
      have hnext := next?_placeOf (suffix_of_append hopen)
      rw [← hskip] at hnext
      rw [value_object_members hlead hsuffix hnext (by decide), hskip]
      have hfirst : ∀ n ∈ ({ m with before := [] } :: members : List Member), n.Spaced :=
        List.forall_mem_cons.mpr ⟨⟨by simp [Blank], hm.quoted, hm.beforeColon, hm.beforeValue,
          hm.after⟩, fun n hn => hspaced n (List.mem_cons_of_mem _ hn)⟩
      have hpart : '"' :: (t ++ (m.beforeColon ++ (m.fromColon ++
            (followed '}' (members.map Member.chars) ++ rest)))) =
          Member.chars { m with before := [] } ++
            (followed '}' (members.map Member.chars) ++ rest) := by
        simp [Member.chars, Member.fromColon, ht]
      have hinside := suffix_of_append hopen
      rw [hpart] at hinside hholds ⊢
      obtain ⟨entries, hloop, hparts⟩ := members_records ts hfirst
        (List.forall_mem_cons.mpr (List.forall_mem_cons.mp hrecords))
        (length_lt_chars members Member.chars _ rest) spans hinside
      refine ⟨(ofTokens ts, _) :: entries, ?_, .object hparts hholds⟩
      rw [hloop]
      rfl

/-- The scanner takes every written value and records spans that cover it. -/
theorem records_of_written {depth : Nat} (h : Written depth t w)
    (hdepth : depth ≤ Reader.depthLimit) (hfuel : t.length < fuel) :
    Records text (Spans.value fuel) t w := by
  induction h generalizing fuel with
  | @nullWord depth =>
      obtain ⟨fuel, rfl⟩ : ∃ n, fuel = n + 1 := ⟨fuel - 1, by omega⟩
      have hword : Written depth "null".toList .null := .nullWord
      exact records_word "null" hword hdepth (fun step => by cases step <;> rfl)
        fun _ _ _ _ hlead hsuffix => value_null hlead hsuffix
  | @trueWord depth =>
      obtain ⟨fuel, rfl⟩ : ∃ n, fuel = n + 1 := ⟨fuel - 1, by omega⟩
      have hword : Written depth "true".toList (.bool true) := .trueWord
      exact records_word "true" hword hdepth (fun step => by cases step <;> rfl)
        fun _ _ _ _ hlead hsuffix => value_true hlead hsuffix
  | @falseWord depth =>
      obtain ⟨fuel, rfl⟩ : ∃ n, fuel = n + 1 := ⟨fuel - 1, by omega⟩
      have hword : Written depth "false".toList (.bool false) := .falseWord
      exact records_word "false" hword hdepth (fun step => by cases step <;> rfl)
        fun _ _ _ _ hlead hsuffix => value_false hlead hsuffix
  | number h =>
      obtain ⟨fuel, rfl⟩ : ∃ n, fuel = n + 1 := ⟨fuel - 1, by omega⟩
      refine records_of_no_parts (.number h) hdepth (fun step => by cases step <;> rfl)
        fun pointer spans lead rest hlead hrest hsuffix => ?_
      obtain ⟨c, t, rfl, hc⟩ := h.cons
      rw [List.cons_append] at hsuffix ⊢
      rw [value_number hc hlead hsuffix, ← List.cons_append,
        skipWhile_placeOf (suffix_of_append hsuffix) h hrest]
  | string h =>
      obtain ⟨fuel, rfl⟩ : ∃ n, fuel = n + 1 := ⟨fuel - 1, by omega⟩
      refine records_of_no_parts (.string h) hdepth (fun step => by cases step <;> rfl)
        fun pointer spans lead rest hlead hrest hsuffix => ?_
      obtain ⟨t, rfl⟩ := h.cons
      rw [List.cons_append] at hsuffix ⊢
      rw [value_string hlead hsuffix, ← List.cons_append,
        string_placeOf (suffix_of_append hsuffix) h]
      rfl
  | @array depth blank items hblank hspaced hitems ih =>
      obtain ⟨fuel, rfl⟩ : ∃ n, fuel = n + 1 := ⟨fuel - 1, by omega⟩
      refine records_array hblank hspaced hitems hdepth fun i hi => ih i hi (by omega) ?_
      have := length_le_listed ']' blank items Item.chars hi
      simp only [List.length_cons, Item.chars, List.length_append] at hfuel this
      omega
  | @object depth blank members hblank hspaced hmembers ih =>
      obtain ⟨fuel, rfl⟩ : ∃ n, fuel = n + 1 := ⟨fuel - 1, by omega⟩
      refine records_object hblank hspaced hmembers hdepth fun m hm => ih m hm (by omega) ?_
      have := length_le_listed '}' blank members Member.chars hm
      simp only [List.length_cons, Member.chars, Member.fromColon, List.length_append] at hfuel this
      omega

end Written

/-- Every document is scanned, and the spans cover its value. -/
theorem parse_of_document {text : String} {w : Json} (h : IsDocument text w) :
    ∃ spans, Spans.parse text = .ok spans ∧ Covers text spans.entries [] w := by
  obtain ⟨lead, value, trail, htext, hlead, htrail, hw⟩ := h
  have hplace : Cursor.ofText text = placeOf text (lead ++ (value ++ trail)) := by
    rw [Cursor.ofText, placeOf, ← htext, String.length_toList, Nat.sub_self]
  have hfuel : value.length < (lead ++ (value ++ trail)).length + 1 := by
    rw [List.length_append, List.length_append]
    omega
  have hsuffix : lead ++ (value ++ trail) <:+ text.toList := htext ▸ List.suffix_refl _
  obtain ⟨entries, hvalue, hcovers⟩ := records_of_written hw (Nat.le_refl _) hfuel [] [] lead trail
    hlead (stops_of_blank htrail) hsuffix
  have hvalue : Spans.value ((placeOf text (lead ++ (value ++ trail))).rest.length + 1) ""
      ([], placeOf text (lead ++ (value ++ trail))) = .ok (entries, placeOf text trail) := by
    rw [List.append_nil] at hvalue
    exact hvalue
  refine ⟨⟨entries⟩, ?_, hcovers⟩
  have hend : (placeOf text trail).skipBlank.rest = [] := by
    rw [placeOf, skipBlank_blank htrail]
  simp only [Spans.parse, hplace, hvalue, hend]
  rfl

/-- Under the pointer of a part stands the span that holds it. -/
theorem Covers.find? {text : String} {spans : Spans} {w : Json}
    (h : Covers text spans.entries [] w) {path : Path} {node : Json}
    (hnode : (lastWins w).at? path = some node) :
    ∃ span, spans.find? (Pointer.ofPath path) = some span ∧ span.Holds text node := by
  rw [Pointer.ofPath_eq_ofTokens]
  exact h.found path node hnode

/-- Every text that is read is scanned too. The span under the pointer of any part of the value
holds that part, and where no object repeats a key there are no other pointers. -/
theorem spans_hold_nodes {text : String} {v : Json} (h : Json.parse text = .ok v) :
    ∃ spans, Spans.parse text = .ok spans ∧
      (∀ path node, v.at? path = some node → ∃ span,
        spans.find? (Pointer.ofPath path) = some span ∧ span.Holds text node) ∧
      ∃ w, Reader.run (Reader.everyMember Reader.depthLimit) text = .ok w ∧
        (w.DistinctKeys → ∀ pointer, pointer ∈ spans.pointers ↔
          ∃ path, (v.at? path).isSome ∧ pointer = Pointer.ofPath path) := by
  obtain ⟨w, hw, rfl⟩ := parse_eq_ok.mp h
  obtain ⟨spans, hspans, hcovers⟩ := parse_of_document hw
  refine ⟨spans, hspans, fun _ _ => hcovers.find?, w, everyMember_eq_ok.mpr hw,
    fun hdistinct pointer => ?_⟩
  rw [pointers, List.mem_eraseDups]
  constructor
  · intro hpointer
    obtain ⟨entry, hentry, rfl⟩ := List.mem_map.mp hpointer
    obtain ⟨path, hpath, heq⟩ := hcovers.only hdistinct entry hentry
    rw [lastWins_of_distinctKeys hdistinct]
    exact ⟨path, hpath, by rw [heq, Pointer.ofPath_eq_ofTokens, List.nil_append]⟩
  · rintro ⟨path, hpath, rfl⟩
    obtain ⟨node, hnode⟩ := Option.isSome_iff_exists.mp hpath
    obtain ⟨span, hspan, -⟩ := hcovers.find? hnode
    exact List.mem_map.mpr ⟨_, Entries.mem_of_find? hspan, rfl⟩

theorem spans_hold_nodes_escaped_key :
    Json.parse "\x7b\"a/b\": 1, \"a/b\": \"\\ud83d\\ude00\"\x7d" =
      .ok (.object [("a/b", .string "😀")]) ∧
    ∃ spans, Spans.parse "\x7b\"a/b\": 1, \"a/b\": \"\\ud83d\\ude00\"\x7d" = .ok spans ∧
      ∃ span, spans.find? "/a~1b" = some span ∧
        span.Holds "\x7b\"a/b\": 1, \"a/b\": \"\\ud83d\\ude00\"\x7d" (.string "😀") := by
  have hparse : Json.parse "\x7b\"a/b\": 1, \"a/b\": \"\\ud83d\\ude00\"\x7d" =
      .ok (.object [("a/b", .string "😀")]) := eq_ok_of_toOption (by decide +kernel)
  obtain ⟨spans, hspans, hfound, -⟩ := spans_hold_nodes hparse
  exact ⟨hparse, spans, hspans, hfound [.key "a/b"] _ (by decide +kernel)⟩

end ResourceApi.Json.Spans
