import ResourceApi.Proofs.Json.Places

/-!
The scanner only goes forward, whether or not its text is a document. Every place it comes to stands
behind the one it came from, and the span of a value starts at a character that is no blank.
-/

namespace ResourceApi.Json.Spans

/-! ### Going forward -/

namespace Cursor

/-- The second place lies behind some characters that stand at the first one. -/
def Reaches (c d : Cursor) : Prop :=
  ∃ read, c.rest = read ++ d.rest ∧ d.offset = c.offset + read.length

theorem Reaches.refl (c : Cursor) : c.Reaches c := ⟨[], rfl, rfl⟩

theorem Reaches.trans {c d e : Cursor} (h : c.Reaches d) (h' : d.Reaches e) : c.Reaches e := by
  obtain ⟨read, hrest, hoffset⟩ := h
  obtain ⟨more, hrest', hoffset'⟩ := h'
  refine ⟨read ++ more, ?_, ?_⟩
  · rw [hrest, hrest', List.append_assoc]
  · rw [hoffset', hoffset, List.length_append, Nat.add_assoc]

/-- At a place that is reached from the start of a text stands what the text has at its offset. -/
theorem Reaches.getElem? {text : String} {d : Cursor} (h : (ofText text).Reaches d) :
    text.toList[d.offset]? = d.rest.head? := by
  obtain ⟨read, hrest, hoffset⟩ := h
  have htext : text.toList = read ++ d.rest := hrest
  have hlength : d.offset = read.length := hoffset.trans (Nat.zero_add _)
  rw [htext, hlength, List.getElem?_append_right (Nat.le_refl _), Nat.sub_self,
    List.head?_eq_getElem?]

theorem reaches_skipWhile (p : Char → Bool) (c : Cursor) : c.Reaches (c.skipWhile p) :=
  ⟨c.rest.takeWhile p, List.takeWhile_append_dropWhile.symm, rfl⟩

theorem reaches_skipBlank (c : Cursor) : c.Reaches c.skipBlank := c.reaches_skipWhile isBlank

theorem next?_eq_some {c d : Cursor} {x : Char} (h : c.next? = some (x, d)) :
    c.rest = x :: d.rest ∧ d.offset = c.offset + 1 := by
  rw [next?] at h
  split at h
  · cases h
  · rename_i y rest hrest
    obtain ⟨rfl, rfl⟩ := Prod.mk.inj (Option.some.inj h)
    exact ⟨hrest, rfl⟩

theorem reaches_next? {c d : Cursor} {x : Char} (h : c.next? = some (x, d)) : c.Reaches d := by
  obtain ⟨hrest, hoffset⟩ := next?_eq_some h
  exact ⟨[x], hrest, hoffset⟩

/-- Between two places stands this text. -/
def Reads (c : Cursor) (w : List Char) (d : Cursor) : Prop :=
  c.rest = w ++ d.rest ∧ d.offset = c.offset + w.length

theorem Reads.reaches {c d : Cursor} {w : List Char} (h : c.Reads w d) : c.Reaches d :=
  ⟨w, h⟩

theorem Reads.cons {c d e : Cursor} {x : Char} {w : List Char}
    (hnext : c.next? = some (x, d)) (h : d.Reads w e) : c.Reads (x :: w) e := by
  obtain ⟨hrest, hoffset⟩ := next?_eq_some hnext
  obtain ⟨hrest', hoffset'⟩ := h
  refine ⟨by rw [hrest, hrest', List.cons_append], ?_⟩
  rw [List.length_cons]
  omega

theorem Reads.concat {c d e : Cursor} {x : Char} {w : List Char} (h : c.Reads w d)
    (hnext : d.next? = some (x, e)) : c.Reads (w ++ [x]) e := by
  obtain ⟨hrest, hoffset⟩ := h
  obtain ⟨hrest', hoffset'⟩ := next?_eq_some hnext
  refine ⟨by rw [hrest, hrest', List.append_assoc, List.singleton_append], ?_⟩
  rw [List.length_append, List.length_singleton]
  omega

theorem Reaches.offset_le {c d : Cursor} (h : c.Reaches d) : c.offset ≤ d.offset := by
  obtain ⟨read, -, hoffset⟩ := h
  omega

theorem Reaches.length_le {c d : Cursor} (h : c.Reaches d) : d.rest.length ≤ c.rest.length := by
  obtain ⟨read, hrest, -⟩ := h
  rw [hrest, List.length_append]
  omega

/-- Only one place has nothing behind it. -/
theorem Reaches.eq_end {text : String} {d : Cursor} (h : (ofText text).Reaches d)
    (hrest : d.rest = []) : d = ⟨text.toList.length, []⟩ := by
  obtain ⟨read, htext, hoffset⟩ := h
  have hread : text.toList = read ++ d.rest := htext
  have hlength : d.offset = read.length := hoffset.trans (Nat.zero_add _)
  rw [hread, List.length_append, hrest, ← hlength]
  cases d
  cases hrest
  rfl

theorem length_lt_of_next? {c d : Cursor} {x : Char} (h : c.next? = some (x, d)) :
    d.rest.length < c.rest.length := by
  rw [(next?_eq_some h).1, List.length_cons]
  omega

/-- Behind blanks stands no blank. -/
theorem not_blank_of_next? {c d : Cursor} {x : Char} (h : c.skipBlank.next? = some (x, d)) :
    isBlank x = false := by
  obtain ⟨hrest, -⟩ := next?_eq_some h
  have hhead := List.head?_dropWhile_not isBlank c.rest
  rw [show c.rest.dropWhile isBlank = x :: d.rest from hrest] at hhead
  simpa using hhead

theorem reject_ne_ok {α : Type} {c : Cursor} {cause : Cause} {a : α} :
    c.reject cause ≠ .ok a := by
  intro h
  rw [reject] at h
  split at h <;> cases h

theorem reaches_expect {c d : Cursor} {x : Char} (h : c.expect x = .ok d) : c.Reaches d := by
  rw [expect] at h
  split at h
  · rename_i hnext
    split at h
    · obtain rfl := Except.ok.inj h
      exact reaches_next? hnext
    · exact absurd h reject_ne_ok
  · exact absurd h reject_ne_ok

theorem reaches_literal {name : String} {w : List Char} {c d : Cursor}
    (h : literal name w c = .ok d) : c.Reaches d := by
  induction w generalizing c with
  | nil =>
      obtain rfl := Except.ok.inj h
      exact .refl _
  | cons x w ih =>
      rw [literal] at h
      split at h
      · rename_i hnext
        split at h
        · exact (reaches_next? hnext).trans (ih h)
        · exact absurd h reject_ne_ok
      · exact absurd h reject_ne_ok

end Cursor

open Cursor

/-! ### Strings -/

theorem reaches_hexDigits {count n m : Nat} {c d : Cursor}
    (h : hexDigits count n c = .ok (m, d)) : c.Reaches d := by
  induction count generalizing n c with
  | zero =>
      obtain ⟨-, rfl⟩ := Prod.mk.inj (Except.ok.inj h)
      exact .refl _
  | succ count ih =>
      rw [hexDigits] at h
      split at h
      · rename_i hnext
        split at h
        · exact (reaches_next? hnext).trans (ih h)
        · exact absurd h reject_ne_ok
      · exact absurd h reject_ne_ok

theorem reaches_unicodeEscape {c d : Cursor} {x : Char} (h : unicodeEscape c = .ok (x, d)) :
    c.Reaches d := by
  rw [unicodeEscape] at h
  split at h
  · cases h
  · rename_i high e hhigh
    have hfirst := reaches_hexDigits hhigh
    split at h
    · split at h
      · rename_i rest hrest
        have hskip : e.Reaches ⟨e.offset + 2, rest⟩ := ⟨['\\', 'u'], hrest, rfl⟩
        split at h
        · cases h
        · rename_i hlow
          have hsecond := hfirst.trans (hskip.trans (reaches_hexDigits hlow))
          split at h <;> obtain ⟨-, rfl⟩ := Prod.mk.inj (Except.ok.inj h) <;> exact hsecond
      · obtain ⟨-, rfl⟩ := Prod.mk.inj (Except.ok.inj h)
        exact hfirst
    · obtain ⟨-, rfl⟩ := Prod.mk.inj (Except.ok.inj h)
      exact hfirst

theorem reaches_stringBody {fuel : Nat} {done : List Char} {c d : Cursor} {s : String}
    (h : stringBody fuel done c = .ok (s, d)) : c.Reaches d := by
  induction fuel generalizing done c with
  | zero => cases h
  | succ fuel ih =>
      rw [stringBody] at h
      split at h
      · cases h
      · rename_i x e hnext
        refine (reaches_next? hnext).trans ?_
        split at h
        · obtain ⟨-, rfl⟩ := Prod.mk.inj (Except.ok.inj h)
          exact .refl _
        · split at h
          · split at h
            · cases h
            · rename_i y f hescape
              refine (reaches_next? hescape).trans ?_
              split at h
              · split at h
                · cases h
                · rename_i hunit
                  exact (reaches_unicodeEscape hunit).trans (ih h)
              · split at h
                · exact ih h
                · exact absurd h reject_ne_ok
          · exact ih h

theorem reaches_string {c d : Cursor} {s : String} (h : Spans.string c = .ok (s, d)) :
    c.Reaches d := by
  rw [Spans.string] at h
  split at h
  · cases h
  · rename_i hquote
    exact (reaches_expect hquote).trans (reaches_stringBody h)

/-! ### Values -/

/-- The span starts behind the place, at a character that is no blank. -/
def Starts (c : Cursor) (span : Span) : Prop :=
  ∃ x rest, c.Reaches ⟨span.start, x :: rest⟩ ∧ isBlank x = false

/-- The scanner has gone forward, and it has recorded nothing but spans that start on its way. -/
structure Advances (s t : State) : Prop where
  reaches : s.2.Reaches t.2
  starts : ∀ entry ∈ t.1, entry ∈ s.1 ∨ Starts s.2 entry.2

theorem Advances.of_reaches {spans : Entries Span} {c d : Cursor} (h : c.Reaches d) :
    Advances (spans, c) (spans, d) := ⟨h, fun _ hentry => .inl hentry⟩

theorem Advances.trans {s t u : State} (h : Advances s t) (h' : Advances t u) : Advances s u := by
  refine ⟨h.reaches.trans h'.reaches, fun entry hentry => ?_⟩
  rcases h'.starts entry hentry with hentry | ⟨x, rest, hreaches, hx⟩
  · exact h.starts entry hentry
  · exact .inr ⟨x, rest, h.reaches.trans hreaches, hx⟩

section Loops

variable {item : String → State → Except Error State} {pointer : String}

theorem advances_items (hitem : ∀ pointer s t, item pointer s = .ok t → Advances s t)
    {fuel index : Nat} {s t : State} (h : Spans.items item pointer fuel index s = .ok t) :
    Advances s t := by
  induction fuel generalizing index s with
  | zero => cases h
  | succ fuel ih =>
      rw [Spans.items] at h
      split at h
      · cases h
      · rename_i spans c hfirst
        refine (hitem _ _ _ hfirst).trans ?_
        have hskip : Advances (spans, c) (spans, c.skipBlank) := .of_reaches c.reaches_skipBlank
        refine hskip.trans ?_
        dsimp only at h
        split at h
        · rename_i hnext
          exact (Advances.of_reaches (reaches_next? hnext)).trans (ih h)
        · rename_i hnext
          obtain rfl := Except.ok.inj h
          exact .of_reaches (reaches_next? hnext)
        · exact absurd h reject_ne_ok

theorem advances_members (hitem : ∀ pointer s t, item pointer s = .ok t → Advances s t)
    {fuel : Nat} {s t : State} (h : Spans.members item pointer fuel s = .ok t) :
    Advances s t := by
  induction fuel generalizing s with
  | zero => cases h
  | succ fuel ih =>
      obtain ⟨spans, c⟩ := s
      rw [Spans.members] at h
      split at h
      · cases h
      · rename_i key d hkey
        have hname := c.reaches_skipBlank.trans (reaches_string hkey)
        split at h
        · cases h
        · rename_i e hcolon
          have hbehind := d.reaches_skipBlank.trans (reaches_expect hcolon)
          refine (Advances.of_reaches (hname.trans hbehind)).trans ?_
          split at h
          · cases h
          · rename_i more f hfirst
            refine (hitem _ _ _ hfirst).trans ?_
            have hskip : Advances (more, f) (more, f.skipBlank) := .of_reaches f.reaches_skipBlank
            refine hskip.trans ?_
            dsimp only at h
            split at h
            · rename_i hnext
              exact (Advances.of_reaches (reaches_next? hnext)).trans (ih h)
            · rename_i hnext
              obtain rfl := Except.ok.inj h
              exact .of_reaches (reaches_next? hnext)
            · exact absurd h reject_ne_ok

end Loops

section Values

variable {fuel : Nat} {pointer : String} {spans : Entries Span} {c d : Cursor} {x : Char}

theorem value_eq_valueFrom (h : c.skipBlank.next? = some (x, d)) :
    Spans.value (fuel + 1) pointer (spans, c) = valueFrom fuel pointer spans c.skipBlank x d := by
  simp only [Spans.value, h]
  rfl

/-- A value that is finished leaves its own span, which starts where the value does. -/
theorem advances_finish {r : Except Error State} {t : State} (hx : isBlank x = false)
    (hc : c.rest = x :: d.rest) (hr : ∀ s, r = .ok s → Advances (spans, c) s)
    (h : finish pointer c.offset r = .ok t) : Advances (spans, c) t := by
  obtain ⟨s, hs, rfl⟩ := map_eq_ok h
  refine ⟨(hr s hs).reaches, fun entry hentry => ?_⟩
  rcases List.mem_cons.mp hentry with rfl | hentry
  · exact .inr ⟨x, d.rest, ⟨[], hc, rfl⟩, hx⟩
  · exact (hr s hs).starts entry hentry

theorem advances_valueFrom {t : State}
    (hvalue : ∀ pointer s t, Spans.value fuel pointer s = .ok t → Advances s t)
    (hx : isBlank x = false) (hnext : c.next? = some (x, d))
    (h : valueFrom fuel pointer spans c x d = .ok t) : Advances (spans, c) t := by
  obtain ⟨hc, -⟩ := next?_eq_some hnext
  have hopen : Advances (spans, c) (spans, d.skipBlank) :=
    .of_reaches ((reaches_next? hnext).trans d.reaches_skipBlank)
  have hclose : ∀ {e y}, d.skipBlank.next? = some (y, e) → Advances (spans, c) (spans, e) :=
    fun hend => hopen.trans (.of_reaches (reaches_next? hend))
  rw [valueFrom] at h
  split at h
  · split at h
    · rename_i hend
      exact advances_finish hx hc (fun s hs => Except.ok.inj hs ▸ hclose hend) h
    · exact advances_finish hx hc (fun s hs => hopen.trans (advances_members hvalue hs)) h
  split at h
  · split at h
    · rename_i hend
      exact advances_finish hx hc (fun s hs => Except.ok.inj hs ▸ hclose hend) h
    · exact advances_finish hx hc (fun s hs => hopen.trans (advances_items hvalue hs)) h
  have hliteral : ∀ {name w}, ∀ s, ((literal name w c).map fun e => (spans, e)) = .ok s →
      Advances (spans, c) s := by
    intro name w s hs
    obtain ⟨e, he, rfl⟩ := map_eq_ok hs
    exact .of_reaches (reaches_literal he)
  split at h
  · refine advances_finish hx hc (fun s hs => ?_) h
    obtain ⟨⟨key, e⟩, he, rfl⟩ := map_eq_ok hs
    exact .of_reaches (reaches_string he)
  split at h
  · exact advances_finish hx hc hliteral h
  split at h
  · exact advances_finish hx hc hliteral h
  split at h
  · exact advances_finish hx hc hliteral h
  split at h
  · exact advances_finish hx hc
      (fun s hs => Except.ok.inj hs ▸ .of_reaches (c.reaches_skipWhile _)) h
  · cases h

theorem advances_value {s t : State} (h : Spans.value fuel pointer s = .ok t) :
    Advances s t := by
  induction fuel generalizing pointer s t with
  | zero => cases h
  | succ fuel ih =>
      obtain ⟨spans, c⟩ := s
      cases hnext : c.skipBlank.next? with
      | none =>
          simp only [Spans.value, hnext] at h
          cases h
      | some first =>
          obtain ⟨x, d⟩ := first
          rw [value_eq_valueFrom hnext] at h
          have hskip : Advances (spans, c) (spans, c.skipBlank) := .of_reaches c.reaches_skipBlank
          exact hskip.trans
            (advances_valueFrom (fun _ _ _ => ih) (not_blank_of_next? hnext) hnext h)

end Values

/-- Wherever a text has been scanned, a span starts at a character that is no blank. -/
theorem starts_of_find? {text : String} {spans : Spans} (h : Spans.parse text = .ok spans)
    {pointer : String} {span : Span} (hspan : spans.find? pointer = some span) :
    ∃ x, text.toList[span.start]? = some x ∧ isBlank x = false := by
  rw [Spans.parse] at h
  split at h
  · cases h
  · rename_i entries c hvalue
    dsimp only at h
    split at h
    · obtain rfl := Except.ok.inj h
      have hentry := Entries.mem_of_find? hspan
      rcases (advances_value hvalue).starts _ hentry with hnone | ⟨x, rest, hreaches, hx⟩
      · cases hnone
      · exact ⟨x, hreaches.getElem?, hx⟩
    · cases h

end ResourceApi.Json.Spans
