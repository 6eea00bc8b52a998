import Mathlib.Data.List.Pairwise
import ResourceApi.Proofs.Json.Progress
import ResourceApi.Proofs.Json.Printing
import ResourceApi.Proofs.Text.Edges

/-!
How the spans of a text lie to each other. The scanner records each value when it is finished, after
all that is inside it, so a span lies strictly inside another one or apart from it. Of a repeated key
the spans inside the values that were overwritten stay; they are spans of values all the same, so
the law holds for them as well, whatever their pointers say.
-/

namespace ResourceApi

namespace Span

/-- The span lies inside another one and touches neither of its ends. -/
def Inside (a b : Span) : Prop := b.start < a.start ∧ a.stop < b.stop

/-- The spans have no character in common. -/
def Apart (a b : Span) : Prop := a.stop ≤ b.start ∨ b.stop ≤ a.start

/-- The spans have no character in common, or one lies strictly inside the other. -/
def Nests (a b : Span) : Prop := a.Apart b ∨ a.Inside b ∨ b.Inside a

theorem Nests.symm {a b : Span} (h : a.Nests b) : b.Nests a := by
  rcases h with hapart | hinside | hinside
  · exact .inl hapart.symm
  · exact .inr (.inr hinside)
  · exact .inr (.inl hinside)

end Span

namespace Json.Spans

open Cursor

/-! ### Solid texts -/

/-- The text starts and ends with a character that is no white space. -/
structure Solid (w : List Char) : Prop where
  nonempty : w ≠ []
  starts : ∀ x ∈ w.head?, Text.isWhiteSpace x = false
  ends : Text.EndsVisibly w

theorem solid_of_all {w : List Char} (hne : w ≠ []) (h : ∀ x ∈ w, Text.isWhiteSpace x = false) :
    Solid w :=
  ⟨hne, fun x hx => h x (List.mem_of_mem_head? hx), fun x hx => h x (List.mem_of_getLast? hx)⟩

/-- Brackets or quotes make any text solid. -/
theorem solid_enclosed {x y : Char} (hx : Text.isWhiteSpace x = false)
    (hy : Text.isWhiteSpace y = false) (w : List Char) : Solid (x :: (w ++ [y])) := by
  refine ⟨by simp, fun c hc => ?_, (Text.endsVisibly_concat hy).cons hx⟩
  obtain rfl := Option.some.inj hc
  exact hx

theorem not_whiteSpace_of_isNumberCharacter {x : Char} (h : isNumberCharacter x = true) :
    Text.isWhiteSpace x = false := by
  simp only [isNumberCharacter, Bool.or_eq_true, decide_eq_true_eq] at h
  rcases h with ((((hdigit | rfl) | rfl) | rfl) | rfl) | rfl
  · exact Text.not_whiteSpace_of_digit hdigit
  all_goals decide

/-! ### Words, strings and numbers -/

theorem reads_literal {name : String} {w : List Char} {c d : Cursor}
    (h : literal name w c = .ok d) : c.Reads w d := by
  induction w generalizing c with
  | nil =>
      obtain rfl := Except.ok.inj h
      exact ⟨rfl, rfl⟩
  | cons x w ih =>
      rw [literal] at h
      split at h
      · rename_i y e hnext
        split at h
        · rename_i heq
          subst heq
          exact (ih h).cons hnext
        · exact absurd h reject_ne_ok
      · exact absurd h reject_ne_ok

/-- The last character of a string is its closing quote. -/
theorem exists_quote_of_stringBody {fuel : Nat} {done : List Char} {c d : Cursor} {s : String}
    (h : stringBody fuel done c = .ok (s, d)) : ∃ e, c.Reaches e ∧ e.next? = some ('"', d) := by
  induction fuel generalizing done c with
  | zero => cases h
  | succ fuel ih =>
      have hstep : ∀ {done e}, c.Reaches e → stringBody fuel done e = .ok (s, d) →
          ∃ f, c.Reaches f ∧ f.next? = some ('"', d) := by
        intro done e hreaches hbody
        obtain ⟨f, hf, hquote⟩ := ih hbody
        exact ⟨f, hreaches.trans hf, hquote⟩
      rw [stringBody] at h
      split at h
      · cases h
      · rename_i x e hnext
        have hreaches := reaches_next? hnext
        split at h
        · rename_i hquote
          obtain ⟨-, rfl⟩ := Prod.mk.inj (Except.ok.inj h)
          exact ⟨c, .refl c, by rw [hnext, hquote]⟩
        · split at h
          · split at h
            · cases h
            · rename_i y f hescape
              split at h
              · split at h
                · cases h
                · rename_i hunit
                  exact hstep (hreaches.trans
                    ((reaches_next? hescape).trans (reaches_unicodeEscape hunit))) h
              · split at h
                · exact hstep (hreaches.trans (reaches_next? hescape)) h
                · exact absurd h reject_ne_ok
          · exact hstep hreaches h

theorem solid_string {c d : Cursor} {s : String} (h : Spans.string c = .ok (s, d)) :
    ∃ w, c.Reads w d ∧ Solid w := by
  rw [Spans.string] at h
  split at h
  · cases h
  · rename_i e hexpect
    obtain ⟨f, ⟨w, hread⟩, hclose⟩ := exists_quote_of_stringBody h
    rw [expect] at hexpect
    split at hexpect
    · rename_i y g hnext
      split at hexpect
      · rename_i hquote
        obtain rfl := Except.ok.inj hexpect
        subst hquote
        have hbody : g.Reads (w ++ ['"']) d := Reads.concat hread hclose
        exact ⟨_, hbody.cons hnext, solid_enclosed (by decide) (by decide) w⟩
      · exact absurd hexpect reject_ne_ok
    · exact absurd hexpect reject_ne_ok

theorem solid_number {c d : Cursor} {x : Char} (hnext : c.next? = some (x, d))
    (hx : isNumberCharacter x = true) :
    ∃ w, c.Reads w (c.skipWhile isNumberCharacter) ∧ Solid w := by
  refine ⟨c.rest.takeWhile isNumberCharacter, ⟨List.takeWhile_append_dropWhile.symm, rfl⟩, ?_⟩
  refine solid_of_all ?_ fun y hy =>
    not_whiteSpace_of_isNumberCharacter (List.mem_takeWhile_imp hy)
  rw [(next?_eq_some hnext).1, List.takeWhile_cons_of_pos hx]
  exact List.cons_ne_nil _ _

/-! ### Values -/

/-- Between two places the span covers a solid text. -/
def Between (c d : Cursor) (span : Span) : Prop :=
  ∃ a b w, c.Reaches a ∧ a.Reads w b ∧ Solid w ∧ b.Reaches d ∧ span = ⟨a.offset, b.offset⟩

theorem Between.mono {c c' d d' : Cursor} {span : Span} (h : Between c d span)
    (hc : c'.Reaches c) (hd : d.Reaches d') : Between c' d' span := by
  obtain ⟨a, b, w, ha, hw, hsolid, hb, rfl⟩ := h
  exact ⟨a, b, w, hc.trans ha, hw, hsolid, hb.trans hd, rfl⟩

theorem Between.bounds {c d : Cursor} {span : Span} (h : Between c d span) :
    c.offset ≤ span.start ∧ span.start < span.stop ∧ span.stop ≤ d.offset := by
  obtain ⟨a, b, w, ha, hw, hsolid, hb, rfl⟩ := h
  have hlength : 0 < w.length := List.length_pos_iff.mpr hsolid.nonempty
  have hread := hw.2
  exact ⟨ha.offset_le, by dsimp only; omega, hb.offset_le⟩

/-- What has been recorded on the way from one place to another: spans between these places, of
which any two nest. -/
structure Lays (s t : State) : Prop where
  reaches : s.2.Reaches t.2
  laid : ∃ new, t.1 = new ++ s.1 ∧ (∀ entry ∈ new, Between s.2 t.2 entry.2) ∧
    new.Pairwise fun a b => a.2.Nests b.2

theorem Lays.of_reaches {spans : Entries Span} {c d : Cursor} (h : c.Reaches d) :
    Lays (spans, c) (spans, d) := ⟨h, [], rfl, by simp, .nil⟩

/-- What is recorded first lies before what is recorded later. -/
theorem Lays.trans {s t u : State} (h : Lays s t) (h' : Lays t u) : Lays s u := by
  obtain ⟨new, hnew, hbetween, hnests⟩ := h.laid
  obtain ⟨more, hmore, hbetween', hnests'⟩ := h'.laid
  refine ⟨h.reaches.trans h'.reaches, more ++ new, ?_, ?_, ?_⟩
  · rw [hmore, hnew, List.append_assoc]
  · refine List.forall_mem_append.mpr ⟨fun entry hentry => ?_, fun entry hentry => ?_⟩
    · exact (hbetween' entry hentry).mono h.reaches (.refl _)
    · exact (hbetween entry hentry).mono (.refl _) h'.reaches
  · refine List.pairwise_append.mpr ⟨hnests', hnests, fun a ha b hb => .inl (.inr ?_)⟩
    exact Nat.le_trans (hbetween b hb).bounds.2.2 (hbetween' a ha).bounds.1

section Finishing

variable {pointer : String} {spans more : Entries Span} {c d : Cursor}

/-- A value without parts records its own span. -/
theorem lays_leaf {w : List Char} (hw : c.Reads w d) (hsolid : Solid w) :
    Lays (spans, c) ((pointer, ⟨c.offset, d.offset⟩) :: spans, d) :=
  ⟨hw.reaches, [(pointer, ⟨c.offset, d.offset⟩)], rfl,
    by simpa using ⟨c, d, w, .refl c, hw, hsolid, .refl d, rfl⟩, List.pairwise_singleton _ _⟩

/-- A value in brackets records its own span around the spans of its parts. -/
theorem lays_bracket {a b : Cursor} {x y : Char} (hx : Text.isWhiteSpace x = false)
    (hy : Text.isWhiteSpace y = false) (hopen : c.next? = some (x, a))
    (h : Lays (spans, a) (more, b)) (hclose : b.next? = some (y, d)) :
    Lays (spans, c) ((pointer, ⟨c.offset, d.offset⟩) :: more, d) := by
  obtain ⟨new, hnew, hbetween, hnests⟩ := h.laid
  obtain ⟨w, hw⟩ := h.reaches
  have hread : c.Reads (x :: (w ++ [y])) d := (Reads.concat hw hclose).cons hopen
  have hopened := (next?_eq_some hopen).2
  have hclosed := (next?_eq_some hclose).2
  refine ⟨hread.reaches, (pointer, ⟨c.offset, d.offset⟩) :: new, ?_, ?_, ?_⟩
  · exact congrArg ((pointer, (⟨c.offset, d.offset⟩ : Span)) :: ·) hnew
  · refine List.forall_mem_cons.mpr ⟨?_, fun entry hentry => ?_⟩
    · exact ⟨c, d, _, .refl c, hread, solid_enclosed hx hy w, .refl d, rfl⟩
    · exact (hbetween entry hentry).mono (reaches_next? hopen) (reaches_next? hclose)
  · refine .cons (fun entry hentry => .inr (.inr ?_)) hnests
    obtain ⟨hstart, -, hstop⟩ := (hbetween entry hentry).bounds
    exact ⟨by dsimp only at hstart ⊢; omega, by dsimp only at hstop ⊢; omega⟩

end Finishing

section Loops

variable {item : String → State → Except Error State} {pointer : String}

theorem lays_items (hitem : ∀ pointer s t, item pointer s = .ok t → Lays s t)
    {fuel index : Nat} {s t : State} (h : Spans.items item pointer fuel index s = .ok t) :
    ∃ e, Lays s (t.1, e) ∧ e.next? = some (']', t.2) := by
  induction fuel generalizing index s with
  | zero => cases h
  | succ fuel ih =>
      rw [Spans.items] at h
      split at h
      · cases h
      · rename_i spans c hfirst
        have hskip : Lays (spans, c) (spans, c.skipBlank) := .of_reaches c.reaches_skipBlank
        have hitem := (hitem _ _ _ hfirst).trans hskip
        dsimp only at h
        split at h
        · rename_i hnext
          obtain ⟨e, hrest, hclose⟩ := ih h
          exact ⟨e, hitem.trans ((Lays.of_reaches (reaches_next? hnext)).trans hrest), hclose⟩
        · rename_i hnext
          obtain rfl := Except.ok.inj h
          exact ⟨_, hitem, hnext⟩
        · exact absurd h reject_ne_ok

theorem lays_members (hitem : ∀ pointer s t, item pointer s = .ok t → Lays s t)
    {fuel : Nat} {s t : State} (h : Spans.members item pointer fuel s = .ok t) :
    ∃ e, Lays s (t.1, e) ∧ e.next? = some ('}', t.2) := by
  induction fuel generalizing s with
  | zero => cases h
  | succ fuel ih =>
      obtain ⟨spans, c⟩ := s
      rw [Spans.members] at h
      split at h
      · cases h
      · rename_i key d hkey
        have hname := c.reaches_skipBlank.trans (reaches_string hkey)
        split at h
        · cases h
        · rename_i e hcolon
          have hbehind := d.reaches_skipBlank.trans (reaches_expect hcolon)
          split at h
          · cases h
          · rename_i more f hfirst
            have hskip : Lays (more, f) (more, f.skipBlank) := .of_reaches f.reaches_skipBlank
            have hmember : Lays (spans, c) (more, f.skipBlank) :=
              (Lays.of_reaches (hname.trans hbehind)).trans ((hitem _ _ _ hfirst).trans hskip)
            dsimp only at h
            split at h
            · rename_i hnext
              obtain ⟨g, hrest, hclose⟩ := ih h
              exact ⟨g, hmember.trans ((Lays.of_reaches (reaches_next? hnext)).trans hrest), hclose⟩
            · rename_i hnext
              obtain rfl := Except.ok.inj h
              exact ⟨_, hmember, hnext⟩
            · exact absurd h reject_ne_ok

end Loops

section Values

variable {fuel : Nat} {pointer : String} {spans : Entries Span} {c d : Cursor} {x : Char}

theorem lays_valueFrom {t : State}
    (hvalue : ∀ pointer s t, Spans.value fuel pointer s = .ok t → Lays s t)
    (hnext : c.next? = some (x, d)) (h : valueFrom fuel pointer spans c x d = .ok t) :
    Lays (spans, c) t := by
  have hblank : Lays (spans, d) (spans, d.skipBlank) := .of_reaches d.reaches_skipBlank
  have hbracket : ∀ {r y}, Text.isWhiteSpace x = false → Text.isWhiteSpace y = false →
      (∀ s, r = .ok s → ∃ e, Lays (spans, d.skipBlank) (s.1, e) ∧ e.next? = some (y, s.2)) →
      finish pointer c.offset r = .ok t → Lays (spans, c) t := by
    intro r y hx hy hinside hfinish
    obtain ⟨s, hs, rfl⟩ := map_eq_ok hfinish
    obtain ⟨e, hparts, hend⟩ := hinside s hs
    exact lays_bracket hx hy hnext (hblank.trans hparts) hend
  have hempty : ∀ {e y}, d.skipBlank.next? = some (y, e) →
      ∀ s : State, (.ok (spans, e) : Except Error State) = .ok s →
      ∃ f, Lays (spans, d.skipBlank) (s.1, f) ∧ f.next? = some (y, s.2) := by
    intro e y hend s hs
    obtain rfl := Except.ok.inj hs
    exact ⟨d.skipBlank, .of_reaches (.refl _), hend⟩
  have hword : ∀ {name w}, w ≠ [] → (w.all fun x => !Text.isWhiteSpace x) = true →
      finish pointer c.offset ((literal name w c).map fun e => (spans, e)) = .ok t →
      Lays (spans, c) t := by
    intro name w hne hw hfinish
    obtain ⟨s, hs, rfl⟩ := map_eq_ok hfinish
    obtain ⟨e, he, rfl⟩ := map_eq_ok hs
    have hsolid : ∀ x ∈ w, Text.isWhiteSpace x = false := by simpa using hw
    exact lays_leaf (reads_literal he) (solid_of_all hne hsolid)
  rw [valueFrom] at h
  split at h
  · rename_i hbrace
    subst hbrace
    split at h
    · rename_i hend
      exact hbracket (by decide) (by decide) (hempty hend) h
    · exact hbracket (by decide) (by decide) (fun _ hs => lays_members hvalue hs) h
  split at h
  · rename_i hopen
    subst hopen
    split at h
    · rename_i hend
      exact hbracket (by decide) (by decide) (hempty hend) h
    · exact hbracket (by decide) (by decide) (fun _ hs => lays_items hvalue hs) h
  split at h
  · obtain ⟨s, hs, rfl⟩ := map_eq_ok h
    obtain ⟨⟨key, e⟩, he, rfl⟩ := map_eq_ok hs
    obtain ⟨w, hw, hsolid⟩ := solid_string he
    exact lays_leaf hw hsolid
  split at h
  · exact hword (by decide) rfl h
  split at h
  · exact hword (by decide) rfl h
  split at h
  · exact hword (by decide) rfl h
  split at h
  · rename_i hnumber
    obtain ⟨s, hs, rfl⟩ := map_eq_ok h
    obtain rfl := Except.ok.inj hs
    have hx : isNumberCharacter x = true := by
      simp only [isNumberCharacter, Bool.or_eq_true, decide_eq_true_eq] at hnumber ⊢
      tauto
    obtain ⟨w, hw, hsolid⟩ := solid_number hnext hx
    exact lays_leaf hw hsolid
  · cases h

theorem lays_value {s t : State} (h : Spans.value fuel pointer s = .ok t) : Lays s t := by
  induction fuel generalizing pointer s t with
  | zero => cases h
  | succ fuel ih =>
      obtain ⟨spans, c⟩ := s
      cases hnext : c.skipBlank.next? with
      | none =>
          simp only [Spans.value, hnext] at h
          cases h
      | some first =>
          obtain ⟨x, d⟩ := first
          rw [value_eq_valueFrom hnext] at h
          have hskip : Lays (spans, c) (spans, c.skipBlank) := .of_reaches c.reaches_skipBlank
          exact hskip.trans (lays_valueFrom (fun _ _ _ => ih) hnext h)

end Values

/-! ### Whole texts -/

section Texts

variable {text : String} {span : Span} {c d : Cursor} {x : Char}

/-- A span that lies in a text starts and ends with characters that are no white space. -/
theorem Between.edges (h : Between (ofText text) d span) :
    (∃ x, text.toList[span.start]? = some x ∧ Text.isWhiteSpace x = false) ∧
      ∃ x, text.toList[span.stop - 1]? = some x ∧ Text.isWhiteSpace x = false := by
  obtain ⟨a, b, w, ha, ⟨hrest, hoffset⟩, hsolid, -, rfl⟩ := h
  have hchars := ha.getElem?
  obtain ⟨x, first, hw⟩ := List.exists_cons_of_ne_nil hsolid.nonempty
  obtain ⟨last, y, hw'⟩ := (List.eq_nil_or_concat w).resolve_left hsolid.nonempty
  rw [List.concat_eq_append] at hw'
  constructor
  · refine ⟨x, ?_, hsolid.starts x (by rw [hw]; rfl)⟩
    rw [hchars, hrest, hw]
    rfl
  · refine ⟨y, ?_, hsolid.ends y (by rw [hw', List.getLast?_concat]; rfl)⟩
    -- The last character is the next one at the place in front of it.
    have hplace : (ofText text).Reaches ⟨a.offset + last.length, y :: b.rest⟩ :=
      ha.trans ⟨last, by rw [hrest, hw', List.append_assoc, List.singleton_append], rfl⟩
    have hlast : b.offset - 1 = a.offset + last.length := by
      rw [hoffset, hw', List.length_append, List.length_singleton]
      omega
    rw [hlast]
    exact hplace.getElem?

theorem offset_le_length (h : (ofText text).Reaches c) : c.offset ≤ text.length := by
  obtain ⟨read, hrest, hoffset⟩ := h
  change text.toList = read ++ c.rest at hrest
  change c.offset = 0 + read.length at hoffset
  rw [← String.length_toList, hrest, List.length_append]
  omega

/-- Before the place behind leading blanks there is nothing else. -/
theorem le_of_not_blank_start {i : Nat} (hi : text.toList[i]? = some x) (hx : isBlank x = false) :
    (ofText text).skipBlank.offset ≤ i := by
  apply Nat.le_of_not_lt
  intro hlt
  change i < 0 + (text.toList.takeWhile isBlank).length at hlt
  have hlt : i < (text.toList.takeWhile isBlank).length := by omega
  rw [← List.takeWhile_append_dropWhile (p := isBlank) (l := text.toList),
    List.getElem?_append_left hlt] at hi
  have hblank := List.mem_takeWhile_imp (List.mem_of_getElem? hi)
  rw [hx] at hblank
  cases hblank

/-- Behind a place with nothing but blanks there is nothing else. -/
theorem lt_of_not_blank_end (h : (ofText text).Reaches c) (hc : c.skipBlank.rest = []) {i : Nat}
    (hi : text.toList[i]? = some x) (hx : isBlank x = false) : i < c.offset := by
  obtain ⟨read, hrest, hoffset⟩ := h
  change text.toList = read ++ c.rest at hrest
  change c.offset = 0 + read.length at hoffset
  apply Nat.lt_of_not_le
  intro hle
  rw [hrest, List.getElem?_append_right (by omega)] at hi
  have hblank := List.dropWhile_eq_nil_iff.mp hc x (List.mem_of_getElem? hi)
  rw [hx] at hblank
  cases hblank

/-- The span of a whole value is recorded last. -/
theorem exists_finish_of_valueFrom {fuel : Nat} {pointer : String} {spans : Entries Span}
    {t : State} (h : valueFrom fuel pointer spans c x d = .ok t) :
    ∃ r, finish pointer c.offset r = .ok t := by
  rw [valueFrom] at h
  split_ifs at h
  · split at h <;> exact ⟨_, h⟩
  · split at h <;> exact ⟨_, h⟩
  · exact ⟨_, h⟩
  · exact ⟨_, h⟩
  · exact ⟨_, h⟩
  · exact ⟨_, h⟩
  · exact ⟨_, h⟩
  · cases h

theorem value_eq_cons {fuel : Nat} {pointer : String} {spans : Entries Span} {t : State}
    (h : Spans.value fuel pointer (spans, c) = .ok t) :
    ∃ more, t.1 = (pointer, ⟨c.skipBlank.offset, t.2.offset⟩) :: more := by
  cases fuel with
  | zero => cases h
  | succ fuel =>
      cases hnext : c.skipBlank.next? with
      | none =>
          simp only [Spans.value, hnext] at h
          cases h
      | some first =>
          rw [value_eq_valueFrom hnext] at h
          obtain ⟨r, hr⟩ := exists_finish_of_valueFrom h
          obtain ⟨s, -, rfl⟩ := map_eq_ok hr
          exact ⟨s.1, rfl⟩

end Texts

/-- **Spans nest.** In every text that is scanned, whether or not it is JSON and whether or not its
keys are repeated, each span is a range of the text that starts and ends with a character that is no
white space. The spans of two pointers have no character in common, or one lies strictly inside the
other, and the span of the whole value misses nothing but blanks. -/
theorem spans_nest {text : String} {spans : Spans} (h : Spans.parse text = .ok spans) :
    (∀ pointer span, spans.find? pointer = some span →
      span.start < span.stop ∧ span.stop ≤ text.length ∧
      (∃ x, text.toList[span.start]? = some x ∧ Text.isWhiteSpace x = false) ∧
      ∃ x, text.toList[span.stop - 1]? = some x ∧ Text.isWhiteSpace x = false) ∧
    (∀ p q a b, p ≠ q → spans.find? p = some a → spans.find? q = some b → a.Nests b) ∧
    ∃ root, spans.find? "" = some root ∧
      ∀ i x, text.toList[i]? = some x → Cursor.isBlank x = false →
        root.start ≤ i ∧ i < root.stop := by
  rw [Spans.parse] at h
  split at h
  · cases h
  rename_i entries d hvalue
  dsimp only at h
  split at h
  swap
  · cases h
  rename_i hend
  obtain rfl := Except.ok.inj h
  have hlays := lays_value hvalue
  obtain ⟨more, hroot⟩ := value_eq_cons hvalue
  obtain ⟨new, hnew, hbetween, hnests⟩ := hlays.laid
  rw [List.append_nil] at hnew
  subst hnew
  refine ⟨fun pointer span hspan => ?_, fun p q a b hne ha hb => ?_,
    ⟨(ofText text).skipBlank.offset, d.offset⟩, ?_, fun i x hi hx => ?_⟩
  · have hlies := hbetween _ (Entries.mem_of_find? hspan)
    obtain ⟨-, hlt, hle⟩ := hlies.bounds
    exact ⟨hlt, hle.trans (offset_le_length hlays.reaches), hlies.edges⟩
  · have hsymm : Std.Symm fun a b : String × Span => a.2.Nests b.2 := ⟨fun _ _ h => h.symm⟩
    exact hnests.forall (Entries.mem_of_find? ha) (Entries.mem_of_find? hb)
      fun heq => hne (Prod.mk.inj heq).1
  · change entries = _ at hroot
    rw [hroot]
    rfl
  · have hrest : d.skipBlank.rest = [] := List.isEmpty_iff.mp hend
    exact ⟨le_of_not_blank_start hi hx, lt_of_not_blank_end hlays.reaches hrest hi hx⟩

/-- No JSON, for its numbers and its surrogate. Of both values of the key `a` spans are left. -/
def overwrittenText : String := " \x7b\"a\":\x7b\"b\":[-+]\x7d,\"a\":[\"\\ud800\",1e]\x7d\n"

theorem spans_nest_overwritten :
    ∃ spans, Spans.parse overwrittenText = .ok spans ∧
      spans.find? "/a" = some ⟨21, 34⟩ ∧ spans.find? "/a/b" = some ⟨11, 15⟩ ∧
      spans.find? "/a/b/0" = some ⟨12, 14⟩ ∧ spans.find? "/a/1" = some ⟨31, 33⟩ ∧
      Span.Nests ⟨21, 34⟩ ⟨11, 15⟩ ∧ Span.Nests ⟨21, 34⟩ ⟨31, 33⟩ := by
  have hread : ((Spans.parse overwrittenText).toOption.map fun spans =>
      (spans.find? "/a", spans.find? "/a/b", spans.find? "/a/b/0", spans.find? "/a/1")) =
        some (some ⟨21, 34⟩, some ⟨11, 15⟩, some ⟨12, 14⟩, some ⟨31, 33⟩) := by
    decide +kernel
  obtain ⟨spans, hspans, hfound⟩ := Option.map_eq_some_iff.mp hread
  simp only [Prod.mk.injEq] at hfound
  obtain ⟨ha, hb, hinner, hlast⟩ := hfound
  have hparse := eq_ok_of_toOption hspans
  obtain ⟨-, hnests, -⟩ := spans_nest hparse
  exact ⟨spans, hparse, ha, hb, hinner, hlast, hnests _ _ _ _ (by decide) ha hb,
    hnests _ _ _ _ (by decide) ha hlast⟩

end Json.Spans

end ResourceApi
