import ResourceApi.Proofs.Json.Causes
import ResourceApi.Proofs.Json.Overlooking

/-!
Whatever a typed reader reads is passed over. Passing over a value does not depend on the brackets
that are open around it, so values that are passed over make up arrays and objects that are. Fields
of records are values, and what no field asks for is passed over anyway.
-/

namespace ResourceApi.Json

open Reader

/-! ### Lengths -/

section Lengths

variable {s t : List Char}

theorem length_of_word {w : List Char} (h : word w s = .ok ((), t)) :
    s.length = w.length + t.length := by
  rw [word_eq_ok h, List.length_append]

theorem length_of_hexUnit {n : Nat} (h : hexUnit s = .ok (n, t)) : t.length < s.length := by
  obtain ⟨ds, rfl, hds⟩ := hexUnit_eq_ok h
  have hlength := hds.length_eq
  rw [List.length_append]
  omega

theorem length_of_skipString {fuel : Nat} (h : skipString fuel s = .ok ((), t)) :
    t.length < s.length := by
  fun_induction skipString fuel s <;> grind [→ length_of_hexUnit]

theorem length_dropWhile_le (p : Char → Bool) (s : List Char) :
    (s.dropWhile p).length ≤ s.length :=
  (List.dropWhile_suffix p).length_le

theorem length_of_skipExponent? (h : skipExponent? s = .ok ((), t)) : t.length ≤ s.length := by
  unfold skipExponent? skipExponent at h
  grind [length_dropWhile_le]

theorem length_of_skipFraction (h : skipFraction s = .ok ((), t)) : t.length ≤ s.length := by
  unfold skipFraction at h
  grind [length_dropWhile_le, → length_of_skipExponent?]

theorem length_of_skipNumber (h : skipNumber s = .ok ((), t)) : t.length < s.length := by
  cases s with
  | nil => cases h
  | cons c s =>
      rw [skipNumber_cons] at h
      grind [length_dropWhile_le, → length_of_skipFraction]

theorem length_of_skipKey (h : skipKey s = .ok ((), t)) : t.length < s.length := by
  have hblank := length_dropWhile_le isBlank s
  unfold skipKey skipBlank at h
  grind [→ length_of_skipString, → length_lt_of_colon]

theorem length_skipBlank_le (s : List Char) : (skipBlank s).length ≤ s.length :=
  length_dropWhile_le isBlank s

end Lengths

/-! ### Under other brackets -/

section Frames

variable {frame : Frame} {frames : List Frame} {fuel : Nat} {comma : Bool} {s t u out : List Char}
  {c : Char}

/-- A bracket is entered alike whatever is around it. -/
theorem enter_eq_ok (h : enter frame frames s = .ok (frame :: frames, t)) :
    t.length ≤ s.length ∧ ∀ outer, enter frame outer s = .ok (frame :: outer, t) := by
  cases frame with
  | array =>
      obtain ⟨-, rfl⟩ := Prod.mk.inj (Except.ok.inj h)
      exact ⟨Nat.le_refl _, fun _ => rfl⟩
  | object =>
      obtain ⟨⟨⟨⟩, v⟩, hkey, heq⟩ := map_eq_ok h
      obtain ⟨-, rfl⟩ := Prod.mk.inj heq
      refine ⟨Nat.le_of_lt (length_of_skipKey hkey), fun outer => ?_⟩
      rw [enter, hkey]
      rfl

theorem skipValues_of_enter (h : enter frame frames s = .ok (frame :: frames, t)) :
    proceed fuel (enter frame frames s) = skipValues fuel (frame :: frames) t := by
  rw [h]
  rfl

/-- The value at the front is passed over, whatever brackets are open around it. -/
def PassesOver (s out : List Char) : Prop :=
  ∃ n, n + out.length < s.length ∧
    ∀ fuel frames, skipValues (n + 1 + fuel) frames s = goOn true fuel frames out

theorem goOn_frames {inner : List Frame}
    (hskip : ∀ inner s, skipValues fuel inner s = .ok ((), out) → ∃ n, n + out.length < s.length ∧
      ∀ fuel frames, skipValues (n + 1 + fuel) (inner ++ frames) s = goOn true fuel frames out)
    (hcomma : inner = [] → comma = true) (h : goOn comma fuel inner s = .ok ((), out)) :
    ∃ n, n + out.length ≤ s.length ∧
      ∀ fuel frames, goOn comma (n + fuel) (inner ++ frames) s = goOn true fuel frames out := by
  induction inner generalizing comma s with
  | nil =>
      obtain rfl := hcomma rfl
      rw [goOn_nil] at h
      obtain ⟨-, rfl⟩ := Prod.mk.inj (Except.ok.inj h)
      exact ⟨0, by omega, fun fuel frames => by rw [Nat.zero_add, List.nil_append]⟩
  | cons frame inner ih =>
      have hblank := length_skipBlank_le s
      rcases goOn_eq_ok h with ⟨u, hs, hrest⟩ | ⟨c, u, v, hs, hc, hvalue, hstep⟩
      · obtain ⟨n, hn, hgo⟩ := ih (fun _ => rfl) hrest
        rw [hs, List.length_cons] at hblank
        refine ⟨n, by omega, fun fuel frames => ?_⟩
        rw [List.cons_append, goOn_close comma frame hs, hgo]
      · obtain ⟨n, hn, hgo⟩ := hskip _ v hvalue
        rw [hs, List.length_cons] at hblank
        rcases hstep with ⟨rfl, hentered⟩ | ⟨rfl, rfl, hentered⟩
        · obtain ⟨hlength, henter⟩ := enter_eq_ok hentered
          rw [List.length_cons] at hlength
          refine ⟨n + 1, by omega, fun fuel frames => ?_⟩
          rw [List.cons_append, goOn_eq, skipBetween_cons false frame _ hs hc,
            if_neg (by decide), skipValues_of_enter (henter _), ← List.cons_append, hgo]
        · obtain ⟨hlength, henter⟩ := enter_eq_ok hentered
          refine ⟨n + 1, by omega, fun fuel frames => ?_⟩
          rw [List.cons_append, goOn_eq, skipBetween_cons true frame _ hs hc,
            if_pos rfl, if_pos rfl, skipValues_of_enter (henter _), ← List.cons_append, hgo]

/-- A value without parts is passed over at once, and a bracket is opened. -/
theorem skipValues_eq_ok (h : skipValues (fuel + 1) frames s = .ok ((), out)) :
    (∃ t, t.length < s.length ∧ goOn true fuel frames t = .ok ((), out) ∧
      ∀ fuel frames, skipValues (fuel + 1) frames s = goOn true fuel frames t) ∨
    ∃ frame t, t.length < s.length ∧ goOn false fuel (frame :: frames) t = .ok ((), out) ∧
      ∀ fuel frames, skipValues (fuel + 1) frames s = goOn false fuel (frame :: frames) t := by
  have hblank := length_skipBlank_le s
  cases hs : skipBlank s with
  | nil =>
      rw [skipValues, hs] at h
      cases h
  | cons c rest =>
      rw [hs, List.length_cons] at hblank
      have hscalar : ∀ {r : Except Failure (Unit × List Char)},
          (∀ t, r = .ok ((), t) → t.length ≤ rest.length) →
          (∀ fuel frames, skipValues (fuel + 1) frames s = goOnBehind fuel frames r) →
          ∃ t, t.length < s.length ∧ goOn true fuel frames t = .ok ((), out) ∧
            ∀ fuel frames, skipValues (fuel + 1) frames s = goOn true fuel frames t := by
        intro r hr hstep
        rw [hstep] at h
        obtain ⟨t, rfl, hrest⟩ := goOnBehind_eq_ok h
        have hlength := hr t rfl
        exact ⟨t, by omega, hrest, fun fuel frames => hstep fuel frames⟩
      have hbracket : ∀ {frame : Frame},
          (∀ fuel frames, skipValues (fuel + 1) frames s = goOn false fuel (frame :: frames) rest) →
          ∃ frame t, t.length < s.length ∧ goOn false fuel (frame :: frames) t = .ok ((), out) ∧
            ∀ fuel frames, skipValues (fuel + 1) frames s = goOn false fuel (frame :: frames) t :=
        fun {frame} hstep => ⟨frame, rest, by omega, hstep fuel frames ▸ h, hstep⟩
      have hword : ∀ {w t}, word w rest = .ok ((), t) → t.length ≤ rest.length := by
        intro w t hw
        have hlength := length_of_word hw
        omega
      by_cases hnull : c = 'n'
      · subst hnull
        exact .inl (hscalar (fun _ => hword) fun _ _ => by rw [skipValues, hs]; rfl)
      by_cases htrue : c = 't'
      · subst htrue
        exact .inl (hscalar (fun _ => hword) fun _ _ => by rw [skipValues, hs]; rfl)
      by_cases hfalse : c = 'f'
      · subst hfalse
        exact .inl (hscalar (fun _ => hword) fun _ _ => by rw [skipValues, hs]; rfl)
      by_cases hminus : c = '-'
      · subst hminus
        exact .inl (hscalar (fun _ ht => Nat.le_of_lt (length_of_skipNumber ht))
          fun _ _ => by rw [skipValues, hs]; rfl)
      by_cases hdigit : isDigit c = true
      · have hnumber : ∀ t, skipNumber (c :: rest) = .ok ((), t) → t.length ≤ rest.length :=
          fun t ht => Nat.le_of_lt_succ (length_of_skipNumber ht)
        refine .inl (hscalar hnumber fun fuel frames => ?_)
        rw [skipValues, hs]
        simp only [hnull, htrue, hfalse, hminus, hdigit, if_false, if_true]
        rfl
      by_cases hquote : c = '"'
      · subst hquote
        exact .inl (hscalar (fun _ ht => Nat.le_of_lt (length_of_skipString ht))
          fun _ _ => by rw [skipValues, hs]; rfl)
      by_cases harray : c = '['
      · subst harray
        exact .inr (hbracket fun _ _ => by rw [skipValues, hs]; rfl)
      by_cases hobject : c = '{'
      · subst hobject
        exact .inr (hbracket fun _ _ => by rw [skipValues, hs]; rfl)
      rw [skipValues, hs] at h
      simp only [hnull, htrue, hfalse, hminus, hdigit, hquote, harray, hobject, if_false] at h
      cases h

/-- Passing over a value does not depend on the brackets around those that it opens itself. -/
theorem skipValues_frames (inner : List Frame) (h : skipValues fuel inner s = .ok ((), out)) :
    ∃ n, n + out.length < s.length ∧
      ∀ fuel frames, skipValues (n + 1 + fuel) (inner ++ frames) s = goOn true fuel frames out := by
  induction fuel generalizing inner s with
  | zero => cases h
  | succ fuel ih =>
      have hskip := fun inner s => @ih s inner
      rcases skipValues_eq_ok h with ⟨t, hlength, hrest, hstep⟩ | ⟨frame, t, hlength, hrest, hstep⟩
      · obtain ⟨n, hn, hgo⟩ := goOn_frames hskip (fun _ => rfl) hrest
        refine ⟨n, by omega, fun fuel frames => ?_⟩
        rw [Nat.add_right_comm, hstep, hgo]
      · obtain ⟨n, hn, hgo⟩ := goOn_frames hskip (by simp) hrest
        refine ⟨n, by omega, fun fuel frames => ?_⟩
        rw [Nat.add_right_comm, hstep, ← List.cons_append, hgo]

theorem passesOver_of_skipValue (h : skipValue s = .ok ((), out)) : PassesOver s out :=
  skipValues_frames [] h

theorem PassesOver.skipValue (h : PassesOver s out) : skipValue s = .ok ((), out) := by
  obtain ⟨n, hn, hskip⟩ := h
  obtain ⟨fuel, hfuel⟩ : ∃ fuel, s.length + 1 = n + 1 + fuel := ⟨s.length - n, by omega⟩
  rw [Reader.skipValue, hfuel, hskip fuel [], goOn_nil]

end Frames

/-! ### What is made up of values -/

/-- From a place inside a bracket it goes on to behind the closing one. -/
def PassesOut (frame : Frame) (comma : Bool) (s out : List Char) : Prop :=
  ∃ n, n + out.length < s.length ∧
    ∀ fuel frames, goOn comma (n + fuel) (frame :: frames) s = goOn true fuel frames out

section Parts

variable {frame : Frame} {comma first : Bool} {s t u v out : List Char}

theorem passesOver_of_step (hlength : out.length < s.length)
    (h : ∀ fuel frames, skipValues (fuel + 1) frames s = goOn true fuel frames out) :
    PassesOver s out :=
  ⟨0, by omega, fun fuel frames => by rw [Nat.zero_add, Nat.add_comm, h]⟩

theorem PassesOver.skipBlank (h : PassesOver (skipBlank s) out) : PassesOver s out := by
  obtain ⟨n, hn, hskip⟩ := h
  have hlength := length_skipBlank_le s
  obtain ⟨b, hs, hb⟩ := exists_blank s
  refine ⟨n, by omega, fun fuel frames => ?_⟩
  rw [← hskip, Nat.add_right_comm, hs, skipValues_append hb, ← hs]

/-- A bracket that is passed out of is passed over. -/
theorem PassesOut.passesOver
    (hopen : ∀ fuel frames, skipValues (fuel + 1) frames s = goOn false fuel (frame :: frames) t)
    (hlength : t.length < s.length) (h : PassesOut frame false t out) : PassesOver s out := by
  obtain ⟨n, hn, hgo⟩ := h
  refine ⟨n, by omega, fun fuel frames => ?_⟩
  rw [Nat.add_right_comm, hopen, hgo]

theorem passesOut_close (hs : Reader.skipBlank s = Frame.close frame :: out) :
    PassesOut frame comma s out := by
  have hlength := length_skipBlank_le s
  rw [hs, List.length_cons] at hlength
  exact ⟨0, by omega, fun fuel frames => by rw [Nat.zero_add, goOn_close comma frame hs]⟩

/-- A value is passed over, and behind it the bracket is passed out of. -/
theorem PassesOut.behind
    (hstep : ∀ fuel frames, goOn comma (fuel + 1) (frame :: frames) s =
      skipValues (fuel + 1) (frame :: frames) t)
    (hlength : t.length ≤ s.length) (hvalue : PassesOver t u) (h : PassesOut frame true u out) :
    PassesOut frame comma s out := by
  obtain ⟨n, hn, hskip⟩ := hvalue
  obtain ⟨m, hm, hgo⟩ := h
  refine ⟨n + 1 + m, by omega, fun fuel frames => ?_⟩
  rw [← hgo, ← hskip, ← Nat.add_assoc, Nat.add_right_comm n 1, Nat.add_right_comm _ 1, hstep]

theorem opens_of_passesOver (h : PassesOver s out) :
    ∃ c t, Reader.skipBlank s = c :: t ∧ Opens c :=
  opens_of_skipValues h.skipValue

theorem passesOut_item (hnext : nextItem first s = .ok (true, t)) (hvalue : PassesOver t u)
    (h : PassesOut .array true u out) : PassesOut .array (!first) s out := by
  refine h.behind (fun fuel frames => ?_) (length_le_of_nextItem hnext) hvalue
  obtain ⟨c, v, ht, hc⟩ := opens_of_passesOver hvalue
  obtain ⟨b, htext, hb⟩ := exists_blank t
  rw [ht] at htext
  subst htext
  rw [skipValues_append hb]
  rcases nextItem_eq_ok hnext with ⟨hmore, -⟩ | ⟨-, rfl, d, hd, rfl⟩ | ⟨-, rfl, d, e, hd, he, rfl⟩
  · cases hmore
  · rw [← List.append_assoc]
    exact goOn_item (List.forall_mem_append.mpr ⟨hd, hb⟩) hc
  · rw [← List.append_assoc]
    exact (goOn_nextItem hd).trans (skipValues_append (List.forall_mem_append.mpr ⟨he, hb⟩) _)

theorem passesOut_member {key : String} (hnext : nextKey first s = .ok (some key, t))
    (hcolon : colon t = .ok ((), u)) (hvalue : PassesOver u v) (h : PassesOut .object true v out) :
    PassesOut .object (!first) s out := by
  have hlength := length_le_of_nextKey hnext
  have hbehind := length_lt_of_colon hcolon
  refine h.behind (fun fuel frames => ?_) (by omega) hvalue
  obtain ⟨c, rfl, hc⟩ := colon_eq_ok hcolon
  rcases nextKey_eq_ok hnext with ⟨hkey, -⟩ | ⟨k, q, -, hq, rfl, d, hd, rfl⟩ |
    ⟨k, q, -, hq, rfl, d, e, hd, he, rfl⟩
  · cases hkey
  · exact goOn_member hd hq hc
  · exact goOn_nextMember hd he hq hc

end Parts

/-! ### Typed readers -/

/-- Whatever a reader reads can be passed over. -/
def Passable {α : Type} (reader : Reader α) : Prop :=
  ∀ ⦃s a out⦄, reader s = .ok (a, out) → PassesOver s out

section Scalars

variable {s t out : List Char}

theorem passesOver_word {c : Char} {w : List Char} (hs : skipBlank s = c :: t)
    (hstep : ∀ fuel frames rest, skipValues (fuel + 1) frames (c :: (w ++ rest)) =
      goOn true fuel frames rest)
    (h : word w t = .ok ((), out)) : PassesOver s out := by
  obtain rfl := word_eq_ok h
  refine PassesOver.skipBlank (passesOver_of_step ?_ fun fuel frames => ?_)
  · rw [hs, List.length_cons, List.length_append]
    omega
  · rw [hs, hstep]

theorem passable_string (depth : Nat) : Passable (Decoder.string depth) := by
  intro s a out h
  rw [Decoder.string, Decoder.stringAs] at h
  split at h
  · rename_i t hs
    obtain ⟨text, rfl, hq⟩ := string_eq_ok h
    refine PassesOver.skipBlank (passesOver_of_step ?_ fun fuel frames => ?_)
    · rw [hs, List.length_cons, List.length_append]
      omega
    · cases hq with
      | mk hrest =>
          rw [hs, ← skipValues_string blank_nil hrest, List.nil_append]
  · cases h

theorem passable_bool (depth : Nat) : Passable (Decoder.bool depth) := by
  intro s a out h
  rw [Decoder.bool] at h
  split at h
  · rename_i t hs
    obtain ⟨⟨⟨⟩, u⟩, hword, heq⟩ := map_eq_ok h
    obtain ⟨-, rfl⟩ := Prod.mk.inj heq
    exact passesOver_word hs (fun _ _ _ => rfl) hword
  · rename_i t hs
    obtain ⟨⟨⟨⟩, u⟩, hword, heq⟩ := map_eq_ok h
    obtain ⟨-, rfl⟩ := Prod.mk.inj heq
    exact passesOver_word hs (fun _ _ _ => rfl) hword
  · cases h

end Scalars

section Combinators

variable {α β : Type} {depth : Nat} {decoder : Decoder α} {s t out : List Char}

theorem Passable.map {reader : Reader β} (h : Passable reader) (g : β → α) :
    Passable fun s => (reader s).map fun p => (g p.1, p.2) := by
  intro s a out hread
  obtain ⟨⟨b, u⟩, hb, heq⟩ := map_eq_ok hread
  obtain ⟨-, rfl⟩ := Prod.mk.inj heq
  exact h hb

theorem Passable.optional (h : Passable (decoder depth)) : Passable (Decoder.optional decoder depth) := by
  intro s a out hread
  rw [Decoder.optional] at hread
  split at hread
  · rename_i t hs
    obtain ⟨⟨⟨⟩, u⟩, hword, heq⟩ := map_eq_ok hread
    obtain ⟨-, rfl⟩ := Prod.mk.inj heq
    exact passesOver_word hs (fun _ _ _ => rfl) hword
  · exact PassesOver.skipBlank (h.map some hread)

theorem passesOver_array (hs : skipBlank s = '[' :: t) (h : PassesOut .array false t out) :
    PassesOver s out := by
  have hlength := length_skipBlank_le s
  obtain ⟨b, htext, hb⟩ := exists_blank s
  rw [hs, List.length_cons] at hlength
  refine h.passesOver (fun fuel frames => ?_) (by omega)
  rw [htext, hs, skipValues_array hb]

theorem passesOver_object (hs : skipBlank s = '{' :: t) (h : PassesOut .object false t out) :
    PassesOver s out := by
  have hlength := length_skipBlank_le s
  obtain ⟨b, htext, hb⟩ := exists_blank s
  rw [hs, List.length_cons] at hlength
  refine h.passesOver (fun fuel frames => ?_) (by omega)
  rw [htext, hs, skipValues_object hb]

theorem skipBlank_of_nextItem {first : Bool} (h : nextItem first s = .ok (false, t)) :
    skipBlank t = skipBlank s := by
  rcases nextItem_eq_ok h with ⟨-, b, u, hb, rfl, rfl⟩ | ⟨hmore, -⟩ | ⟨hmore, -⟩
  · rw [skipBlank_append hb]
  · cases hmore
  · cases hmore

theorem skipBlank_of_nextKey {first : Bool} (h : nextKey first s = .ok (none, t)) :
    skipBlank t = skipBlank s := by
  rcases nextKey_eq_ok h with ⟨-, b, u, hb, rfl, rfl⟩ | ⟨k, q, hkey, -⟩ | ⟨k, q, hkey, -⟩
  · rw [skipBlank_append hb]
  · cases hkey
  · cases hkey

theorem skipBlank_of_closeObject (h : closeObject s = (none, out)) : skipBlank s = '}' :: out := by
  unfold closeObject at h
  split at h
  · rename_i t hs
    rw [hs, (Prod.mk.inj h).2]
  · cases (Prod.mk.inj h).1
  · cases (Prod.mk.inj h).1
  · cases (Prod.mk.inj h).1

theorem passesOut_of_items {step : β → Reader β} (hstep : ∀ b, Passable (step b)) {limit : Nat}
    {first : Bool} {a b : β} (h : Reader.items step limit first a s = .ok (b, t))
    (hclose : closeArray t = (none, out)) : PassesOut .array (!first) s out := by
  induction limit generalizing first a s with
  | zero => cases h
  | succ limit ih =>
      rw [Reader.items] at h
      split at h
      · cases h
      · rename_i hnext
        obtain ⟨-, rfl⟩ := Prod.mk.inj (Except.ok.inj h)
        refine passesOut_close ?_
        rw [← skipBlank_of_nextItem hnext]
        exact skipBlank_of_closeArray hclose
      · rename_i u hnext
        split at h
        · cases h
        · rename_i hread
          exact passesOut_item hnext (hstep _ hread) (ih h)

theorem Passable.list (h : ∀ depth, Passable (decoder depth)) (depth : Nat) :
    Passable (Decoder.list decoder depth) := by
  intro s a out hread
  rw [Decoder.list] at hread
  split at hread
  · rename_i t hs
    cases depth with
    | zero => cases hread
    | succ depth =>
        obtain ⟨⟨as, u⟩, hbracket, heq⟩ := map_eq_ok hread
        obtain ⟨-, rfl⟩ := Prod.mk.inj heq
        obtain ⟨v, hloop, hclose⟩ := bracketed_eq_ok hbracket
        have hstep : ∀ done, Passable (listStep decoder depth done) := fun done =>
          (h depth).map (· :: done)
        exact passesOver_array hs (passesOut_of_items hstep hloop hclose)
  · cases hread

end Combinators

/-! ### Records -/

section Records

variable {α : Type} {r : Record α} {fields : List (Field α)} {depth : Nat} {s t out : List Char}

/-- What is read behind a key is passed over behind the colon. A field that is read has been seen
from then on, and nothing else. -/
theorem member_eq_ok (hfields : ∀ field ∈ r.fields, ∀ depth a, Passable (field.read depth a))
    {p q : Record.Partial α} {key : String} (h : r.member depth p key s = .ok (q, out)) :
    ∃ t, colon s = .ok ((), t) ∧ PassesOver t out ∧
      ∀ field ∈ r.fields, field.name ∈ q.seen ↔ field.name ∈ p.seen ∨ field.name = key := by
  rw [Record.member] at h
  split at h
  · rename_i hfind
    split at h
    · cases h
    · rename_i t hcolon
      obtain ⟨⟨⟨⟩, u⟩, hskip, heq⟩ := map_eq_ok h
      obtain ⟨rfl, rfl⟩ := Prod.mk.inj heq
      refine ⟨t, hcolon, passesOver_of_skipValue hskip, fun field hfield => ?_⟩
      have hne : field.name ≠ key := by
        simpa using List.find?_eq_none.mp hfind field hfield
      rw [or_iff_left hne]
  · rename_i known hfind
    split at h
    · cases h
    · split at h
      · cases h
      · rename_i t hcolon
        obtain ⟨⟨a, u⟩, hread, heq⟩ := map_eq_ok h
        obtain ⟨rfl, rfl⟩ := Prod.mk.inj heq
        refine ⟨t, hcolon, hfields known (List.mem_of_find?_eq_some hfind) depth _ hread,
          fun field _ => ?_⟩
        rw [List.mem_cons, or_comm]

theorem passesOut_of_members (hfields : ∀ field ∈ r.fields, ∀ depth a, Passable (field.read depth a))
    {limit : Nat} {first : Bool} {p q : Record.Partial α}
    (h : Reader.members (r.member depth) limit first p s = .ok (q, t))
    (hclose : closeObject t = (none, out)) : PassesOut .object (!first) s out := by
  induction limit generalizing first p s with
  | zero => cases h
  | succ limit ih =>
      rw [Reader.members] at h
      split at h
      · cases h
      · rename_i hnext
        obtain ⟨-, rfl⟩ := Prod.mk.inj (Except.ok.inj h)
        refine passesOut_close ?_
        rw [← skipBlank_of_nextKey hnext]
        exact skipBlank_of_closeObject hclose
      · rename_i hnext
        split at h
        · cases h
        · rename_i hmember
          obtain ⟨u, hcolon, hvalue, -⟩ := member_eq_ok hfields hmember
          exact passesOut_member hnext hcolon hvalue (ih h)

theorem passesOut_of_fields (hfields : ∀ field ∈ fields, ∀ depth a, Passable (field.read depth a))
    {index : Nat} {first : Bool} {a b : α}
    (h : r.ofItems depth fields index first a s = .ok (b, t))
    (hclose : closeArray t = (none, out)) : PassesOut .array (!first) s out := by
  induction fields generalizing index first a s with
  | nil =>
      obtain ⟨-, rfl⟩ := Prod.mk.inj (Except.ok.inj h)
      exact passesOut_close (skipBlank_of_closeArray hclose)
  | cons field fields ih =>
      obtain ⟨hfield, hfields⟩ := List.forall_mem_cons.mp hfields
      rw [Record.ofItems] at h
      split at h
      · cases h
      · rename_i u hnext
        split at h
        · cases h
        · rename_i hread
          exact passesOut_item hnext (hfield depth a hread) (ih hfields h)
      · rename_i u hnext
        split at h
        · cases h
        · refine passesOut_close ?_
          rcases nextItem_eq_ok hnext with ⟨-, b, v, hb, rfl, rfl⟩ | ⟨hmore, -⟩ | ⟨hmore, -⟩
          · obtain rfl := ofItems_close h
            rw [skipBlank_append hb]
            exact skipBlank_of_closeArray hclose
          · cases hmore
          · cases hmore

theorem finish_eq_ok {p : Record.Partial α} {a : α} (h : r.finish p s = .ok (a, t)) : t = s := by
  unfold Record.finish at h
  split at h
  · cases h
  · exact (Prod.mk.inj (Except.ok.inj h)).2.symm

/-- A record is passed over, be it read from an object or from an array. -/
theorem Passable.record (hfields : ∀ field ∈ r.fields, ∀ depth a, Passable (field.read depth a))
    (depth : Nat) : Passable (r.decoder depth) := by
  intro s a out h
  rw [Record.decoder] at h
  split at h
  · rename_i t hs
    cases depth with
    | zero => cases h
    | succ depth =>
        obtain ⟨u, hitems, hclose⟩ := bracketed_eq_ok h
        exact passesOver_array hs (passesOut_of_fields hfields hitems hclose)
  · rename_i t hs
    cases depth with
    | zero => cases h
    | succ depth =>
        obtain ⟨u, hmembers, hclose⟩ := bracketed_eq_ok h
        change r.ofMembers depth t = _ at hmembers
        unfold Record.ofMembers at hmembers
        split at hmembers
        · cases hmembers
        · rename_i hloop
          obtain rfl := finish_eq_ok hmembers
          exact passesOver_object hs (passesOut_of_members hfields hloop hclose)
  · cases h

end Records

end ResourceApi.Json
