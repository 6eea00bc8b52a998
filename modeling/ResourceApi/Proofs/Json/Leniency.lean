import ResourceApi.Proofs.Json.Limits

/-!
What is passed over, but not read. Passing over a value checks its grammar only, so where it
succeeds, the strict reader gets to the same place or fails at one of its own limits. The loop that
passes over a value keeps the brackets that are open; the strict reader keeps them on its stack.
Both are shown to make the same steps.
-/

namespace ResourceApi.Json

open Reader

/-! ### Between values -/

section Between

variable {fuel : Nat} {frames : List Frame} {first : Bool} {s out : List Char}

theorem skipBlank_skipBlank (s : List Char) : skipBlank (skipBlank s) = skipBlank s := by
  obtain ⟨b, hs, hb⟩ := exists_blank s
  conv => rhs; rw [hs, skipBlank_append hb]

theorem skipValues_skipBlank (h : skipValues fuel frames s = .ok ((), out)) :
    skipValues fuel frames (skipBlank s) = .ok ((), out) := by
  cases fuel with
  | zero => cases h
  | succ fuel =>
      obtain ⟨b, hs, hb⟩ := exists_blank s
      rw [hs, skipValues_append hb] at h
      exact h

/-- What is passed over starts like a value. -/
theorem opens_of_skipValues (h : skipValues fuel frames s = .ok ((), out)) :
    ∃ c t, skipBlank s = c :: t ∧ Opens c := by
  cases fuel with
  | zero => cases h
  | succ fuel =>
      rw [skipValues] at h
      cases hs : skipBlank s with
      | nil =>
          rw [hs] at h
          cases h
      | cons c t =>
          refine ⟨c, t, rfl, ?_⟩
          rw [hs] at h
          dsimp only at h
          split_ifs at h <;> simp_all [Opens]

/-- The bracket that closes a frame. -/
def Frame.close : Frame → Char
  | .array => ']'
  | .object => '}'

/-- Goes on to the next value inside a bracket, in an object over its key. -/
def enter (frame : Frame) (frames : List Frame) : Reader (List Frame) := fun s =>
  match frame with
  | .array => .ok (frame :: frames, s)
  | .object => (skipKey s).map fun r => (frame :: frames, r.2)

theorem goOn_close (comma : Bool) (frame : Frame) {u : List Char}
    (hs : skipBlank s = Frame.close frame :: u) :
    goOn comma fuel (frame :: frames) s = goOn true fuel frames u := by
  obtain ⟨b, hsplit, hb⟩ := exists_blank s
  rw [hsplit, hs]
  cases frame with
  | array => exact goOn_closeArray comma hb
  | object => exact goOn_closeObject comma hb

theorem skipBetween_cons (comma : Bool) (frame : Frame) (frames : List Frame) {c : Char}
    {u : List Char} (hs : skipBlank s = c :: u) (hc : c ≠ Frame.close frame) :
    skipBetween comma (frame :: frames) s =
      if comma then
        if c = ',' then enter frame frames u
        else match frame with
          | .array => .error (.ahead1 .commaOrBracketExpected (c :: u))
          | .object => .error (.ahead1 .commaOrBraceExpected (c :: u))
      else enter frame frames (c :: u) := by
  unfold skipBetween
  rw [hs]
  cases frame with
  | array =>
      change c ≠ ']' at hc
      dsimp only
      split <;> simp_all [enter]
  | object =>
      change c ≠ '}' at hc
      dsimp only
      split <;> simp_all [enter]

/-- Goes on with the next value, or ends if no bracket is open any more. -/
def proceed (fuel : Nat) : Except Failure (List Frame × List Char) →
    Except Failure (Unit × List Char)
  | .error f => .error f
  | .ok ([], rest) => .ok ((), rest)
  | .ok (frame :: frames, rest) => skipValues fuel (frame :: frames) rest

theorem goOn_eq (comma : Bool) (fuel : Nat) (frames : List Frame) (s : List Char) :
    goOn comma fuel frames s = proceed fuel (skipBetween comma frames s) := by
  unfold goOn proceed
  cases skipBetween comma frames s with
  | error f => rfl
  | ok r =>
      obtain ⟨frames, rest⟩ := r
      cases frames <;> rfl

theorem proceed_enter {frame : Frame} {u : List Char}
    (h : proceed fuel (enter frame frames u) = .ok ((), out)) :
    ∃ v, skipValues fuel (frame :: frames) v = .ok ((), out) ∧
      enter frame frames u = .ok (frame :: frames, v) := by
  cases frame with
  | array => exact ⟨u, h, rfl⟩
  | object =>
      cases hkey : skipKey u with
      | error f =>
          rw [enter, hkey] at h
          cases h
      | ok r =>
          rw [enter, hkey] at h ⊢
          exact ⟨r.2, h, rfl⟩

/-- Inside a bracket it closes and the loop goes on behind it, or the next value follows, behind a
comma if one is due. -/
theorem goOn_eq_ok {comma : Bool} {frame : Frame}
    (h : goOn comma fuel (frame :: frames) s = .ok ((), out)) :
    (∃ u, skipBlank s = Frame.close frame :: u ∧ goOn true fuel frames u = .ok ((), out)) ∨
      ∃ c u v, skipBlank s = c :: u ∧ c ≠ Frame.close frame ∧
        skipValues fuel (frame :: frames) v = .ok ((), out) ∧
        ((comma = false ∧ enter frame frames (c :: u) = .ok (frame :: frames, v)) ∨
          (comma = true ∧ c = ',' ∧ enter frame frames u = .ok (frame :: frames, v))) := by
  cases hs : skipBlank s with
  | nil =>
      unfold goOn skipBetween at h
      rw [hs] at h
      cases frame <;> cases h
  | cons c u =>
      by_cases hc : c = Frame.close frame
      · subst hc
        rw [goOn_close comma frame hs] at h
        exact .inl ⟨u, rfl, h⟩
      · rw [goOn_eq, skipBetween_cons comma frame frames hs hc] at h
        right
        cases comma with
        | false =>
            obtain ⟨v, hv, hentered⟩ := proceed_enter h
            exact ⟨c, u, v, rfl, hc, hv, .inl ⟨rfl, hentered⟩⟩
        | true =>
            rw [if_pos rfl] at h
            by_cases hcomma : c = ','
            · rw [if_pos hcomma] at h
              obtain ⟨v, hv, hentered⟩ := proceed_enter h
              exact ⟨c, u, v, rfl, hc, hv, .inr ⟨rfl, hcomma, hentered⟩⟩
            · rw [if_neg hcomma] at h
              cases frame <;> cases h

/-- The strict loop over items makes the same step, with the next item where it starts. -/
theorem nextItem_of_goOn (h : goOn (!first) fuel (.array :: frames) s = .ok ((), out)) :
    (∃ t, nextItem first s = .ok (false, ']' :: t) ∧ goOn true fuel frames t = .ok ((), out)) ∨
      ∃ t, nextItem first s = .ok (true, t) ∧
        skipValues fuel (.array :: frames) t = .ok ((), out) := by
  rcases goOn_eq_ok h with ⟨t, hs, hrest⟩ | ⟨c, t, v, hs, hc, hskip, hstep⟩
  · left
    change skipBlank s = ']' :: t at hs
    refine ⟨t, ?_, hrest⟩
    rw [nextItem, hs]
    rfl
  · right
    change c ≠ ']' at hc
    rcases hstep with ⟨hfirst, hentered⟩ | ⟨hfirst, rfl, hentered⟩
    · obtain rfl : c :: t = v := (Prod.mk.inj (Except.ok.inj hentered)).2
      obtain rfl : first = true := by simpa using hfirst
      refine ⟨c :: t, ?_, hskip⟩
      unfold nextItem
      rw [hs]
      split <;> simp_all
    · obtain rfl : t = v := (Prod.mk.inj (Except.ok.inj hentered)).2
      obtain rfl : first = false := by simpa using hfirst
      obtain ⟨d, u, ht, hd⟩ := opens_of_skipValues hskip
      refine ⟨skipBlank t, ?_, skipValues_skipBlank hskip⟩
      have hclose := hd.ne_close
      unfold nextItem
      rw [hs]
      simp only [Bool.false_eq_true, if_false, if_true, ht]
      split <;> simp_all

/-- A key that is passed over is read, unless one of its surrogates stands alone. -/
theorem keyHere_of_skipKey {v : List Char} (h : skipKey s = .ok ((), v)) :
    (∃ k t, keyHere (skipBlank s) = .ok (some k, t) ∧ colon t = .ok ((), v)) ∨
      ∃ f, keyHere (skipBlank s) = .error f ∧ f.AtLimit := by
  unfold skipKey at h
  split at h
  · rename_i t hs
    split at h
    · cases h
    · rename_i rest hstring
      have hread := getsTo_string hstring
      rw [hs, keyHere]
      cases hkey : Reader.string t with
      | error f =>
          rw [hkey] at hread
          cases hread with
          | limit hlimit => exact .inr ⟨f, rfl, hlimit⟩
      | ok r =>
          rw [hkey] at hread
          cases hread with
          | read k => exact .inl ⟨k, rest, rfl, h⟩
  · cases h
  · cases h

/-- The strict loop over members makes the same step, unless it cannot hold the key. -/
theorem nextKey_of_goOn (h : goOn (!first) fuel (.object :: frames) s = .ok ((), out)) :
    (∃ t, nextKey first s = .ok (none, '}' :: t) ∧ goOn true fuel frames t = .ok ((), out)) ∨
      (∃ k t v, nextKey first s = .ok (some k, t) ∧ colon t = .ok ((), v) ∧
        skipValues fuel (.object :: frames) v = .ok ((), out)) ∨
      ∃ f, nextKey first s = .error f ∧ f.AtLimit := by
  rcases goOn_eq_ok h with ⟨t, hs, hrest⟩ | ⟨c, t, v, hs, hc, hskip, hstep⟩
  · left
    change skipBlank s = '}' :: t at hs
    refine ⟨t, ?_, hrest⟩
    rw [nextKey_eq, hs]
    rfl
  · right
    change c ≠ '}' at hc
    have hnext : nextKey first s =
        if first then keyHere (c :: t)
        else if c = ',' then keyHere (skipBlank t)
        else .error (.ahead1 .commaOrBraceExpected (c :: t)) := by
      rw [nextKey_eq, hs]
      split <;> simp_all
    have hkey : ∀ {u}, (skipKey u).map (fun r => (Frame.object :: frames, r.2)) =
        .ok (Frame.object :: frames, v) → skipKey u = .ok ((), v) := by
      intro u hu
      obtain ⟨⟨⟨⟩, w⟩, hw, heq⟩ := map_eq_ok hu
      obtain rfl := (Prod.mk.inj heq).2
      exact hw
    rcases hstep with ⟨hfirst, hentered⟩ | ⟨hfirst, rfl, hentered⟩
    · obtain rfl : first = true := by simpa using hfirst
      have hblank : skipBlank (c :: t) = c :: t := by
        rw [← hs, skipBlank_skipBlank]
      rw [hnext, if_pos rfl, ← hblank]
      rcases keyHere_of_skipKey (hkey hentered) with ⟨k, u, hread, hcolon⟩ | hlimit
      · exact .inl ⟨k, u, v, hread, hcolon, hskip⟩
      · exact .inr hlimit
    · obtain rfl : first = false := by simpa using hfirst
      rw [hnext, if_neg (by decide), if_pos rfl]
      rcases keyHere_of_skipKey (hkey hentered) with ⟨k, u, hread, hcolon⟩ | hlimit
      · exact .inl ⟨k, u, v, hread, hcolon, hskip⟩
      · exact .inr hlimit

end Between

/-! ### Lengths -/

section Lengths

variable {collect : Collect} {depth : Nat} {first : Bool} {s t : List Char}

theorem length_lt_of_valueBy {w : Json} (h : valueBy collect depth s = .ok (w, t)) :
    t.length < s.length := by
  obtain ⟨lead, text, v, rfl, -, hv, -⟩ := written_of_valueBy h
  obtain ⟨c, text, rfl, -⟩ := hv.opens
  simp only [List.length_append, List.length_cons]
  omega

theorem length_le_of_nextItem {more : Bool} (h : nextItem first s = .ok (more, t)) :
    t.length ≤ s.length := by
  rcases nextItem_eq_ok h with ⟨-, b, u, -, rfl, rfl⟩ | ⟨-, -, b, -, rfl⟩ |
    ⟨-, -, b, c, -, -, rfl⟩ <;> simp only [List.length_append, List.length_cons] <;> omega

theorem length_le_of_nextKey {key : Option String} (h : nextKey first s = .ok (key, t)) :
    t.length ≤ s.length := by
  rcases nextKey_eq_ok h with ⟨-, b, u, -, rfl, rfl⟩ | ⟨k, q, -, -, -, b, -, rfl⟩ |
    ⟨k, q, -, -, -, b, c, -, -, rfl⟩ <;> simp only [List.length_append, List.length_cons] <;> omega

theorem length_lt_of_colon (h : colon s = .ok ((), t)) : t.length < s.length := by
  obtain ⟨b, rfl, -⟩ := colon_eq_ok h
  simp only [List.length_append, List.length_cons]
  omega

end Lengths

/-! ### Values -/

section Values

variable {collect : Collect} {depth fuel : Nat} {frames : List Frame} {s out : List Char}

/-- The strict reader reads the first value that is passed over, and the loop goes on behind it; or
it fails at a limit. -/
def Follows (collect : Collect) (depth fuel : Nat) (frames : List Frame) (s out : List Char) :
    Prop :=
  (∃ w t n, n < fuel ∧ valueBy collect depth s = .ok (w, t) ∧
      goOn true n frames t = .ok ((), out)) ∨
    ∃ f, valueBy collect depth s = .error f ∧ f.AtLimit

theorem follows_of_getsTo {n : Nat} {t : List Char} (hn : n < fuel)
    (hvalue : GetsTo t (valueBy collect depth s)) (h : goOn true n frames t = .ok ((), out)) :
    Follows collect depth fuel frames s out := by
  cases hread : valueBy collect depth s with
  | error f =>
      rw [hread] at hvalue
      cases hvalue with
      | limit hlimit => exact .inr ⟨f, hread, hlimit⟩
  | ok r =>
      rw [hread] at hvalue
      cases hvalue with
      | read w => exact .inl ⟨w, t, n, hn, hread, h⟩

theorem bracketed_of_atLimit {α : Type} {close : List Char → Option Failure × List Char}
    {inside : Reader α} {f : Failure} (h : inside s = .error f) (hf : f.AtLimit) :
    bracketed close inside s = .error f := by
  rw [bracketed, h]
  dsimp only
  rw [Failure.place, if_pos hf.placed]

theorem itemStep_eq_ok {w : Json} {t : List Char} (done : List Json)
    (h : valueBy collect depth s = .ok (w, t)) :
    itemStep collect depth done s = .ok (w :: done, t) := by
  rw [itemStep, h]
  rfl

theorem itemStep_eq_error {f : Failure} (done : List Json)
    (h : valueBy collect depth s = .error f) : itemStep collect depth done s = .error f := by
  rw [itemStep, h]
  rfl

theorem memberStep_eq_ok {key : String} {w : Json} {t u : List Char} (done : Entries Json)
    (hcolon : colon s = .ok ((), t)) (h : valueBy collect depth t = .ok (w, u)) :
    memberStep collect depth done key s = .ok (collect key w done, u) := by
  rw [memberStep, hcolon]
  dsimp only
  rw [h]
  rfl

theorem memberStep_eq_error {key : String} {t : List Char} {f : Failure} (done : Entries Json)
    (hcolon : colon s = .ok ((), t)) (h : valueBy collect depth t = .error f) :
    memberStep collect depth done key s = .error f := by
  rw [memberStep, hcolon]
  dsimp only
  rw [h]
  rfl

/-- The loop over items keeps up with the loop that passes over them. -/
theorem items_of_goOn
    (ih : ∀ m ≤ fuel, ∀ frames s, skipValues m frames s = .ok ((), out) →
      Follows collect depth m frames s out)
    {m limit : Nat} (first : Bool) (done : List Json) (hm : m ≤ fuel) (hlimit : s.length < limit)
    (h : goOn (!first) m (.array :: frames) s = .ok ((), out)) :
    (∃ ws t n, n ≤ m ∧ Reader.items (itemStep collect depth) limit first done s =
        .ok (ws, ']' :: t) ∧ goOn true n frames t = .ok ((), out)) ∨
      ∃ f, Reader.items (itemStep collect depth) limit first done s = .error f ∧ f.AtLimit := by
  induction limit generalizing s m first done with
  | zero => cases hlimit
  | succ limit ihlimit =>
      rw [Reader.items]
      rcases nextItem_of_goOn h with ⟨t, hnext, hrest⟩ | ⟨t, hnext, hskip⟩
      · rw [hnext]
        exact .inl ⟨done, t, m, Nat.le_refl m, rfl, hrest⟩
      · have hlength := length_le_of_nextItem hnext
        rw [hnext]
        dsimp only
        rcases ih m hm _ t hskip with ⟨w, u, n, hn, hvalue, hrest⟩ | ⟨f, hvalue, hf⟩
        · have hshorter := length_lt_of_valueBy hvalue
          rw [itemStep_eq_ok done hvalue]
          rcases ihlimit false (w :: done) (by omega) (by omega) hrest with
            ⟨ws, v, k, hk, hread, hout⟩ | hfailed
          · exact .inl ⟨ws, v, k, by omega, hread, hout⟩
          · exact .inr hfailed
        · rw [itemStep_eq_error done hvalue]
          exact .inr ⟨f, rfl, hf⟩

/-- The loop over members keeps up with the loop that passes over them. -/
theorem members_of_goOn
    (ih : ∀ m ≤ fuel, ∀ frames s, skipValues m frames s = .ok ((), out) →
      Follows collect depth m frames s out)
    {m limit : Nat} (first : Bool) (done : Entries Json) (hm : m ≤ fuel)
    (hlimit : s.length < limit) (h : goOn (!first) m (.object :: frames) s = .ok ((), out)) :
    (∃ ms t n, n ≤ m ∧ Reader.members (memberStep collect depth) limit first done s =
        .ok (ms, '}' :: t) ∧ goOn true n frames t = .ok ((), out)) ∨
      ∃ f, Reader.members (memberStep collect depth) limit first done s = .error f ∧
        f.AtLimit := by
  induction limit generalizing s m first done with
  | zero => cases hlimit
  | succ limit ihlimit =>
      rw [Reader.members]
      rcases nextKey_of_goOn h with ⟨t, hnext, hrest⟩ | ⟨key, t, v, hnext, hcolon, hskip⟩ |
        ⟨f, hnext, hf⟩
      · rw [hnext]
        exact .inl ⟨done, t, m, Nat.le_refl m, rfl, hrest⟩
      · have hlength := length_le_of_nextKey hnext
        have hcolonLength := length_lt_of_colon hcolon
        rw [hnext]
        dsimp only
        rcases ih m hm _ v hskip with ⟨w, u, n, hn, hvalue, hrest⟩ | ⟨f, hvalue, hf⟩
        · have hshorter := length_lt_of_valueBy hvalue
          rw [memberStep_eq_ok done hcolon hvalue]
          rcases ihlimit false (collect key w done) (by omega) (by omega) hrest with
            ⟨ms, v, k, hk, hread, hout⟩ | hfailed
          · exact .inl ⟨ms, v, k, by omega, hread, hout⟩
          · exact .inr hfailed
        · rw [memberStep_eq_error done hcolon hvalue]
          exact .inr ⟨f, rfl, hf⟩
      · rw [hnext]
        exact .inr ⟨f, rfl, hf⟩

theorem goOnBehind_eq_ok {r : Except Failure (Unit × List Char)}
    (h : goOnBehind fuel frames r = .ok ((), out)) :
    ∃ t, r = .ok ((), t) ∧ goOn true fuel frames t = .ok ((), out) := by
  cases r with
  | error f => cases h
  | ok r => exact ⟨r.2, rfl, h⟩

theorem getsTo_word {w t : List Char} (v : Json) (h : word w s = .ok ((), t)) :
    GetsTo t ((word w s).map fun r => (v, r.2)) := by
  rw [h]
  exact .read v

section Openings

variable {rest : List Char}

theorem valueBy_bracket (hs : skipBlank s = '[' :: rest) :
    valueBy collect (depth + 1) s = (bracketed closeArray (Reader.items (itemStep collect depth)
      (rest.length + 1) true []) rest).map fun r => (.array r.1.reverse, r.2) := by
  obtain ⟨b, hsplit, hb⟩ := exists_blank s
  rw [hsplit, hs, valueBy_array hb]

theorem valueBy_brace (hs : skipBlank s = '{' :: rest) :
    valueBy collect (depth + 1) s = (bracketed closeObject
      (Reader.members (memberStep collect depth) (rest.length + 1) true []) rest).map
        fun r => (.object r.1, r.2) := by
  obtain ⟨b, hsplit, hb⟩ := exists_blank s
  rw [hsplit, hs, valueBy_object hb]

/-- Behind an opening bracket the loop over items keeps up, if the value may be nested here. -/
theorem follows_array
    (ih : ∀ m ≤ fuel, ∀ depth frames s, skipValues m frames s = .ok ((), out) →
      Follows collect depth m frames s out)
    (hs : skipBlank s = '[' :: rest)
    (h : goOn false fuel (.array :: frames) rest = .ok ((), out)) :
    Follows collect depth (fuel + 1) frames s out := by
  cases depth with
  | zero =>
      right
      rw [valueBy, hs]
      exact ⟨_, rfl, rfl, rfl⟩
  | succ depth =>
      unfold Follows
      rw [valueBy_bracket hs]
      rcases items_of_goOn (fun m hm => ih m hm depth) true [] (Nat.le_refl fuel)
        (Nat.lt_succ_self rest.length) h with ⟨ws, t, n, hn, hloop, hrest⟩ | ⟨f, hloop, hf⟩
      · left
        refine ⟨.array ws.reverse, t, n, by omega, ?_, hrest⟩
        rw [bracketed, hloop]
        rfl
      · right
        refine ⟨f, ?_, hf⟩
        rw [bracketed_of_atLimit hloop hf]
        rfl

theorem follows_object
    (ih : ∀ m ≤ fuel, ∀ depth frames s, skipValues m frames s = .ok ((), out) →
      Follows collect depth m frames s out)
    (hs : skipBlank s = '{' :: rest)
    (h : goOn false fuel (.object :: frames) rest = .ok ((), out)) :
    Follows collect depth (fuel + 1) frames s out := by
  cases depth with
  | zero =>
      right
      rw [valueBy, hs]
      exact ⟨_, rfl, rfl, rfl⟩
  | succ depth =>
      unfold Follows
      rw [valueBy_brace hs]
      rcases members_of_goOn (fun m hm => ih m hm depth) true [] (Nat.le_refl fuel)
        (Nat.lt_succ_self rest.length) h with ⟨ms, t, n, hn, hloop, hrest⟩ | ⟨f, hloop, hf⟩
      · left
        refine ⟨.object ms, t, n, by omega, ?_, hrest⟩
        rw [bracketed, hloop]
        rfl
      · right
        refine ⟨f, ?_, hf⟩
        rw [bracketed_of_atLimit hloop hf]
        rfl

end Openings

/-- Where values are passed over, the strict reader follows. -/
theorem follows_of_skipValues (depth : Nat) (h : skipValues fuel frames s = .ok ((), out)) :
    Follows collect depth fuel frames s out := by
  -- One supply of fuel serves the value and all that stands behind it, so the induction is strong:
  -- behind an item less is left than where the item starts.
  induction fuel using Nat.strongRecOn generalizing depth frames s with
  | ind fuel ih =>
      cases fuel with
      | zero => cases h
      | succ fuel =>
          have hlt := Nat.lt_succ_self fuel
          have ih : ∀ m ≤ fuel, ∀ depth frames s, skipValues m frames s = .ok ((), out) →
              Follows collect depth m frames s out :=
            fun m hm depth frames s => ih m (Nat.lt_succ_of_le hm) depth
          rw [skipValues] at h
          cases hs : skipBlank s with
          | nil =>
              rw [hs] at h
              cases h
          | cons c rest =>
              rw [hs] at h
              have hvalue : valueBy collect depth s = valueBy collect depth s := rfl
              conv at hvalue => rhs; rw [valueBy, hs]
              dsimp only at h hvalue
              split_ifs at h hvalue with hnull htrue hfalse hminus hdigit hquote hbracket hbrace
              · obtain ⟨t, hword, hrest⟩ := goOnBehind_eq_ok h
                exact follows_of_getsTo hlt (hvalue ▸ getsTo_word .null hword) hrest
              · obtain ⟨t, hword, hrest⟩ := goOnBehind_eq_ok h
                exact follows_of_getsTo hlt (hvalue ▸ getsTo_word (.bool true) hword) hrest
              · obtain ⟨t, hword, hrest⟩ := goOnBehind_eq_ok h
                exact follows_of_getsTo hlt (hvalue ▸ getsTo_word (.bool false) hword) hrest
              · obtain ⟨t, hnumber, hrest⟩ := goOnBehind_eq_ok h
                exact follows_of_getsTo hlt (hvalue ▸ (getsTo_number hnumber).map Json.number) hrest
              · obtain ⟨t, hnumber, hrest⟩ := goOnBehind_eq_ok h
                exact follows_of_getsTo hlt (hvalue ▸ (getsTo_number hnumber).map Json.number) hrest
              · obtain ⟨t, hstring, hrest⟩ := goOnBehind_eq_ok h
                exact follows_of_getsTo hlt (hvalue ▸ (getsTo_string hstring).map Json.string) hrest
              · subst hbracket
                exact follows_array ih hs h
              · subst hbrace
                exact follows_object ih hs h

/-- A value that is passed over is read up to the same place, or it is beyond a limit. -/
theorem getsTo_of_skipValue (depth : Nat) (h : skipValue s = .ok ((), out)) :
    GetsTo out (valueBy collect depth s) := by
  have hfollows : Follows collect depth (s.length + 1) [] s out := follows_of_skipValues depth h
  rcases hfollows with ⟨w, t, n, -, hvalue, hrest⟩ | ⟨f, hvalue, hf⟩
  · rw [goOn_nil] at hrest
    obtain ⟨-, rfl⟩ := Prod.mk.inj (Except.ok.inj hrest)
    rw [hvalue]
    exact .read w
  · rw [hvalue]
    exact .limit hf

end Values

end ResourceApi.Json
