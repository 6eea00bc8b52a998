import ResourceApi.Proofs.Json.Reading

/-!
A value that no field asks for is passed over as far as the strict reader would read it. The loop
keeps the brackets around a place as frames; passing over a written value brings it back to the
frames it started with.
-/

namespace ResourceApi.Json

open Reader

/-! ### Strings -/

theorem skipString_append {text cs : List Char} (h : StringRest text cs) (rest : List Char)
    (fuel : Nat) (hfuel : text.length ≤ fuel) :
    skipString fuel (text ++ rest) = .ok ((), rest) := by
  induction h generalizing fuel with
  | close =>
      obtain ⟨fuel, rfl⟩ : ∃ n, fuel = n + 1 := ⟨fuel - 1, by simp at hfuel; omega⟩
      simp [skipString]
  | @plain c text cs hquote hslash hcontrol h ih =>
      obtain ⟨fuel, rfl⟩ : ∃ n, fuel = n + 1 := ⟨fuel - 1, by simp at hfuel; omega⟩
      simp only [List.length_cons, Nat.add_le_add_iff_right] at hfuel
      have hnot : ¬ c.toNat < 32 := by omega
      simp only [List.cons_append, skipString, hquote, hslash, hnot, if_false, ih fuel hfuel]
  | @escape e text cs c he h ih =>
      have hunit : ∀ {s n fuel t}, HexUnit s n →
          skipString (fuel + 1) ('\\' :: 'u' :: (s ++ t)) = skipString fuel t := by
        intro s n fuel t hs
        simp only [skipString, hexUnit_append hs, if_true]
        rfl
      obtain ⟨fuel, rfl⟩ : ∃ n, fuel = n + 1 := ⟨fuel - 1, by simp at hfuel; omega⟩
      simp only [List.length_cons, List.length_append, Nat.add_le_add_iff_right] at hfuel
      cases he with
      | @letter l c hl =>
          have hu : l ≠ 'u' := by
            rintro rfl
            simp [simpleEscape?] at hl
          have hstep : skipString (fuel + 1) ('\\' :: l :: (text ++ rest)) =
              skipString fuel (text ++ rest) := by
            rw [skipString, if_neg (by decide), if_pos rfl]
            · simp [hl]
            · exact hu
          rw [List.cons_append, List.cons_append, List.nil_append, List.cons_append, hstep]
          exact ih fuel (by simp at hfuel; omega)
      | unit hs hn =>
          simp only [List.cons_append, List.append_assoc, hunit hs]
          exact ih fuel (by simp at hfuel; omega)
      | pair hs ht hhigh hlow =>
          simp only [List.length_cons, List.length_append] at hfuel
          obtain ⟨fuel, rfl⟩ : ∃ n, fuel = n + 1 := ⟨fuel - 1, by omega⟩
          simp only [List.cons_append, List.append_assoc, hunit hs, hunit ht]
          exact ih fuel (by omega)

theorem skipKey_append {b q c : List Char} {k : String} (hb : Blank b) (hq : Quoted q k)
    (hc : Blank c) (rest : List Char) :
    skipKey (b ++ (q ++ (c ++ ':' :: rest))) = .ok ((), rest) := by
  cases hq with
  | @mk text chars h =>
      have hfuel : text.length ≤ (text ++ (c ++ ':' :: rest)).length + 1 := by
        rw [List.length_append]
        omega
      rw [skipKey, skipBlank_append hb, List.cons_append, skipBlank_cons (by decide)]
      simp only [skipString_append h _ _ hfuel, colon_append hc]

/-! ### Numbers -/

section Numbers

variable {rest : List Char}

theorem skipExponent?_append {e : List Char} (he : ExponentPart e) (hrest : Stops rest) :
    skipExponent? (e ++ rest) = .ok ((), rest) := by
  cases he with
  | absent =>
      rw [List.nil_append]
      unfold skipExponent?
      split
      · exact absurd rfl (ne_of_stops hrest (by decide))
      · exact absurd rfl (ne_of_stops hrest (by decide))
      · rfl
  | @digits mark sign s hmark hsign hs hne =>
      have hstart := startsWithDigit_append (t := rest) hs hne
      have hdrop := dropWhile_digits hs (startsWithDigit_of_stops hrest)
      have hexponent : skipExponent (sign ++ (s ++ rest)) = .ok ((), rest) := by
        rcases hsign with rfl | rfl | rfl
        · unfold skipExponent
          split
          · rename_i heq
            rw [List.nil_append] at heq
            rw [heq] at hstart
            exact absurd (show isDigit '+' = true from hstart) (by decide)
          · rename_i heq
            rw [List.nil_append] at heq
            rw [heq] at hstart
            exact absurd (show isDigit '-' = true from hstart) (by decide)
          · simp only [List.nil_append, hstart, if_true, hdrop]
        · simp only [List.cons_append, List.nil_append, skipExponent, hstart, if_true, hdrop]
        · simp only [List.cons_append, List.nil_append, skipExponent, hstart, if_true, hdrop]
      rcases hmark with rfl | rfl <;>
        rw [List.cons_append, List.append_assoc, skipExponent?, hexponent]

/-- What stands behind the integer part. -/
def skipFraction : Reader Unit
  | '.' :: s =>
    if startsWithDigit s then skipExponent? (s.dropWhile isDigit)
    else .error (.ahead1 .numberMalformed s)
  | s => skipExponent? s

theorem skipNumber_cons (c : Char) (s : List Char) :
    skipNumber (c :: s) =
      if c = '0' then
        if startsWithDigit s then .error (.ahead1 .numberMalformed s) else skipFraction s
      else if isDigit c then skipFraction (s.dropWhile isDigit)
      else .error (.ahead1 .numberMalformed (c :: s)) := rfl

theorem skipFraction_append {f : List Char} (hf : Fractional f) (hrest : Stops rest) :
    skipFraction (f ++ rest) = .ok ((), rest) := by
  obtain ⟨p, e, rfl, hp, he⟩ := hf
  cases hp with
  | absent =>
      have hexponent := skipExponent?_append he hrest
      rw [List.nil_append]
      unfold skipFraction
      split
      · rename_i heq
        cases he with
        | absent =>
            rw [List.nil_append] at heq
            rw [heq] at hrest
            exact absurd rfl (ne_of_stops (d := '.') hrest (by decide))
        | digits hmark => rcases hmark with rfl | rfl <;> cases heq
      · exact hexponent
  | digits hs hne =>
      rw [List.append_assoc, List.cons_append, skipFraction, startsWithDigit_append hs hne,
        if_pos rfl, dropWhile_digits hs (startsWithDigit_exponent he hrest),
        skipExponent?_append he hrest]

theorem skipNumber_append {u : List Char} (hu : Unsigned u) (hrest : Stops rest) :
    skipNumber (u ++ rest) = .ok ((), rest) := by
  obtain ⟨i, f, rfl, hi, hf⟩ := hu
  have hstop := startsWithDigit_fractional hf hrest
  cases hi with
  | zero =>
      rw [List.append_assoc, List.cons_append, List.nil_append, skipNumber_cons, if_pos rfl, hstop,
        if_neg (by decide), skipFraction_append hf hrest]
  | digits hc hzero hs =>
      rw [List.append_assoc, List.cons_append, skipNumber_cons, if_neg hzero, if_pos hc,
        dropWhile_digits hs hstop, skipFraction_append hf hrest]

end Numbers

/-! ### Between values -/

/-- Goes on to the next value, or ends if no bracket is open any more. -/
def goOn (comma : Bool) (fuel : Nat) (frames : List Frame) : Reader Unit := fun s =>
  match skipBetween comma frames s with
  | .error f => .error f
  | .ok ([], rest) => .ok ((), rest)
  | .ok (frames, rest) => skipValues fuel frames rest

section Between

variable {fuel : Nat} {frames : List Frame} {b c q s : List Char}

theorem goOn_nil (comma : Bool) (s : List Char) : goOn comma fuel [] s = .ok ((), s) := by
  cases comma <;> rfl

/-- Blanks do not matter where a value may start or a bracket may close. -/
theorem skipBetween_append (comma : Bool) (frame : Frame) (hb : Blank b) (s : List Char) :
    skipBetween comma (frame :: frames) (b ++ s) = skipBetween comma (frame :: frames) s := by
  unfold skipBetween
  rw [skipBlank_append hb]

theorem goOn_closeArray (comma : Bool) (hb : Blank b) :
    goOn comma fuel (.array :: frames) (b ++ ']' :: s) = goOn true fuel frames s := by
  have hbetween : skipBetween comma (.array :: frames) (b ++ ']' :: s) =
      skipBetween true frames s := by
    rw [skipBetween_append comma .array hb]
    rfl
  rw [goOn, goOn, hbetween]

theorem goOn_closeObject (comma : Bool) (hb : Blank b) :
    goOn comma fuel (.object :: frames) (b ++ '}' :: s) = goOn true fuel frames s := by
  have hbetween : skipBetween comma (.object :: frames) (b ++ '}' :: s) =
      skipBetween true frames s := by
    rw [skipBetween_append comma .object hb]
    rfl
  rw [goOn, goOn, hbetween]

theorem goOn_item {x : Char} (hb : Blank b) (hx : Opens x) :
    goOn false fuel (.array :: frames) (b ++ x :: s) =
      skipValues fuel (.array :: frames) (x :: s) := by
  have hbetween : skipBetween false (.array :: frames) (b ++ x :: s) =
      .ok (.array :: frames, x :: s) := by
    have hclose := hx.ne_close
    unfold skipBetween
    rw [skipBlank_append hb, skipBlank_cons hx.not_blank]
    split <;> simp_all
  rw [goOn, hbetween]

theorem goOn_nextItem (hb : Blank b) :
    goOn true fuel (.array :: frames) (b ++ ',' :: s) = skipValues fuel (.array :: frames) s := by
  have hbetween : skipBetween true (.array :: frames) (b ++ ',' :: s) =
      .ok (.array :: frames, s) := by
    rw [skipBetween_append true .array hb]
    rfl
  rw [goOn, hbetween]

theorem goOn_member {k : String} (hb : Blank b) (hq : Quoted q k) (hc : Blank c) :
    goOn false fuel (.object :: frames) (b ++ (q ++ (c ++ ':' :: s))) =
      skipValues fuel (.object :: frames) s := by
  have hkey := skipKey_append (b := []) (by simp [Blank]) hq hc s
  obtain ⟨t, rfl⟩ := hq.cons
  have hbetween : skipBetween false (.object :: frames) (b ++ ('"' :: t ++ (c ++ ':' :: s))) =
      .ok (.object :: frames, s) := by
    rw [List.nil_append, List.cons_append] at hkey
    rw [skipBetween_append false .object hb, List.cons_append]
    change (skipKey ('"' :: (t ++ (c ++ ':' :: s)))).map
      (fun r => (Frame.object :: frames, r.2)) = _
    rw [hkey]
    rfl
  rw [goOn, hbetween]

theorem goOn_nextMember {d : List Char} {k : String} (hb : Blank b) (hd : Blank d)
    (hq : Quoted q k) (hc : Blank c) :
    goOn true fuel (.object :: frames) (b ++ ',' :: (d ++ (q ++ (c ++ ':' :: s)))) =
      skipValues fuel (.object :: frames) s := by
  have hbetween : skipBetween true (.object :: frames)
      (b ++ ',' :: (d ++ (q ++ (c ++ ':' :: s)))) = .ok (.object :: frames, s) := by
    rw [skipBetween_append true .object hb]
    change (skipKey (d ++ (q ++ (c ++ ':' :: s)))).map
      (fun r => (Frame.object :: frames, r.2)) = _
    rw [skipKey_append hd hq hc s]
    rfl
  rw [goOn, hbetween]

end Between

/-! ### Values -/

/-- A text is passed over in at most as many steps as it has characters, and the loop goes on with
the frames it started with. -/
def Skips (text : List Char) : Prop :=
  ∃ n, n ≤ text.length ∧ ∀ fuel frames lead rest, Blank lead → Stops rest →
    skipValues (n + fuel) frames (lead ++ (text ++ rest)) = goOn true fuel frames rest

theorem skips_items {items : List Item} {i : Item} (hspaced : ∀ j ∈ i :: items, j.Spaced)
    (hskips : ∀ j ∈ i :: items, Skips j.text) :
    ∃ n, n ≤ (i.text ++ (i.after ++ followed ']' (items.map Item.chars))).length ∧
      ∀ fuel frames lead rest, Blank lead →
        skipValues (n + fuel) (.array :: frames)
          (lead ++ (i.text ++ (i.after ++ (followed ']' (items.map Item.chars) ++ rest)))) =
        goOn true fuel frames rest := by
  induction items generalizing i with
  | nil =>
      have hi := hspaced i List.mem_cons_self
      obtain ⟨n, hn, hskip⟩ := hskips i List.mem_cons_self
      refine ⟨n, by rw [List.length_append]; omega, fun fuel frames lead rest hlead => ?_⟩
      rw [hskip fuel _ lead _ hlead (stops_blank hi.after (stops_followed (by decide) _ _))]
      exact goOn_closeArray true hi.after
  | cons j items ih =>
      have hi := hspaced i List.mem_cons_self
      have hj := hspaced j (by simp)
      obtain ⟨n, hn, hskip⟩ := hskips i List.mem_cons_self
      obtain ⟨m, hm, hloop⟩ := ih (fun j hj => hspaced j (List.mem_cons_of_mem _ hj))
        (fun j hj => hskips j (List.mem_cons_of_mem _ hj))
      refine ⟨n + m, ?_, fun fuel frames lead rest hlead => ?_⟩
      · simp only [List.map_cons, followed, Item.chars, List.length_append, List.length_cons]
          at hm ⊢
        omega
      · rw [Nat.add_assoc, hskip (m + fuel) _ lead _ hlead
          (stops_blank hi.after (stops_followed (by decide) _ _))]
        simp only [List.map_cons, followed, List.cons_append, goOn_nextItem hi.after]
        rw [← hloop fuel frames j.before rest hj.before]
        simp [Item.chars]

theorem skips_members {members : List Member} {m : Member} (hspaced : ∀ n ∈ m :: members, n.Spaced)
    (hskips : ∀ n ∈ m :: members, Skips n.text) :
    ∃ n, n ≤ (m.text ++ (m.after ++ followed '}' (members.map Member.chars))).length ∧
      ∀ fuel frames rest,
        skipValues (n + fuel) (.object :: frames) (m.beforeValue ++
          (m.text ++ (m.after ++ (followed '}' (members.map Member.chars) ++ rest)))) =
        goOn true fuel frames rest := by
  induction members generalizing m with
  | nil =>
      have hm := hspaced m List.mem_cons_self
      obtain ⟨n, hn, hskip⟩ := hskips m List.mem_cons_self
      refine ⟨n, by rw [List.length_append]; omega, fun fuel frames rest => ?_⟩
      rw [hskip fuel _ _ _ hm.beforeValue
        (stops_blank hm.after (stops_followed (by decide) _ _))]
      exact goOn_closeObject true hm.after
  | cons m' members ih =>
      have hm := hspaced m List.mem_cons_self
      have hm' := hspaced m' (by simp)
      obtain ⟨n, hn, hskip⟩ := hskips m List.mem_cons_self
      obtain ⟨k, hk, hloop⟩ := ih (fun n hn => hspaced n (List.mem_cons_of_mem _ hn))
        (fun n hn => hskips n (List.mem_cons_of_mem _ hn))
      refine ⟨n + k, ?_, fun fuel frames rest => ?_⟩
      · simp only [List.map_cons, followed, Member.chars, Member.fromColon, List.length_append,
          List.length_cons] at hk ⊢
        omega
      · rw [Nat.add_assoc, hskip (k + fuel) _ _ _ hm.beforeValue
          (stops_blank hm.after (stops_followed (by decide) _ _))]
        rw [← hloop fuel frames rest, ← goOn_nextMember hm.after hm'.before hm'.quoted
          hm'.beforeColon]
        simp [followed, Member.chars, Member.fromColon]

/-- A value without parts takes one step. -/
theorem skips_of_step {text : List Char} (hne : text ≠ [])
    (hstep : ∀ fuel frames lead rest, Blank lead → Stops rest →
      skipValues (fuel + 1) frames (lead ++ (text ++ rest)) = goOn true fuel frames rest) :
    Skips text := by
  refine ⟨1, List.length_pos_iff.mpr hne, fun fuel frames lead rest hlead hrest => ?_⟩
  rw [Nat.add_comm, hstep fuel frames lead rest hlead hrest]

section Openings

variable {fuel : Nat} {frames : List Frame} {lead s : List Char}

/-- Blanks before a value do not matter. -/
theorem skipValues_append (hlead : Blank lead) (s : List Char) :
    skipValues (fuel + 1) frames (lead ++ s) = skipValues (fuel + 1) frames s := by
  rw [skipValues, skipValues, skipBlank_append hlead]

theorem skipValues_array (hlead : Blank lead) :
    skipValues (fuel + 1) frames (lead ++ '[' :: s) = goOn false fuel (.array :: frames) s := by
  rw [skipValues_append hlead]
  rfl

theorem skipValues_object (hlead : Blank lead) :
    skipValues (fuel + 1) frames (lead ++ '{' :: s) = goOn false fuel (.object :: frames) s := by
  rw [skipValues_append hlead]
  rfl

/-- Goes on behind a value that has been passed over. -/
def goOnBehind (fuel : Nat) (frames : List Frame) (r : Except Failure (Unit × List Char)) :
    Except Failure (Unit × List Char) :=
  match r with
  | .error f => .error f
  | .ok (_, rest) => goOn true fuel frames rest

theorem skipValues_string {t chars rest : List Char} (hlead : Blank lead)
    (ht : StringRest t chars) :
    skipValues (fuel + 1) frames (lead ++ '"' :: (t ++ rest)) = goOn true fuel frames rest := by
  have hfuel : t.length ≤ (t ++ rest).length + 1 := by
    rw [List.length_append]
    omega
  have hstring := skipString_append ht rest _ hfuel
  rw [skipValues_append hlead]
  change goOnBehind fuel frames (skipString ((t ++ rest).length + 1) (t ++ rest)) = _
  rw [hstring]
  rfl

theorem skipValues_minus {u rest : List Char} (hlead : Blank lead) (hu : Unsigned u)
    (hrest : Stops rest) :
    skipValues (fuel + 1) frames (lead ++ '-' :: (u ++ rest)) = goOn true fuel frames rest := by
  rw [skipValues_append hlead]
  change goOnBehind fuel frames (skipNumber (u ++ rest)) = _
  rw [skipNumber_append hu hrest]
  rfl

theorem skipValues_digits {u rest : List Char} (hlead : Blank lead) (hu : Unsigned u)
    (hrest : Stops rest) :
    skipValues (fuel + 1) frames (lead ++ (u ++ rest)) = goOn true fuel frames rest := by
  have hnumber := skipNumber_append hu hrest
  obtain ⟨c, t, rfl, hc⟩ := hu.cons
  rw [List.cons_append] at hnumber ⊢
  rw [skipValues_append hlead, skipValues, skipBlank_cons (not_blank_of_digit hc)]
  simp only [ne_of_digit hc (show isDigit 'n' = false by decide),
    ne_of_digit hc (show isDigit 't' = false by decide),
    ne_of_digit hc (show isDigit 'f' = false by decide),
    ne_of_digit hc (show isDigit '-' = false by decide), hc, if_false, if_true, hnumber]
  rfl

end Openings

theorem skips_unsigned {u : List Char} (hu : Unsigned u) : Skips u := by
  obtain ⟨c, t, heq, -⟩ := hu.cons
  exact skips_of_step (by simp [heq]) fun _ _ _ _ hlead hrest => skipValues_digits hlead hu hrest

theorem skips_minus {u : List Char} (hu : Unsigned u) : Skips ('-' :: u) :=
  skips_of_step (by simp) fun _ _ _ _ hlead hrest => skipValues_minus hlead hu hrest

theorem skips_quoted {q : List Char} {s : String} (hq : Quoted q s) : Skips q := by
  cases hq with
  | mk h => exact skips_of_step (by simp) fun _ _ _ _ hlead _ => skipValues_string hlead h

theorem skips_array {blank : List Char} {items : List Item} (hblank : Blank blank)
    (hspaced : ∀ i ∈ items, i.Spaced) (hopens : ∀ i ∈ items, ∃ c t, i.text = c :: t ∧ Opens c)
    (hskips : ∀ i ∈ items, Skips i.text) :
    Skips ('[' :: listed ']' blank (items.map Item.chars)) := by
  cases items with
  | nil =>
      refine skips_of_step (by simp) fun fuel frames lead rest hlead _ => ?_
      simp only [List.cons_append, skipValues_array hlead, List.map_nil, listed,
        List.append_assoc, List.nil_append, goOn_closeArray false hblank]
  | cons i items =>
      obtain ⟨n, hn, hloop⟩ := skips_items hspaced hskips
      have hi := hspaced i List.mem_cons_self
      obtain ⟨c, t, ht, hc⟩ := hopens i List.mem_cons_self
      refine ⟨n + 1, ?_, fun fuel frames lead rest hlead _ => ?_⟩
      · simp only [List.map_cons, listed, Item.chars, List.length_append, List.length_cons]
          at hn ⊢
        omega
      · have hfirst := hloop fuel frames [] rest (by simp [Blank])
        simp only [ht, List.cons_append, List.nil_append] at hfirst
        rw [← hfirst, ← goOn_item hi.before hc, Nat.add_right_comm, List.cons_append,
          skipValues_array hlead]
        simp [listed, Item.chars, ht]

theorem skips_object {blank : List Char} {members : List Member} (hblank : Blank blank)
    (hspaced : ∀ m ∈ members, m.Spaced) (hskips : ∀ m ∈ members, Skips m.text) :
    Skips ('{' :: listed '}' blank (members.map Member.chars)) := by
  cases members with
  | nil =>
      refine skips_of_step (by simp) fun fuel frames lead rest hlead _ => ?_
      simp only [List.cons_append, skipValues_object hlead, List.map_nil, listed,
        List.append_assoc, List.nil_append, goOn_closeObject false hblank]
  | cons m members =>
      obtain ⟨n, hn, hloop⟩ := skips_members hspaced hskips
      have hm := hspaced m List.mem_cons_self
      refine ⟨n + 1, ?_, fun fuel frames lead rest hlead _ => ?_⟩
      · simp only [List.map_cons, listed, Member.chars, Member.fromColon, List.length_append,
          List.length_cons] at hn ⊢
        omega
      · rw [← hloop fuel frames rest, ← goOn_member hm.before hm.quoted hm.beforeColon,
          Nat.add_right_comm, List.cons_append, skipValues_object hlead]
        simp [listed, Member.chars, Member.fromColon]

/-- Every written value is passed over. -/
theorem Written.skips {depth : Nat} {text : List Char} {w : Json} (h : Written depth text w) :
    Skips text := by
  induction h with
  | nullWord | trueWord | falseWord =>
      refine skips_of_step (by simp) fun fuel frames lead rest hlead _ => ?_
      rw [skipValues_append hlead]
      rfl
  | number h =>
      cases h with
      | plain shape => exact skips_unsigned shape
      | minus shape => exact skips_minus shape
  | string h => exact skips_quoted h
  | array hblank hspaced h ih => exact skips_array hblank hspaced (fun i hi => (h i hi).opens) ih
  | object hblank hspaced _ ih => exact skips_object hblank hspaced ih

/-- The reader that passes over a value takes a text that is passed over. -/
theorem Skips.reads_skipValue {text : List Char} (h : Skips text) :
    Reads skipValue text (some ()) := by
  intro lead rest hlead hrest
  obtain ⟨n, hn, hskip⟩ := h
  obtain ⟨fuel, hfuel⟩ : ∃ fuel, (lead ++ (text ++ rest)).length + 1 = n + fuel :=
    ⟨(lead ++ (text ++ rest)).length + 1 - n, by simp only [List.length_append]; omega⟩
  rw [skipValue, hfuel, hskip fuel [] lead rest hlead hrest, goOn_nil]
  rfl

end ResourceApi.Json
