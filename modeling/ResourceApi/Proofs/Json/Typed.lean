import ResourceApi.Json.Choice
import ResourceApi.Proofs.Json.Decoding

/-!
Natural numbers and choices between names, as they are read by typed readers and taken from trees.
-/

namespace ResourceApi.Json

open Reader

/-! ### Natural numbers -/

/-- The natural number that a value is. -/
def asNatural? : Json → Option Nat
  | .number (.integer (.ofNat n)) => some n
  | _ => none

theorem decodes_natural : Decodes Decoder.natural asNatural? := by
  intro depth text w h lead rest hlead hrest
  cases h with
  | @number _ _ n h =>
      cases h with
      | plain shape takes =>
          obtain ⟨c, t, rfl, hc⟩ := shape.cons
          have htakes := takes rest hrest
          rw [List.cons_append] at htakes
          rw [Decoder.natural, skipBlank_append hlead, List.cons_append,
            skipBlank_cons (not_blank_of_digit hc)]
          split
          · rename_i heq
            exact absurd (List.cons.inj heq).1 (ne_of_digit hc (by decide))
          · rename_i heq
            obtain ⟨rfl, rfl⟩ := List.cons.inj heq
            rw [if_pos hc, htakes]
            rcases n with ⟨n | n⟩ | x <;> rfl
          · rename_i heq
            cases heq
      | minus shape takes =>
          rw [Decoder.natural, skipBlank_append hlead, List.cons_append, skipBlank_cons (by decide)]
          split
          · rename_i heq
            obtain ⟨-, rfl⟩ := List.cons.inj heq
            rw [takes rest hrest]
            rcases n with ⟨n | n⟩ | x <;> rfl
          · rename_i hother heq
            obtain ⟨rfl, rfl⟩ := List.cons.inj heq
            exact (hother rfl).elim
          · rename_i heq
            cases heq
  | string h =>
      obtain ⟨t, rfl⟩ := h.cons
      rw [Decoder.natural, skipBlank_append hlead, List.cons_append, skipBlank_cons (by decide)]
      rfl
  | nullWord | trueWord | falseWord | array | object =>
      rw [Decoder.natural, skipBlank_append hlead, List.cons_append, skipBlank_cons (by decide)]
      rfl

/-! ### Choices -/

section Choices

variable {α : Type} (expected : List String) (ofName? : String → Option α)

/-- The choice that a value makes, if it makes one. -/
def asChoice? (v : Json) : Option α := (v.choose expected ofName?).toOption

theorem asChoice?_string (name : String) :
    asChoice? expected ofName? (.string name) = ofName? name := by
  rw [asChoice?, choose]
  dsimp only
  cases ofName? name <;> rfl

theorem asChoice?_member (name : String) (v : Json) :
    asChoice? expected ofName? (.object [(name, v)]) =
      if v = .null then ofName? name else none := by
  rw [asChoice?, choose]
  dsimp only
  cases ofName? name <;> cases v <;> simp [Except.toOption]

theorem asChoice?_members {entries : Entries Json} (h : ∀ name v, entries ≠ [(name, v)]) :
    asChoice? expected ofName? (.object entries) = none := by
  rcases entries with _ | ⟨⟨name, v⟩, _ | ⟨entry, entries⟩⟩
  · rfl
  · exact absurd rfl (h name v)
  · rfl

theorem stringAs_member {m : Member} (hm : m.Spaced) (expected : String) (s : List Char) :
    Decoder.stringAs expected (m.chars ++ s) =
      .ok (m.key, m.beforeColon ++ ':' :: (m.beforeValue ++ (m.text ++ (m.after ++ s)))) := by
  obtain ⟨t, ht⟩ := hm.quoted.cons
  have hquoted := hm.quoted
  rw [ht] at hquoted
  have hchars : m.chars ++ s = m.before ++ ('"' :: (t ++
      (m.beforeColon ++ ':' :: (m.beforeValue ++ (m.text ++ (m.after ++ s)))))) := by
    simp [Member.chars, Member.fromColon, ht]
  rw [hchars, Decoder.stringAs, skipBlank_append hm.before, skipBlank_cons (by decide)]
  exact string_append hquoted _

theorem stringAs_close {b : List Char} (hb : Blank b) (expected : String) (s : List Char) :
    (Decoder.stringAs expected (b ++ '}' :: s)).toOption = none := by
  rw [Decoder.stringAs, skipBlank_append hb, skipBlank_cons (by decide)]
  rfl

/-- Reads what stands behind the only key of an object: `null` and the closing brace. -/
def unitValue (a : α) : Reader α := fun s =>
  match colon s with
  | .error f => .error f
  | .ok (_, s) =>
    match skipBlank s with
    | 'n' :: s =>
      match word ['u', 'l', 'l'] s with
      | .error f => .error f
      | .ok (_, s) =>
        match skipBlank s with
        | '}' :: s => .ok (a, s)
        | [] => .error (.behind .endInObject [])
        | s => .error (.behind .valueExpected s)
    | s => .error (Reader.unexpected "unit" s)

variable {lead : List Char}

/-- What is picked by a name, read up to what stands behind it. -/
def picked (r : String × List Char) : Except Failure (α × List Char) :=
  (ofName? r.1).elim (.error (.behind (.unknownVariant r.1 expected) r.2)) fun a => .ok (a, r.2)

theorem picked_toOption (r : String × List Char) :
    (picked expected ofName? r).toOption = (ofName? r.1).map fun a => (a, r.2) := by
  rw [picked]
  cases ofName? r.1 <;> rfl

theorem choice_string (hlead : Blank lead) (depth : Nat) (s : List Char) :
    (Decoder.choice expected ofName? depth (lead ++ '"' :: s)).toOption =
      (Reader.string s).toOption.bind fun r => (ofName? r.1).map fun a => (a, r.2) := by
  have hquote : Decoder.choice expected ofName? depth (lead ++ '"' :: s) =
      (Reader.string s).bind (picked expected ofName?) := by
    rw [Decoder.choice, skipBlank_append hlead, skipBlank_cons (by decide)]
    split
    · rename_i heq
      obtain ⟨-, rfl⟩ := List.cons.inj heq
      rcases Reader.string s with f | ⟨name, rest⟩
      · rfl
      · dsimp only [Except.bind, picked]
        cases ofName? name <;> rfl
    · rename_i heq
      exact absurd (List.cons.inj heq).1 (by decide)
    · rename_i heq
      cases heq
    · rename_i hquote _ _
      exact absurd rfl (hquote s)
  rw [hquote, bind_toOption]
  simp only [picked_toOption]

theorem choice_object (hlead : Blank lead) (depth : Nat) (s : List Char) :
    (Decoder.choice expected ofName? (depth + 1) (lead ++ '{' :: s)).toOption =
      (Decoder.stringAs "variant identifier" s).toOption.bind fun r =>
        (ofName? r.1).bind fun a => (unitValue a r.2).toOption := by
  have hbrace : Decoder.choice expected ofName? (depth + 1) (lead ++ '{' :: s) =
      (Decoder.stringAs "variant identifier" s).bind fun r =>
        (picked expected ofName? r).bind fun p => unitValue p.1 p.2 := by
    rw [Decoder.choice, skipBlank_append hlead, skipBlank_cons (by decide)]
    split
    · rename_i heq
      exact absurd (List.cons.inj heq).1 (by decide)
    · rename_i heq
      obtain ⟨-, rfl⟩ := List.cons.inj heq
      rw [Decoder.nested]
      dsimp only [List.tail_cons]
      rcases Decoder.stringAs "variant identifier" s with f | ⟨name, rest⟩
      · rfl
      · dsimp only [Except.bind, picked]
        cases ofName? name <;> rfl
    · rename_i heq
      cases heq
    · rename_i hbrace _
      exact absurd rfl (hbrace s)
  rw [hbrace, bind_toOption]
  simp only [bind_toOption, picked_toOption, Option.bind_map, Function.comp_def]

theorem written_null {depth : Nat} {text : List Char} (h : Written depth text .null) :
    text = ['n', 'u', 'l', 'l'] := by
  cases h
  rfl

/-- Behind the key, `null` must be the value of the only member. -/
theorem unitValue_member {depth : Nat} {m : Member} (hm : m.Spaced)
    (h : Written depth m.text m.value) (parts : List (List Char)) (rest : List Char) (a : α) :
    (unitValue a (m.beforeColon ++ ':' :: (m.beforeValue ++ (m.text ++
      (m.after ++ (followed '}' parts ++ rest)))))).toOption =
      if m.value = .null ∧ parts = [] then some (a, rest) else none := by
  obtain ⟨c, t, ht, hc⟩ := h.opens
  have hstarts := (ht ▸ h).starts
  rw [unitValue, colon_append hm.beforeColon]
  dsimp only
  rw [skipBlank_append hm.beforeValue, ht, List.cons_append, skipBlank_cons hc.not_blank]
  split
  · rename_i heq
    obtain ⟨rfl, rfl⟩ := List.cons.inj heq
    have hnull := hstarts.null rfl
    rw [ht, hnull] at h
    obtain ⟨-, rfl⟩ := List.cons.inj (written_null h)
    rw [word_append]
    dsimp only
    rw [skipBlank_append hm.after]
    cases parts with
    | nil =>
        rw [followed, if_pos ⟨hnull, rfl⟩, List.singleton_append, skipBlank_cons (by decide)]
        rfl
    | cons part parts =>
        rw [followed, if_neg (by simp), List.cons_append, skipBlank_cons (by decide)]
        rfl
  · rename_i hother
    have hnull : m.value ≠ .null := by
      intro heq
      rw [ht, heq] at h
      obtain ⟨rfl, -⟩ := List.cons.inj (written_null h)
      exact hother _ rfl
    rw [if_neg fun hand => hnull hand.1]
    rfl

theorem decodes_choice :
    Decodes (Decoder.choice expected ofName?) (asChoice? expected ofName?) := by
  intro depth text w h lead rest hlead hrest
  cases h with
  | @string _ _ name h =>
      obtain ⟨t, rfl⟩ := h.cons
      rw [List.cons_append, choice_string _ _ hlead, string_append h, asChoice?_string]
      rfl
  | @number _ _ n h =>
      have hwritten : Written depth text (.number n) := .number h
      obtain ⟨c, t, rfl, hc⟩ := hwritten.opens
      have hstarts := hwritten.starts
      rw [Decoder.choice, skipBlank_append hlead, List.cons_append, skipBlank_cons hc.not_blank]
      split
      · rename_i heq
        obtain ⟨name, hname⟩ := hstarts.quote (List.cons.inj heq).1
        cases hname
      · rename_i heq
        obtain ⟨members, hmembers⟩ := hstarts.brace (List.cons.inj heq).1
        cases hmembers
      · rename_i heq
        cases heq
      · rfl
  | @object depth blank members hblank hspaced hmembers =>
      rw [List.cons_append, choice_object _ _ hlead]
      cases members with
      | nil =>
          rw [List.map_nil, listed, List.append_assoc, List.singleton_append, stringAs_close hblank]
          rfl
      | cons m ms =>
          have hm := hspaced m List.mem_cons_self
          have hwritten := hmembers m List.mem_cons_self
          have hunit := unitValue_member (α := α) hm hwritten (ms.map Member.chars) rest
          rw [List.map_cons, listed, List.append_assoc, stringAs_member hm]
          change ((ofName? m.key).bind fun a => (unitValue a _).toOption) = _
          simp only [hunit]
          cases ms with
          | nil =>
              rw [List.map_cons, List.map_nil, List.map_nil, Member.entry, asChoice?_member]
              by_cases hnull : m.value = .null <;> cases ofName? m.key <;> simp [hnull]
          | cons n ms =>
              rw [List.map_cons, List.map_cons, List.map_cons, asChoice?_members _ _ (by simp)]
              cases ofName? m.key <;> simp
  | nullWord | trueWord | falseWord | array =>
      rw [Decoder.choice, skipBlank_append hlead, List.cons_append, skipBlank_cons (by decide)]
      rfl

end Choices

end ResourceApi.Json
