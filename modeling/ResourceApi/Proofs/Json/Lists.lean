import Mathlib.Tactic.Common
import ResourceApi.Proofs.Json.Numeral
import ResourceApi.Proofs.Json.Quoted

/-!
The loops over items and members follow the grammar. On parts that are written between brackets a
loop is the fold of what its step does with each part, and it fails where the fold does; a loop that
succeeds has passed over such parts.
-/

namespace ResourceApi.Json

open Reader

/-! ### Blanks -/

theorem skipBlank_append {b : List Char} (hb : Blank b) (s : List Char) :
    skipBlank (b ++ s) = skipBlank s := by
  induction b with
  | nil => rfl
  | cons c b ih =>
      have hc := List.forall_mem_cons.mp hb
      rw [← ih hc.2]
      simp [skipBlank, hc.1]

theorem skipBlank_cons {c : Char} (hc : isBlank c = false) (s : List Char) :
    skipBlank (c :: s) = c :: s := by
  simp [skipBlank, hc]

theorem exists_blank (s : List Char) : ∃ b, s = b ++ skipBlank s ∧ Blank b :=
  ⟨s.takeWhile isBlank, List.takeWhile_append_dropWhile.symm,
    fun _ hc => List.all_eq_true.mp List.all_takeWhile _ hc⟩

theorem stops_blank {b s : List Char} (hb : Blank b) (hs : Stops s) : Stops (b ++ s) := by
  cases b with
  | nil => exact hs
  | cons c b =>
      have hc := (List.forall_mem_cons.mp hb).1
      simp only [isBlank, Bool.or_eq_true, decide_eq_true_eq] at hc
      rw [List.cons_append, stops_cons]
      rcases hc with ((rfl | rfl) | rfl) | rfl <;> decide

/-- Between two parts of a list, or behind the last one, a number may end. -/
theorem stops_followed {close : Char} (hclose : Spans.isNumberCharacter close = false)
    (parts : List (List Char)) (s : List Char) : Stops (followed close parts ++ s) := by
  cases parts with
  | nil => exact stops_cons.mpr hclose
  | cons => exact stops_cons.mpr (by decide)

theorem length_lt_followed (close : Char) (parts : List (List Char)) :
    parts.length < (followed close parts).length := by
  induction parts with
  | nil => simp [followed]
  | cons part parts ih =>
      simp only [followed, List.length_cons, List.length_append]
      omega

/-! ### Where values start -/

/-- A character with which a value may start. -/
def Opens (c : Char) : Prop :=
  c = 'n' ∨ c = 't' ∨ c = 'f' ∨ c = '"' ∨ c = '[' ∨ c = '{' ∨ c = '-' ∨ isDigit c = true

instance (c : Char) : Decidable (Opens c) := by
  unfold Opens
  infer_instance

theorem not_blank_of_digit {c : Char} (h : isDigit c = true) : isBlank c = false := by
  refine Bool.eq_false_iff.mpr fun hb => ?_
  simp only [isBlank, Bool.or_eq_true, decide_eq_true_eq] at hb
  rcases hb with ((rfl | rfl) | rfl) | rfl <;> revert h <;> decide

theorem Opens.not_blank {c : Char} (h : Opens c) : isBlank c = false := by
  rcases h with rfl | rfl | rfl | rfl | rfl | rfl | rfl | h
  case inr.inr.inr.inr.inr.inr.inr => exact not_blank_of_digit h
  all_goals decide

theorem Opens.ne_close {c : Char} (h : Opens c) : c ≠ ']' := by
  rintro rfl
  revert h
  decide

theorem Opens.ne_comma {c : Char} (h : Opens c) : c ≠ ',' := by
  rintro rfl
  revert h
  decide

theorem Written.opens {depth : Nat} {text : List Char} {v : Json} (h : Written depth text v) :
    ∃ c t, text = c :: t ∧ Opens c := by
  cases h with
  | nullWord => exact ⟨_, _, rfl, by decide⟩
  | trueWord => exact ⟨_, _, rfl, by decide⟩
  | falseWord => exact ⟨_, _, rfl, by decide⟩
  | number h =>
      obtain ⟨c, t, rfl, rfl | hc⟩ := h.cons
      · exact ⟨_, _, rfl, by decide⟩
      · exact ⟨c, t, rfl, by simp [Opens, hc]⟩
  | string h =>
      obtain ⟨t, rfl⟩ := h.cons
      exact ⟨_, _, rfl, by decide⟩
  | array => exact ⟨_, _, rfl, by decide⟩
  | object => exact ⟨_, _, rfl, by decide⟩

/-- What is left between brackets: all parts, or those behind one that has been read. -/
def remaining (first : Bool) (close : Char) (b : List Char) (parts : List (List Char)) :
    List Char :=
  match first with
  | true => listed close b parts
  | false => b ++ followed close parts

/-! ### Outcomes -/

/-- What a reader makes of a text with blanks before it, as far as a number may end behind it: it
consumes the text and gives a value, or it fails, for whatever reason. -/
def Reads {α : Type} (reader : Reader α) (text : List Char) (outcome : Option α) : Prop :=
  ∀ lead rest, Blank lead → Stops rest →
    (reader (lead ++ (text ++ rest))).toOption = outcome.map fun a => (a, rest)

theorem eq_none_of_toOption {ε α β : Type} {r : Except ε β} {o : Option α} {g : α → β} {e : ε}
    (h : r.toOption = o.map g) (hr : r = .error e) : o = none := by
  rw [hr] at h
  exact Option.map_eq_none_iff.mp h.symm

theorem eq_some_of_toOption {ε α β : Type} {r : Except ε β} {o : Option α} {g : α → β} {b : β}
    (h : r.toOption = o.map g) (hr : r = .ok b) : ∃ a, o = some a ∧ b = g a := by
  rw [hr] at h
  obtain ⟨a, ha, hb⟩ := Option.map_eq_some_iff.mp h.symm
  exact ⟨a, ha, hb.symm⟩

/-! ### Items -/

section Items

variable {α : Type} {b c s rest : List Char}

theorem nextItem_close (hb : Blank b) (first : Bool) (s : List Char) :
    nextItem first (b ++ ']' :: s) = .ok (false, ']' :: s) := by
  rw [nextItem, skipBlank_append hb, skipBlank_cons (by decide)]
  rfl

theorem nextItem_first {x : Char} (hb : Blank b) (hx : Opens x) (s : List Char) :
    nextItem true (b ++ x :: s) = .ok (true, x :: s) := by
  rw [nextItem, skipBlank_append hb, skipBlank_cons hx.not_blank]
  split
  · simp_all
  · rename_i heq
    exact absurd (List.cons.inj heq).1 hx.ne_close
  · simp_all

theorem nextItem_comma {x : Char} (hb : Blank b) (hc : Blank c) (hx : Opens x) (s : List Char) :
    nextItem false (b ++ ',' :: (c ++ x :: s)) = .ok (true, x :: s) := by
  rw [nextItem, skipBlank_append hb, skipBlank_cons (by decide)]
  split
  · simp_all
  · simp_all
  · rename_i heq
    obtain ⟨rfl, rfl⟩ := List.cons.inj heq
    simp only [Bool.false_eq_true, if_false, if_true, skipBlank_append hc,
      skipBlank_cons hx.not_blank]
    split
    · simp_all
    · rename_i heq
      exact absurd (List.cons.inj heq).1 hx.ne_close
    · rfl

theorem nextItem_eq_ok {first more : Bool} (h : nextItem first s = .ok (more, rest)) :
    (more = false ∧ ∃ b t, Blank b ∧ rest = ']' :: t ∧ s = b ++ ']' :: t) ∨
    (more = true ∧ first = true ∧ ∃ b, Blank b ∧ s = b ++ rest) ∨
    (more = true ∧ first = false ∧ ∃ b c, Blank b ∧ Blank c ∧ s = b ++ ',' :: (c ++ rest)) := by
  obtain ⟨b, hs, hb⟩ := exists_blank s
  rw [nextItem] at h
  split at h
  · simp at h
  · rename_i t heq
    simp only [Except.ok.injEq, Prod.mk.injEq] at h
    obtain ⟨rfl, rfl⟩ := h
    exact .inl ⟨rfl, b, t, hb, rfl, by rw [hs, heq]⟩
  · rename_i x t hx heq
    split at h
    · rename_i hfirst
      simp only [Except.ok.injEq, Prod.mk.injEq] at h
      obtain ⟨rfl, rfl⟩ := h
      exact .inr (.inl ⟨rfl, hfirst, b, hb, by rw [hs, heq]⟩)
    · rename_i hfirst
      split at h
      · rename_i hcomma
        obtain ⟨c, ht, hc⟩ := exists_blank t
        split at h
        · simp at h
        · simp at h
        · simp only [Except.ok.injEq, Prod.mk.injEq] at h
          obtain ⟨rfl, rfl⟩ := h
          exact .inr (.inr ⟨rfl, by simpa using hfirst, b, c, hb, hc, by
            rw [hs, heq, hcomma, ← ht]⟩)
      · simp at h

variable {step : α → Reader α} {f : α → Item → Option α}

theorem nextItem_remaining_nil (hb : Blank b) (first : Bool) (rest : List Char) :
    nextItem first (remaining first ']' b [] ++ rest) = .ok (false, ']' :: rest) := by
  cases first <;>
    simp only [remaining, listed, followed, List.append_assoc, List.singleton_append,
      nextItem_close hb]

theorem nextItem_remaining_cons {i : Item} (hb : Blank b) (hi : i.Spaced)
    (hopens : ∃ c t, i.text = c :: t ∧ Opens c) (first : Bool) (parts : List (List Char))
    (rest : List Char) :
    nextItem first (remaining first ']' b (i.chars :: parts) ++ rest) =
      .ok (true, i.text ++ (i.after ++ (followed ']' parts ++ rest))) := by
  obtain ⟨x, t, htext, hx⟩ := hopens
  cases first with
  | false =>
      simpa [remaining, followed, Item.chars, htext] using nextItem_comma
        (s := t ++ (i.after ++ (followed ']' parts ++ rest))) hb hi.before hx
  | true =>
      simpa [remaining, listed, Item.chars, htext] using nextItem_first
        (s := t ++ (i.after ++ (followed ']' parts ++ rest))) hi.before hx

/-- The loop over items is the fold of its step. -/
theorem items_remaining {items : List Item} (hspaced : ∀ i ∈ items, i.Spaced)
    (hopens : ∀ i ∈ items, ∃ c t, i.text = c :: t ∧ Opens c)
    (hstep : ∀ i ∈ items, ∀ a, Reads (step a) i.text (f a i))
    (hb : Blank b) (rest : List Char) (first : Bool) {fuel : Nat} (hfuel : items.length < fuel)
    (a : α) :
    (Reader.items step fuel first a
      (remaining first ']' b (items.map Item.chars) ++ rest)).toOption =
      (items.foldlM f a).map fun a => (a, ']' :: rest) := by
  induction items generalizing b first fuel a with
  | nil =>
      obtain ⟨fuel, rfl⟩ : ∃ n, fuel = n + 1 := ⟨fuel - 1, by omega⟩
      simp only [List.map_nil, Reader.items, nextItem_remaining_nil hb]
      rfl
  | cons i items ih =>
      obtain ⟨fuel, rfl⟩ : ∃ n, fuel = n + 1 := ⟨fuel - 1, by omega⟩
      obtain ⟨hi, hspaced⟩ := List.forall_mem_cons.mp hspaced
      obtain ⟨hopen, hopens⟩ := List.forall_mem_cons.mp hopens
      obtain ⟨hread, hstep⟩ := List.forall_mem_cons.mp hstep
      simp only [List.length_cons, Nat.add_lt_add_iff_right] at hfuel
      have hread := hread a [] (i.after ++ (followed ']' (items.map Item.chars) ++ rest))
        (by simp [Blank]) (stops_blank hi.after (stops_followed (by decide) _ _))
      rw [List.nil_append] at hread
      simp only [List.map_cons, Reader.items, nextItem_remaining_cons hb hi hopen,
        List.foldlM_cons]
      cases hr : step a (i.text ++ (i.after ++ (followed ']' (items.map Item.chars) ++ rest))) with
      | error e =>
          rw [eq_none_of_toOption hread hr]
          rfl
      | ok r =>
          obtain ⟨a', hf, rfl⟩ := eq_some_of_toOption hread hr
          rw [hf, ← List.append_assoc]
          exact ih hspaced hopens hstep hi.after false hfuel a'

variable {Shape : List Char → Json → Prop} {g : α → Json → α}

/-- A loop that succeeds has passed over items of the shape that its step accepts. -/
theorem items_of_ok
    (hstep : ∀ a s a' rest, step a s = .ok (a', rest) → ∃ lead text v,
      s = lead ++ (text ++ rest) ∧ Blank lead ∧ Shape text v ∧ a' = g a v)
    {first : Bool} {fuel : Nat} {a a' : α}
    (h : Reader.items step fuel first a s = .ok (a', rest)) :
    ∃ (b : List Char) (items : List Item) (t : List Char), rest = ']' :: t ∧
      s = remaining first ']' b (items.map Item.chars) ++ t ∧ Blank b ∧
      (∀ i ∈ items, i.Spaced) ∧ (∀ i ∈ items, Shape i.text i.value) ∧
      a' = (items.map Item.value).foldl g a := by
  induction fuel generalizing first a s with
  | zero => simp [Reader.items] at h
  | succ fuel ih =>
      rw [Reader.items] at h
      split at h
      · simp at h
      · rename_i hnext
        simp only [Except.ok.injEq, Prod.mk.injEq] at h
        obtain ⟨rfl, rfl⟩ := h
        rcases nextItem_eq_ok hnext with ⟨-, b, t, hb, rfl, rfl⟩ | ⟨hmore, -⟩ | ⟨hmore, -⟩
        · refine ⟨b, [], t, rfl, ?_, hb, by simp, by simp, rfl⟩
          cases first <;> simp [remaining, listed, followed]
        · cases hmore
        · cases hmore
      · rename_i hnext
        split at h
        · simp at h
        · rename_i hr
          obtain ⟨lead, text, v, rfl, hlead, hshape, rfl⟩ := hstep _ _ _ _ hr
          obtain ⟨b₁, items, t, rfl, rfl, hb₁, hspaced, hshapes, rfl⟩ := ih h
          rcases nextItem_eq_ok hnext with ⟨hmore, -⟩ | ⟨-, rfl, b, hb, rfl⟩ |
            ⟨-, rfl, b, c, hb, hc, rfl⟩
          · cases hmore
          · refine ⟨[], ⟨b ++ lead, text, b₁, v⟩ :: items, t, rfl, ?_, by simp [Blank], ?_, ?_,
              rfl⟩
            · simp [remaining, listed, Item.chars]
            · exact List.forall_mem_cons.mpr
                ⟨⟨List.forall_mem_append.mpr ⟨hb, hlead⟩, hb₁⟩, hspaced⟩
            · exact List.forall_mem_cons.mpr ⟨hshape, hshapes⟩
          · refine ⟨b, ⟨c ++ lead, text, b₁, v⟩ :: items, t, rfl, ?_, hb, ?_, ?_, rfl⟩
            · simp [remaining, followed, Item.chars]
            · exact List.forall_mem_cons.mpr
                ⟨⟨List.forall_mem_append.mpr ⟨hc, hlead⟩, hb₁⟩, hspaced⟩
            · exact List.forall_mem_cons.mpr ⟨hshape, hshapes⟩

end Items

/-! ### Members -/

section Members

variable {α : Type} {b c s rest : List Char}

/-- A key where one must stand. -/
def keyHere : Reader (Option String)
  | '"' :: rest =>
    match Reader.string rest with
    | .error f => .error f
    | .ok (k, rest) => .ok (some k, rest)
  | '}' :: rest => .error (.ahead1 .commaTrailing ('}' :: rest))
  | [] => .error (.behind .endInValue [])
  | rest => .error (.ahead1 .keyNotString rest)

theorem keyHere_append {q : List Char} {k : String} (hq : Quoted q k) (s : List Char) :
    keyHere (q ++ s) = .ok (some k, s) := by
  obtain ⟨t, rfl⟩ := hq.cons
  simp only [List.cons_append, keyHere, string_append hq]

theorem keyHere_eq_ok {key : Option String} (h : keyHere s = .ok (key, rest)) :
    ∃ k q, key = some k ∧ Quoted q k ∧ s = q ++ rest := by
  unfold keyHere at h
  split at h
  · split at h
    · simp at h
    · rename_i hstring
      simp only [Except.ok.injEq, Prod.mk.injEq] at h
      obtain ⟨rfl, rfl⟩ := h
      obtain ⟨text, rfl, hq⟩ := string_eq_ok hstring
      exact ⟨_, '"' :: text, rfl, hq, rfl⟩
  · simp at h
  · simp at h
  · simp at h

theorem nextKey_eq (first : Bool) (s : List Char) :
    nextKey first s =
      match skipBlank s with
      | [] => .error (.behind .endInObject [])
      | '}' :: rest => .ok (none, '}' :: rest)
      | c :: rest =>
        if first then keyHere (c :: rest)
        else if c = ',' then keyHere (skipBlank rest)
        else .error (.ahead1 .commaOrBraceExpected (c :: rest)) := rfl

theorem nextKey_close (hb : Blank b) (first : Bool) (s : List Char) :
    nextKey first (b ++ '}' :: s) = .ok (none, '}' :: s) := by
  rw [nextKey_eq, skipBlank_append hb, skipBlank_cons (by decide)]
  rfl

theorem nextKey_first {q : List Char} {k : String} (hb : Blank b) (hq : Quoted q k)
    (s : List Char) : nextKey true (b ++ (q ++ s)) = .ok (some k, s) := by
  obtain ⟨t, rfl⟩ := hq.cons
  rw [nextKey_eq, skipBlank_append hb, List.cons_append, skipBlank_cons (by decide)]
  exact keyHere_append hq s

theorem nextKey_comma {q : List Char} {k : String} (hb : Blank b) (hc : Blank c)
    (hq : Quoted q k) (s : List Char) :
    nextKey false (b ++ ',' :: (c ++ (q ++ s))) = .ok (some k, s) := by
  obtain ⟨t, rfl⟩ := hq.cons
  rw [nextKey_eq, skipBlank_append hb, skipBlank_cons (by decide)]
  have hkey : keyHere (skipBlank (c ++ ('"' :: t ++ s))) = .ok (some k, s) := by
    rw [skipBlank_append hc, List.cons_append, skipBlank_cons (by decide)]
    exact keyHere_append hq s
  exact hkey

theorem nextKey_eq_ok {first : Bool} {key : Option String}
    (h : nextKey first s = .ok (key, rest)) :
    (key = none ∧ ∃ b t, Blank b ∧ rest = '}' :: t ∧ s = b ++ '}' :: t) ∨
    (∃ k q, key = some k ∧ Quoted q k ∧ first = true ∧
      ∃ b, Blank b ∧ s = b ++ (q ++ rest)) ∨
    (∃ k q, key = some k ∧ Quoted q k ∧ first = false ∧
      ∃ b c, Blank b ∧ Blank c ∧ s = b ++ ',' :: (c ++ (q ++ rest))) := by
  obtain ⟨b, hs, hb⟩ := exists_blank s
  rw [nextKey_eq] at h
  split at h
  · simp at h
  · rename_i t heq
    simp only [Except.ok.injEq, Prod.mk.injEq] at h
    obtain ⟨rfl, rfl⟩ := h
    exact .inl ⟨rfl, b, t, hb, rfl, by rw [hs, heq]⟩
  · rename_i x t hx heq
    split at h
    · rename_i hfirst
      obtain ⟨k, q, rfl, hq, ht⟩ := keyHere_eq_ok h
      exact .inr (.inl ⟨k, q, rfl, hq, hfirst, b, hb, by rw [hs, heq, ht]⟩)
    · rename_i hfirst
      split at h
      · rename_i hcomma
        obtain ⟨c, ht, hc⟩ := exists_blank t
        obtain ⟨k, q, rfl, hq, hkey⟩ := keyHere_eq_ok h
        exact .inr (.inr ⟨k, q, rfl, hq, by simpa using hfirst, b, c, hb, hc, by
          rw [hs, heq, hcomma, ← hkey, ← ht]⟩)
      · simp at h

theorem nextKey_remaining_nil (hb : Blank b) (first : Bool) (rest : List Char) :
    nextKey first (remaining first '}' b [] ++ rest) = .ok (none, '}' :: rest) := by
  cases first <;>
    simp only [remaining, listed, followed, List.append_assoc, List.singleton_append,
      nextKey_close hb]

theorem nextKey_remaining_cons {m : Member} (hb : Blank b) (hm : m.Spaced) (first : Bool)
    (parts : List (List Char)) (rest : List Char) :
    nextKey first (remaining first '}' b (m.chars :: parts) ++ rest) =
      .ok (some m.key, m.beforeColon ++ (m.fromColon ++ (followed '}' parts ++ rest))) := by
  cases first with
  | false =>
      simpa [remaining, followed, Member.chars] using nextKey_comma
        (s := m.beforeColon ++ (m.fromColon ++ (followed '}' parts ++ rest))) hb hm.before hm.quoted
  | true =>
      simpa [remaining, listed, Member.chars] using nextKey_first
        (s := m.beforeColon ++ (m.fromColon ++ (followed '}' parts ++ rest))) hm.before hm.quoted

/-- What a reader makes of the part of a member behind its key. -/
def ReadsMember (reader : Reader α) (m : Member) (outcome : Option α) : Prop :=
  ∀ rest, Stops rest →
    (reader (m.beforeColon ++ ':' :: (m.beforeValue ++ (m.text ++ rest)))).toOption =
      outcome.map fun a => (a, rest)

variable {step : α → String → Reader α} {f : α → Member → Option α}

/-- The loop over members is the fold of its step. -/
theorem members_remaining {members : List Member} (hspaced : ∀ m ∈ members, m.Spaced)
    (hstep : ∀ m ∈ members, ∀ a, ReadsMember (step a m.key) m (f a m))
    (hb : Blank b) (rest : List Char) (first : Bool) {fuel : Nat}
    (hfuel : members.length < fuel) (a : α) :
    (Reader.members step fuel first a
      (remaining first '}' b (members.map Member.chars) ++ rest)).toOption =
      (members.foldlM f a).map fun a => (a, '}' :: rest) := by
  induction members generalizing b first fuel a with
  | nil =>
      obtain ⟨fuel, rfl⟩ : ∃ n, fuel = n + 1 := ⟨fuel - 1, by omega⟩
      simp only [List.map_nil, Reader.members, nextKey_remaining_nil hb]
      rfl
  | cons m members ih =>
      obtain ⟨fuel, rfl⟩ : ∃ n, fuel = n + 1 := ⟨fuel - 1, by omega⟩
      obtain ⟨hm, hspaced⟩ := List.forall_mem_cons.mp hspaced
      obtain ⟨hread, hstep⟩ := List.forall_mem_cons.mp hstep
      simp only [List.length_cons, Nat.add_lt_add_iff_right] at hfuel
      have hread := hread a (m.after ++ (followed '}' (members.map Member.chars) ++ rest))
        (stops_blank hm.after (stops_followed (by decide) _ _))
      have htext : m.beforeColon ++
          (m.fromColon ++ (followed '}' (members.map Member.chars) ++ rest)) =
          m.beforeColon ++ ':' :: (m.beforeValue ++ (m.text ++
            (m.after ++ (followed '}' (members.map Member.chars) ++ rest)))) := by
        simp [Member.fromColon]
      simp only [List.map_cons, Reader.members, nextKey_remaining_cons hb hm, htext,
        List.foldlM_cons]
      cases hr : step a m.key (m.beforeColon ++ ':' :: (m.beforeValue ++ (m.text ++
          (m.after ++ (followed '}' (members.map Member.chars) ++ rest))))) with
      | error e =>
          rw [eq_none_of_toOption hread hr]
          rfl
      | ok r =>
          obtain ⟨a', hf, rfl⟩ := eq_some_of_toOption hread hr
          rw [hf, ← List.append_assoc]
          exact ih hspaced hstep hm.after false hfuel a'

variable {Shape : List Char → Json → Prop} {g : α → String × Json → α}

/-- A loop that succeeds has passed over members of the shape that its step accepts. -/
theorem members_of_ok
    (hstep : ∀ a k s a' rest, step a k s = .ok (a', rest) → ∃ c lead text v,
      s = c ++ ':' :: (lead ++ (text ++ rest)) ∧ Blank c ∧ Blank lead ∧ Shape text v ∧
      a' = g a (k, v))
    {first : Bool} {fuel : Nat} {a a' : α}
    (h : Reader.members step fuel first a s = .ok (a', rest)) :
    ∃ (b : List Char) (members : List Member) (t : List Char), rest = '}' :: t ∧
      s = remaining first '}' b (members.map Member.chars) ++ t ∧ Blank b ∧
      (∀ m ∈ members, m.Spaced) ∧ (∀ m ∈ members, Shape m.text m.value) ∧
      a' = (members.map Member.entry).foldl g a := by
  induction fuel generalizing first a s with
  | zero => simp [Reader.members] at h
  | succ fuel ih =>
      rw [Reader.members] at h
      split at h
      · simp at h
      · rename_i hnext
        simp only [Except.ok.injEq, Prod.mk.injEq] at h
        obtain ⟨rfl, rfl⟩ := h
        rcases nextKey_eq_ok hnext with ⟨-, b, t, hb, rfl, rfl⟩ | ⟨k, q, hkey, -⟩ | ⟨k, q, hkey, -⟩
        · refine ⟨b, [], t, rfl, ?_, hb, by simp, by simp, rfl⟩
          cases first <;> simp [remaining, listed, followed]
        · cases hkey
        · cases hkey
      · rename_i hnext
        split at h
        · simp at h
        · rename_i hr
          obtain ⟨c, lead, text, v, rfl, hc, hlead, hshape, rfl⟩ := hstep _ _ _ _ _ hr
          obtain ⟨b₁, members, t, rfl, rfl, hb₁, hspaced, hshapes, rfl⟩ := ih h
          rcases nextKey_eq_ok hnext with ⟨hkey, -⟩ | ⟨k, q, hkey, hq, rfl, b, hb, rfl⟩ |
            ⟨k, q, hkey, hq, rfl, b, d, hb, hd, rfl⟩
          · cases hkey
          · obtain rfl := Option.some.inj hkey
            refine ⟨[], ⟨b, q, _, c, lead, text, b₁, v⟩ :: members, t, rfl, ?_, by simp [Blank],
              ?_, ?_, rfl⟩
            · simp [remaining, listed, Member.chars, Member.fromColon]
            · exact List.forall_mem_cons.mpr ⟨⟨hb, hq, hc, hlead, hb₁⟩, hspaced⟩
            · exact List.forall_mem_cons.mpr ⟨hshape, hshapes⟩
          · obtain rfl := Option.some.inj hkey
            refine ⟨b, ⟨d, q, _, c, lead, text, b₁, v⟩ :: members, t, rfl, ?_, hb, ?_, ?_, rfl⟩
            · simp [remaining, followed, Member.chars, Member.fromColon]
            · exact List.forall_mem_cons.mpr ⟨⟨hd, hq, hc, hlead, hb₁⟩, hspaced⟩
            · exact List.forall_mem_cons.mpr ⟨hshape, hshapes⟩

end Members

end ResourceApi.Json
