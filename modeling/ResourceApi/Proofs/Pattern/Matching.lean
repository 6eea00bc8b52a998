import Mathlib.Tactic.Common
import ResourceApi.Pattern.Basic

/-!
What it means that a pattern matches. A match goes from place to place; a repeated set of characters
leads only to places before which all characters passed over are in the set, and a pattern between
the two ends of the text says something about every character.
-/

namespace ResourceApi.Pattern

/-! ### Steps -/

section Steps

variable {step : Place → List Place} {P : Place → Prop}

/-- What holds of some places and is kept by each step holds of all places that are reached. -/
theorem closure_induction (hstep : ∀ p, P p → ∀ q ∈ step p, P q) {fuel : Nat}
    {frontier done : List Place} (hfrontier : ∀ p ∈ frontier, P p) (hdone : ∀ p ∈ done, P p) :
    ∀ p ∈ closure step fuel frontier done, P p := by
  induction fuel generalizing frontier done with
  | zero => exact hdone
  | succ fuel ih =>
      cases frontier with
      | nil => exact hdone
      | cons first frontier =>
          have hfresh : ∀ q ∈ (((first :: frontier).flatMap step).eraseDups).filter
              (fun q => !done.contains q), P q := by
            intro q hq
            have hq := List.mem_eraseDups.mp (List.mem_filter.mp hq).1
            obtain ⟨p, hp, hq⟩ := List.mem_flatMap.mp hq
            exact hstep p (hfrontier p hp) q hq
          exact ih hfresh (List.forall_mem_append.mpr ⟨hdone, hfresh⟩)

theorem mem_closure_of_mem {fuel : Nat} {frontier done : List Place} {q : Place} (h : q ∈ done) :
    q ∈ closure step fuel frontier done := by
  induction fuel generalizing frontier done with
  | zero => exact h
  | succ fuel ih =>
      cases frontier with
      | nil => exact h
      | cons first frontier => exact ih (List.mem_append_left _ h)

end Steps

/-! ### Places where matches end -/

section Ends

variable {text : Array Char} {p q : Place}

theorem mem_ends_seq {a b : Pattern} :
    q ∈ ends text (.seq a b) p ↔ ∃ m ∈ ends text a p, q ∈ ends text b m := by
  rw [ends, List.mem_eraseDups, List.mem_flatMap]

theorem mem_ends_one {set : CharSet} : q ∈ ends text (.one set) p ↔
    ∃ c, text[p.offset]? = some c ∧ set.contains c = true ∧
      q = { p with offset := p.offset + 1 } := by
  rw [ends]
  cases text[p.offset]? with
  | none => simp
  | some c => cases hset : set.contains c <;> simp [hset]

theorem mem_ends_anchor {a : Anchor} : q ∈ ends text (.anchor a) p ↔
    q = p ∧ a.holds (before text p.offset) text[p.offset]? = true := by
  rw [ends]
  cases a.holds (before text p.offset) text[p.offset]? <;> simp

/-- All characters between two places are in a set. -/
def AllIn (text : Array Char) (set : CharSet) (start stop : Nat) : Prop :=
  ∀ i, start ≤ i → i < stop → ∃ c, text[i]? = some c ∧ set.contains c = true

/-- Repeating a set of characters passes over characters of this set only. -/
theorem allIn_of_mem_ends_many {set : CharSet}
    (h : q ∈ ends text (.many 0 none (.one set)) p) : AllIn text set p.offset q.offset := by
  rw [ends] at h
  refine closure_induction (P := fun q => AllIn text set p.offset q.offset)
    (fun m hm q hq => ?_) ?_ ?_ q h
  · obtain ⟨c, hc, hset, rfl⟩ := mem_ends_one.mp hq
    intro i hstart hstop
    rcases Nat.lt_succ_iff_lt_or_eq.mp hstop with hlt | rfl
    · exact hm i hstart hlt
    · exact ⟨c, hc, hset⟩
  all_goals
    intro m hm
    obtain rfl := List.mem_singleton.mp hm
    intro i hstart hstop
    exact absurd hstart (Nat.not_le.mpr hstop)

/-- A repeated set of characters is matched wherever one character of the set stands. -/
theorem ends_some_eq_nil {set : CharSet} :
    ends text (.many 1 none (.one set)) p = [] ↔
      ∀ c, text[p.offset]? = some c → set.contains c = false := by
  have hstart : ∀ q, q ∈ (([p].flatMap (ends text (.one set))).eraseDups) ↔
      q ∈ ends text (.one set) p := by
    intro q
    rw [List.mem_eraseDups, List.flatMap_singleton]
  rw [ends, List.eq_nil_iff_forall_not_mem]
  constructor
  · intro h c hc
    by_contra hset
    rw [Bool.not_eq_false] at hset
    exact h _ (mem_closure_of_mem ((hstart _).mpr (mem_ends_one.mpr ⟨c, hc, hset, rfl⟩)))
  · intro h q hq
    have hnone : ∀ q ∈ ends text (.one set) p, False := by
      intro q hq
      obtain ⟨c, hc, hset, -⟩ := mem_ends_one.mp hq
      rw [h c hc] at hset
      cases hset
    have hfirst := fun q hq => hnone q ((hstart q).mp hq)
    exact closure_induction (P := fun _ => False) (fun _ hp => hp.elim) hfirst hfirst q hq

end Ends

/-! ### Matches of whole texts -/

/-- A repeated set of characters is found in exactly the texts with a character of the set. -/
theorem matchesIn_some_iff {set : CharSet} {s : String} :
    matchesIn (.many 1 none (.one set)) s = true ↔ ∃ c ∈ s.toList, set.contains c = true := by
  simp only [matchesIn, List.any_eq_true, Bool.not_eq_true', List.isEmpty_eq_false_iff, ne_eq,
    ends_some_eq_nil, not_forall, Bool.not_eq_false, List.getElem?_toArray, List.mem_range,
    List.size_toArray]
  constructor
  · rintro ⟨i, -, c, hc, hset⟩
    exact ⟨c, List.mem_of_getElem? hc, hset⟩
  · rintro ⟨c, hc, hset⟩
    obtain ⟨i, hi, rfl⟩ := List.getElem_of_mem hc
    exact ⟨i, Nat.lt_succ_of_lt hi, _, List.getElem?_eq_getElem hi, hset⟩

theorem eq_zero_of_textStart {text : Array Char} {i : Nat} {after : Option Char}
    (hi : i ≤ text.size) (h : Anchor.textStart.holds (before text i) after = true) : i = 0 := by
  by_contra hne
  have hlt : i - 1 < text.size := by omega
  rw [before, if_neg hne, Array.getElem?_eq_getElem hlt] at h
  cases h

theorem size_le_of_textEnd {text : Array Char} {i : Nat} {before : Option Char}
    (h : Anchor.textEnd.holds before text[i]? = true) : text.size ≤ i := by
  rw [Anchor.holds, Option.isNone_iff_eq_none, Array.getElem?_eq_none_iff] at h
  exact h

/-- A pattern for one character and any number of others, from the start of the text to its end, is
matched by no other texts. -/
theorem exists_cons_of_matchesIn {first others : CharSet} {s : String}
    (h : matchesIn (.seq (.anchor .textStart) (.seq (.one first)
      (.seq (.many 0 none (.one others)) (.anchor .textEnd)))) s = true) :
    ∃ c rest, s.toList = c :: rest ∧ first.contains c = true ∧
      ∀ d ∈ rest, others.contains d = true := by
  rw [matchesIn, List.any_eq_true] at h
  obtain ⟨i, hi, hends⟩ := h
  rw [Bool.not_eq_true', List.isEmpty_eq_false_iff_exists_mem] at hends
  obtain ⟨q, hq⟩ := hends
  obtain ⟨start, hstart, hq⟩ := mem_ends_seq.mp hq
  obtain ⟨rfl, hzero⟩ := mem_ends_anchor.mp hstart
  obtain rfl := eq_zero_of_textStart (Nat.le_of_lt_succ (List.mem_range.mp hi)) hzero
  obtain ⟨second, hsecond, hq⟩ := mem_ends_seq.mp hq
  obtain ⟨c, hc, hfirst, rfl⟩ := mem_ends_one.mp hsecond
  obtain ⟨last, hlast, hq⟩ := mem_ends_seq.mp hq
  obtain ⟨rfl, hend⟩ := mem_ends_anchor.mp hq
  have hall := allIn_of_mem_ends_many hlast
  have hsize := size_le_of_textEnd hend
  rw [List.getElem?_toArray] at hc
  rw [List.size_toArray] at hsize
  obtain ⟨rest, hrest⟩ := List.head?_eq_some_iff.mp (List.head?_eq_getElem?.trans hc)
  refine ⟨c, rest, hrest, hfirst, fun d hd => ?_⟩
  obtain ⟨k, hk⟩ := List.mem_iff_getElem?.mp hd
  have hget : s.toList[k + 1]? = some d := by rw [hrest, List.getElem?_cons_succ, hk]
  have hlt := (List.getElem?_eq_some_iff.mp hget).1
  obtain ⟨e, he, hothers⟩ := hall (k + 1) (Nat.le_add_left 1 k) (Nat.lt_of_lt_of_le hlt hsize)
  rw [List.getElem?_toArray, hget] at he
  exact Option.some.inj he ▸ hothers

end ResourceApi.Pattern
