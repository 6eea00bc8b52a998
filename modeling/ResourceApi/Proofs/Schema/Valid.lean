import Mathlib.Tactic.Common
import ResourceApi.Proofs.Dictionaries
import ResourceApi.Schema.Wellformed

/-!
Values without violations, one lemma for each part of a schema. A schema with several parts is met
where each part is met; members and items are met one by one.
-/

namespace ResourceApi.Schema

open Json (Kind)

variable {refs : Meaning} {path : Json.Path} {v : Json}

/-! ### Checks of the value itself -/

theorem faultUnless_eq_nil {condition : Bool} {f : Fault} :
    faultUnless condition f = [] ↔ condition = true := by
  cases condition <;> simp [faultUnless]

theorem violations_check_eq_nil {c : Check} :
    violations refs (.check c) path v = [] ↔ c.faults v = [] := by
  cases v <;> simp [violations]

theorem violations_ofKind_eq_nil {k : Kind} :
    violations refs (ofKind k) path v = [] ↔ k.holds Kind.isWhole v = true := by
  rw [ofKind, violations_check_eq_nil]
  simp [Check.faults, faultUnless_eq_nil]

theorem violations_required_eq_nil {names : List String} {entries : Entries Json} :
    violations refs (.check (.required names)) path (.object entries) = [] ↔
      ∀ key ∈ names, (entries.find? key).isSome := by
  rw [violations_check_eq_nil]
  simp [Check.faults, List.filter_eq_nil_iff, Option.isSome_iff_ne_none]

theorem holds_string {integer : Json.Number → Bool} :
    Kind.string.holds integer v = true ↔ ∃ s, v = .string s := by
  cases v <;> simp [Kind.holds]

theorem holds_boolean {integer : Json.Number → Bool} :
    Kind.boolean.holds integer v = true ↔ ∃ b, v = .bool b := by
  cases v <;> simp [Kind.holds]

theorem holds_array {integer : Json.Number → Bool} :
    Kind.array.holds integer v = true ↔ ∃ items, v = .array items := by
  cases v <;> simp [Kind.holds]

theorem holds_object {integer : Json.Number → Bool} :
    Kind.object.holds integer v = true ↔ ∃ entries, v = .object entries := by
  cases v <;> simp [Kind.holds]

/-! ### Parts of schemas -/

theorem eachViolations_eq_map (parts : List Schema) :
    eachViolations refs parts path v = parts.map fun s => violations refs s path v := by
  induction parts with
  | nil => rfl
  | cons s parts ih => rw [eachViolations, ih, List.map_cons]

theorem violations_all_eq_nil {parts : List Schema} :
    violations refs (.all parts) path v = [] ↔ ∀ s ∈ parts, violations refs s path v = [] := by
  rw [violations, eachViolations_eq_map]
  simp

theorem violations_any_eq_nil {alternatives : List Schema} :
    violations refs (.any alternatives) path v = [] ↔
      ∃ s ∈ alternatives, violations refs s path v = [] := by
  rw [violations, eachViolations_eq_map]
  simp

/-! ### Members and items -/

section Members

variable {entries : Entries Json} {known : List (String × Schema)}

theorem violations_properties_eq_nil :
    violations refs (.properties known) path (.object entries) = [] ↔
      ∀ entry ∈ known, ∀ u, entries.find? entry.1 = some u →
        violations refs entry.2 (path ++ [.key entry.1]) u = [] := by
  rw [violations]
  induction known with
  | nil => simp [knownViolations]
  | cons first known ih =>
      obtain ⟨key, s⟩ := first
      rw [knownViolations, List.append_eq_nil_iff, ih, List.forall_mem_cons, entryViolations]
      cases entries.find? key <;> simp

theorem memberViolations_eq (key : String) (path : Json.Path) (u : Json) :
    memberViolations refs known key path u =
      (Entries.find? key known).map fun s => violations refs s path u := by
  induction known with
  | nil => rfl
  | cons first known ih =>
      obtain ⟨name, s⟩ := first
      by_cases hkey : name = key
      · simp [memberViolations, entryValueViolations, Entries.find?, hkey]
      · simp [memberViolations, Entries.find?, hkey, ih]

theorem violations_closed_eq_nil :
    violations refs (.closed known) path (.object entries) = [] ↔
      ∀ entry ∈ entries, ∃ s, Entries.find? entry.1 known = some s ∧
        violations refs s (path ++ [.key entry.1]) entry.2 = [] := by
  rw [violations, List.append_eq_nil_iff, List.flatMap_eq_nil_iff]
  simp only [memberViolations_eq]
  constructor
  · rintro ⟨hmembers, hunknown⟩ entry hentry
    cases hfind : Entries.find? entry.1 known with
    | none =>
        split at hunknown
        · rename_i hempty
          rw [List.isEmpty_iff, List.filter_eq_nil_iff] at hempty
          have := hempty entry.1 (List.mem_map_of_mem hentry)
          simp [hfind] at this
        · cases hunknown
    | some s =>
        have := hmembers entry hentry
        rw [hfind] at this
        exact ⟨s, rfl, this⟩
  · intro h
    constructor
    · intro entry hentry
      obtain ⟨s, hs, hnil⟩ := h entry hentry
      rw [hs]
      exact hnil
    · rw [if_pos]
      rw [List.isEmpty_iff, List.filter_eq_nil_iff]
      intro key hkey
      obtain ⟨entry, hentry, rfl⟩ := List.mem_map.mp hkey
      obtain ⟨s, hs, -⟩ := h entry hentry
      simp [hs]

end Members

theorem violations_items_eq_nil {s : Schema} {items : List Json} :
    violations refs (.items s) path (.array items) = [] ↔
      ∀ i u, items[i]? = some u → violations refs s (path ++ [.index i]) u = [] := by
  rw [violations, List.flatten_eq_nil_iff]
  simp only [List.mem_mapIdx]
  constructor
  · intro h i u hitem
    obtain ⟨hi, rfl⟩ := List.getElem?_eq_some_iff.mp hitem
    exact h _ ⟨i, hi, rfl⟩
  · rintro h group ⟨i, hi, rfl⟩
    exact h i _ (List.getElem?_eq_getElem hi)

/-- A validator says nothing of a document in which the schema finds nothing wrong. -/
theorem Document.validate_eq_nil {d : Document} :
    d.validate v = [] ↔ d.violations v = [] := List.map_eq_nil_iff

end ResourceApi.Schema
