import ResourceApi.Proofs.Json.Selecting
import ResourceApi.Proofs.Schema.Valid

/-!
Where violations are. A schema finds fault with a value at its path, and with a part of the value at
the path of that part; so a violation always names a place that the document has. Names of members
are checked like strings of their own and are reported where their object stands.
-/

namespace ResourceApi.Schema

/-- Induction on schemas, with the schemas in lists as members of these lists. -/
@[elab_as_elim]
theorem inductionOn {motive : Schema → Prop} (s : Schema) (never : motive .never)
    (all : ∀ parts, (∀ s ∈ parts, motive s) → motive (.all parts))
    (any : ∀ alternatives, (∀ s ∈ alternatives, motive s) → motive (.any alternatives))
    (one : ∀ alternatives, (∀ s ∈ alternatives, motive s) → motive (.one alternatives))
    (negation : ∀ written s, motive s → motive (.negation written s))
    (check : ∀ c, motive (.check c))
    (properties : ∀ known, (∀ entry ∈ known, motive entry.2) → motive (.properties known))
    (closed : ∀ known, (∀ entry ∈ known, motive entry.2) → motive (.closed known))
    (members : ∀ known others, (∀ entry ∈ known, motive entry.2) → motive others →
      motive (.members known others))
    (noMembers : motive .noMembers) (names : ∀ s, motive s → motive (.names s))
    (items : ∀ s, motive s → motive (.items s))
    (tuple : ∀ ss, (∀ s ∈ ss, motive s) → motive (.tuple ss))
    (reference : ∀ pointer, motive (.reference pointer)) : motive s :=
  @Schema.rec motive (fun ss => ∀ s ∈ ss, motive s) (fun known => ∀ entry ∈ known, motive entry.2)
    (fun entry => motive entry.2) never all any one negation check properties closed members
    noMembers names items tuple reference (by simp)
    (fun _ _ hs hss => List.forall_mem_cons.mpr ⟨hs, hss⟩) (by simp)
    (fun _ _ hs hss => List.forall_mem_cons.mpr ⟨hs, hss⟩) (fun _ _ hs => hs) s

/-! ### Places -/

/-- The path is one of the document, and the parts of the value stand below it. -/
structure Placed (root : Json) (path : Json.Path) (v : Json) : Prop where
  isSome : (root.at? path).isSome
  distinct : v.DistinctKeys
  below : ∀ {step part}, v.step? step = some part → root.at? (path ++ [step]) = some part

section Placed

variable {root v : Json} {path : Json.Path}

/-- A part of a document is placed where it stands. -/
theorem placed_at (hroot : root.DistinctKeys) (h : root.at? path = some v) :
    Placed root path v :=
  ⟨Option.isSome_of_eq_some h, hroot.at h, Json.at?_concat h⟩

/-- A string has no parts, so it is placed wherever the document has something. -/
theorem Placed.string (h : Placed root path v) (s : String) : Placed root path (.string s) :=
  ⟨h.isSome, .string s, fun {step part} hpart => by cases step <;> cases hpart⟩

theorem Placed.step (hroot : root.DistinctKeys) (h : Placed root path v) (step : Json.Step)
    {part : Json} (hpart : v.step? step = some part) : Placed root (path ++ [step]) part :=
  placed_at hroot (h.below hpart)

theorem Placed.member (hroot : root.DistinctKeys) {entries : Entries Json}
    (h : Placed root path (.object entries)) {entry : String × Json} (hentry : entry ∈ entries) :
    Placed root (path ++ [.key entry.1]) entry.2 := by
  refine h.step hroot (.key entry.1) ?_
  cases h.distinct with
  | object hkeys => exact Entries.find?_of_mem hkeys hentry

theorem Placed.item (hroot : root.DistinctKeys) {items : List Json}
    (h : Placed root path (.array items)) {i : Nat} {item : Json} (hitem : items[i]? = some item) :
    Placed root (path ++ [.index i]) item :=
  h.step hroot (.index i) hitem

end Placed

/-! ### Violations -/

section Violations

variable {refs : Meaning} {root : Json}

/-- All violations are at paths that the document has. -/
def Inside (root : Json) (found : List Violation) : Prop :=
  ∀ x ∈ found, (root.at? x.path).isSome

theorem inside_nil : Inside root [] := by simp [Inside]

theorem inside_append {found more : List Violation} (h : Inside root found)
    (hmore : Inside root more) : Inside root (found ++ more) :=
  fun x hx => (List.mem_append.mp hx).elim (h x) (hmore x)

theorem inside_flatten {groups : List (List Violation)} (h : ∀ found ∈ groups, Inside root found) :
    Inside root groups.flatten := by
  intro x hx
  obtain ⟨found, hfound, hx⟩ := List.mem_flatten.mp hx
  exact h found hfound x hx

theorem inside_flatMap {α : Type} {as : List α} {f : α → List Violation}
    (h : ∀ a ∈ as, Inside root (f a)) : Inside root (as.flatMap f) := by
  intro x hx
  obtain ⟨a, ha, hx⟩ := List.mem_flatMap.mp hx
  exact h a ha x hx

/-- A fault of the value itself is at the path of the value. -/
theorem inside_here {path : Json.Path} {v : Json} (h : Placed root path v) (u : Json)
    (fault : Fault) : Inside root [⟨path, u, fault⟩] :=
  fun _ hx => (List.mem_singleton.mp hx) ▸ h.isSome

theorem inside_ite {p : Prop} [Decidable p] {found more : List Violation} (h : Inside root found)
    (hmore : Inside root more) : Inside root (if p then found else more) := by
  split
  · exact h
  · exact hmore

/-- The schema finds fault only at places that the document has. -/
def StaysInside (refs : Meaning) (root : Json) (s : Schema) : Prop :=
  ∀ {path v}, Placed root path v → Inside root (violations refs s path v)

variable {known : List (String × Schema)} {path : Json.Path}

theorem inside_known (hroot : root.DistinctKeys)
    (hknown : ∀ entry ∈ known, StaysInside refs root entry.2) {entries : Entries Json}
    (h : Placed root path (.object entries)) :
    Inside root (knownViolations refs known path entries) := by
  induction known with
  | nil => exact inside_nil
  | cons first known ih =>
      obtain ⟨key, s⟩ := first
      obtain ⟨hs, hknown⟩ := List.forall_mem_cons.mp hknown
      rw [knownViolations, entryViolations]
      refine inside_append ?_ (ih hknown)
      split
      · rename_i u hu
        exact hs (h.step hroot (.key key) hu)
      · exact inside_nil

theorem inside_memberViolations (hknown : ∀ entry ∈ known, StaysInside refs root entry.2)
    {key : String} {v : Json} (h : Placed root path v) {found : List Violation}
    (hfound : memberViolations refs known key path v = some found) : Inside root found := by
  rw [memberViolations_eq] at hfound
  obtain ⟨s, hs, rfl⟩ := Option.map_eq_some_iff.mp hfound
  exact hknown _ (Entries.mem_of_find? hs) h

/-- A member that is not known is checked as the others are. -/
theorem inside_member (hknown : ∀ entry ∈ known, StaysInside refs root entry.2) {key : String}
    {v : Json} (h : Placed root path v) {others : List Violation} (hothers : Inside root others) :
    Inside root ((memberViolations refs known key path v).getD others) := by
  cases hfound : memberViolations refs known key path v with
  | none => exact hothers
  | some found => exact inside_memberViolations hknown h hfound

theorem inside_tuple {ss : List Schema} (hss : ∀ s ∈ ss, StaysInside refs root s) {i : Nat}
    {items : List Json}
    (h : ∀ k item, items[k]? = some item → Placed root (path ++ [.index (i + k)]) item) :
    Inside root (tupleViolations refs ss path i items) := by
  induction ss generalizing i items with
  | nil => exact inside_nil
  | cons s ss ih =>
      obtain ⟨hs, hss⟩ := List.forall_mem_cons.mp hss
      cases items with
      | nil => exact inside_nil
      | cons item items =>
          rw [tupleViolations]
          refine inside_append (hs (h 0 item rfl)) (ih hss fun k later hlater => ?_)
          have hplaced := h (k + 1) later hlater
          rwa [Nat.add_comm k, ← Nat.add_assoc] at hplaced

/-! Each kind of schema, by those it is made of. -/

theorem staysInside_never : StaysInside refs root .never := by
  intro path v h
  rw [violations]
  exact inside_here h v _

theorem staysInside_all {parts : List Schema} (hparts : ∀ s ∈ parts, StaysInside refs root s) :
    StaysInside refs root (.all parts) := by
  intro path v h
  rw [violations, eachViolations_eq_map]
  refine inside_flatten fun found hfound => ?_
  obtain ⟨s, hs, rfl⟩ := List.mem_map.mp hfound
  exact hparts s hs h

theorem staysInside_any {alternatives : List Schema} :
    StaysInside refs root (.any alternatives) := by
  intro path v h
  rw [violations]
  exact inside_ite inside_nil (inside_here h v _)

theorem staysInside_one {alternatives : List Schema} :
    StaysInside refs root (.one alternatives) := by
  intro path v h
  rw [violations]
  split
  · exact inside_here h v _
  · exact inside_nil
  · exact inside_here h v _

theorem staysInside_negation {written : Json} {s : Schema} :
    StaysInside refs root (.negation written s) := by
  intro path v h
  rw [violations]
  exact inside_ite (inside_here h v _) inside_nil

theorem staysInside_check {c : Check} : StaysInside refs root (.check c) := by
  intro path v h
  rw [violations]
  intro x hx
  obtain ⟨fault, -, rfl⟩ := List.mem_map.mp hx
  exact h.isSome

theorem staysInside_properties (hroot : root.DistinctKeys)
    (hknown : ∀ entry ∈ known, StaysInside refs root entry.2) :
    StaysInside refs root (.properties known) := by
  intro path v h
  cases v with
  | object entries => exact inside_known hroot hknown h
  | null | bool | number | string | array => exact inside_nil

theorem staysInside_closed (hroot : root.DistinctKeys)
    (hknown : ∀ entry ∈ known, StaysInside refs root entry.2) :
    StaysInside refs root (.closed known) := by
  intro path v h
  cases v with
  | object entries =>
      rw [violations]
      refine inside_append (inside_flatMap fun entry hentry => ?_)
        (inside_ite inside_nil (inside_here h _ _))
      exact inside_member hknown (h.member hroot hentry) inside_nil
  | null | bool | number | string | array => exact inside_nil

theorem staysInside_members (hroot : root.DistinctKeys)
    (hknown : ∀ entry ∈ known, StaysInside refs root entry.2) {others : Schema}
    (hothers : StaysInside refs root others) : StaysInside refs root (.members known others) := by
  intro path v h
  cases v with
  | object entries =>
      rw [violations]
      refine inside_flatMap fun entry hentry => ?_
      have hplaced := h.member hroot hentry
      exact inside_member hknown hplaced (hothers hplaced)
  | null | bool | number | string | array => exact inside_nil

theorem staysInside_noMembers : StaysInside refs root .noMembers := by
  intro path v h
  cases v with
  | object entries =>
      cases entries with
      | nil => exact inside_nil
      | cons entry entries => exact inside_here h _ _
  | null | bool | number | string | array => exact inside_nil

theorem staysInside_names {s : Schema} (hs : StaysInside refs root s) :
    StaysInside refs root (.names s) := by
  intro path v h
  cases v with
  | object entries =>
      rw [violations]
      exact inside_flatMap fun entry _ => hs (h.string entry.1)
  | null | bool | number | string | array => exact inside_nil

theorem staysInside_items (hroot : root.DistinctKeys) {s : Schema}
    (hs : StaysInside refs root s) : StaysInside refs root (.items s) := by
  intro path v h
  cases v with
  | array items =>
      rw [violations]
      refine inside_flatten fun found hfound => ?_
      obtain ⟨i, hi, rfl⟩ := List.mem_mapIdx.mp hfound
      exact hs (h.item hroot (List.getElem?_eq_getElem hi))
  | null | bool | number | string | object => exact inside_nil

theorem staysInside_tuple (hroot : root.DistinctKeys) {ss : List Schema}
    (hss : ∀ s ∈ ss, StaysInside refs root s) : StaysInside refs root (.tuple ss) := by
  intro path v h
  cases v with
  | array items =>
      rw [violations]
      refine inside_tuple hss fun k item hitem => ?_
      rw [Nat.zero_add]
      exact h.item hroot hitem
  | null | bool | number | string | object => exact inside_nil

/-- If references stay inside the document, then so does every schema. -/
theorem staysInside (hroot : root.DistinctKeys)
    (hrefs : ∀ pointer path v, Placed root path v → Inside root (refs pointer path v))
    (s : Schema) : StaysInside refs root s := by
  induction s using inductionOn with
  | never => exact staysInside_never
  | all parts ih => exact staysInside_all ih
  | any alternatives _ => exact staysInside_any
  | one alternatives _ => exact staysInside_one
  | negation written s _ => exact staysInside_negation
  | check c => exact staysInside_check
  | properties known ih => exact staysInside_properties hroot ih
  | closed known ih => exact staysInside_closed hroot ih
  | members known others ih ihothers => exact staysInside_members hroot ih ihothers
  | noMembers => exact staysInside_noMembers
  | names s ih => exact staysInside_names ih
  | items s ih => exact staysInside_items hroot ih
  | tuple ss ih => exact staysInside_tuple hroot ih
  | reference pointer =>
      intro path v h
      rw [violations]
      exact hrefs pointer path v h

end Violations

namespace Document

/-- Following references leads nowhere outside the document that is checked. -/
theorem inside_meaning (d : Document) {root : Json} (hroot : root.DistinctKeys) (n : Nat)
    (pointer : String) (path : Json.Path) (v : Json) (h : Placed root path v) :
    Inside root (d.meaning n pointer path v) := by
  induction n generalizing pointer path v with
  | zero => exact inside_nil
  | succ n ih =>
      rw [meaning]
      split
      · exact staysInside hroot ih _ h
      · exact inside_nil

/-- Every violation of a schema is at a path of the document. -/
theorem inside_violations (d : Document) {root : Json} (hroot : root.DistinctKeys) :
    Inside root (d.violations root) :=
  staysInside hroot (d.inside_meaning hroot _) d.root (placed_at hroot rfl)

end Document

end ResourceApi.Schema
