import ResourceApi.Json.Selector
import ResourceApi.Proofs.Json.Trees

/-!
What a selector picks stands at the path it is picked with, if no object has a key twice. Each
segment keeps this, so a whole selector does.
-/

namespace ResourceApi.Json

theorem at?_append (v : Json) (p q : Path) : v.at? (p ++ q) = (v.at? p).bind (at? · q) := by
  induction p generalizing v with
  | nil => rfl
  | cons step p ih =>
      rw [List.cons_append, at?, at?]
      cases v.step? step with
      | none => rfl
      | some part => exact ih part

theorem at?_concat {root v part : Json} {path : Path} {step : Step}
    (hv : root.at? path = some v) (hpart : v.step? step = some part) :
    root.at? (path ++ [step]) = some part := by
  rw [at?_append, hv, Option.bind_some, at?, hpart]
  rfl

/-! ### Parts of values without repeated keys -/

theorem DistinctKeys.step {v part : Json} {step : Step} (h : v.DistinctKeys)
    (hpart : v.step? step = some part) : part.DistinctKeys := by
  cases h with
  | null | bool | number | string => cases step <;> cases hpart
  | array h =>
      cases step with
      | key => cases hpart
      | index i => exact h part (List.mem_of_getElem? hpart)
  | object hkeys h =>
      cases step with
      | key k => exact h (k, part) (Entries.mem_of_find? hpart)
      | index => cases hpart

theorem DistinctKeys.at {v part : Json} {path : Path} (h : v.DistinctKeys)
    (hpart : v.at? path = some part) : part.DistinctKeys := by
  induction path generalizing v with
  | nil => exact Option.some.inj hpart ▸ h
  | cons step path ih =>
      obtain ⟨next, hnext, hpart⟩ := Option.bind_eq_some_iff.mp hpart
      exact ih (h.step hnext) hpart

theorem step?_of_mem_children {v part : Json} {step : Step} (h : v.DistinctKeys)
    (hpart : (step, part) ∈ v.children) : v.step? step = some part := by
  cases h with
  | null | bool | number | string => cases hpart
  | array =>
      obtain ⟨i, item, hitem⟩ := List.mem_mapIdx.mp hpart
      obtain ⟨rfl, rfl⟩ := Prod.mk.inj hitem
      exact List.getElem?_eq_getElem item
  | object hkeys =>
      obtain ⟨entry, hentry, heq⟩ := List.mem_map.mp hpart
      obtain ⟨rfl, rfl⟩ := Prod.mk.inj heq
      exact Entries.find?_of_mem hkeys hentry

namespace Selector

/-- A picked part is what stands at its path. -/
def Stands (root : Json) (s : Selected) : Prop := root.at? s.path = some s.value

variable {root : Json} {name : String}

theorem stands_childAt {s part : Selected} (hs : Stands root s) (h : part ∈ childAt name s) :
    Stands root part := by
  obtain ⟨v, hv, rfl⟩ := Option.map_eq_some_iff.mp (Option.mem_toList.mp h)
  exact at?_concat hs hv

/-- What is found inside the items from an index on. -/
theorem mem_descendItems {path : Path} {index : Nat} {items : List Json} {part : Selected}
    (h : part ∈ descendItems name path index items) :
    ∃ i v, items[i]? = some v ∧ part ∈ descend name (path ++ [.index (index + i)]) v := by
  induction items generalizing index with
  | nil => cases h
  | cons item items ih =>
      rcases List.mem_append.mp h with h | h
      · exact ⟨0, item, rfl, h⟩
      · obtain ⟨i, v, hv, h⟩ := ih h
        exact ⟨i + 1, v, hv, by rwa [Nat.add_right_comm, Nat.add_assoc] at h⟩

theorem mem_descendMembers {path : Path} {members : Entries Json} {part : Selected}
    (h : part ∈ descendMembers name path members) :
    ∃ entry ∈ members, part ∈ descend name (path ++ [.key entry.1]) entry.2 := by
  induction members with
  | nil => cases h
  | cons entry members ih =>
      obtain ⟨key, v⟩ := entry
      rcases List.mem_append.mp h with h | h
      · exact ⟨(key, v), List.mem_cons_self, h⟩
      · obtain ⟨found, hfound, h⟩ := ih h
        exact ⟨found, List.mem_cons_of_mem _ hfound, h⟩

theorem stands_descend {path : Path} {v : Json} {part : Selected} (hv : root.at? path = some v)
    (hdistinct : v.DistinctKeys) (h : part ∈ descend name path v) : Stands root part := by
  induction v using inductionOn generalizing path with
  | null | bool | number | string => cases h
  | array items ih =>
      obtain ⟨i, item, hitem, h⟩ := mem_descendItems h
      rw [Nat.zero_add] at h
      have hstep : (Json.array items).step? (.index i) = some item := hitem
      exact ih item (List.mem_of_getElem? hitem) (at?_concat hv hstep) (hdistinct.step hstep) h
  | object members ih =>
      rcases List.mem_append.mp h with h | h
      · exact stands_childAt (s := ⟨path, .object members⟩) hv h
      · obtain ⟨entry, hentry, h⟩ := mem_descendMembers h
        have hstep : (Json.object members).step? (.key entry.1) = some entry.2 := by
          cases hdistinct with
          | object hkeys => exact Entries.find?_of_mem hkeys hentry
        exact ih entry hentry (at?_concat hv hstep) (hdistinct.step hstep) h

theorem stands_pick {segment : Segment} {s part : Selected} (hroot : root.DistinctKeys)
    (hs : Stands root s) (h : part ∈ segment.pick s) : Stands root part := by
  cases segment with
  | child name => exact stands_childAt hs h
  | index n =>
      obtain ⟨v, hv, rfl⟩ := Option.map_eq_some_iff.mp (Option.mem_toList.mp h)
      have hstep : s.value.step? (.index n) = some v := hv
      exact at?_concat hs hstep
  | wildcard =>
      obtain ⟨child, hchild, rfl⟩ := List.mem_map.mp h
      exact at?_concat hs (step?_of_mem_children (hroot.at hs) hchild)
  | descendant name => exact stands_descend hs (hroot.at hs) h

/-- What a selector picks from a value without repeated keys stands at the path it is picked
with. -/
theorem stands_of_mem_select {selector : Selector} {part : Selected} (hroot : root.DistinctKeys)
    (h : part ∈ selector.select root) : Stands root part := by
  have hfold : ∀ (segments : List Segment) (parts : List Selected),
      (∀ s ∈ parts, Stands root s) →
      ∀ s ∈ segments.foldl (fun parts segment => parts.flatMap segment.pick) parts,
        Stands root s := by
    intro segments
    induction segments with
    | nil => exact fun parts hparts => hparts
    | cons segment segments ih =>
        intro parts hparts
        refine ih _ fun s hs => ?_
        obtain ⟨origin, horigin, hs⟩ := List.mem_flatMap.mp hs
        exact stands_pick hroot (hparts origin horigin) hs
  refine hfold selector.segments [⟨[], root⟩] (fun s hs => ?_) part h
  obtain rfl := List.mem_singleton.mp hs
  rfl

end Selector

end ResourceApi.Json
