import ResourceApi.Proofs.Json.Cutting

/-!
The order of what a selector picks. A selector goes by its cuts: of two parts, the one whose first
differing piece is picked sooner comes first. Where nothing descends this is the order of the
document, in which a value stands before its parts and these stand in their order. A descent leaves
this order, for it finds the member of a value before what lies deeper in the members before it.
-/

namespace ResourceApi.Json

mutual

/-- The paths to a value and all inside it: the value itself, then its parts from the first to the
last, each with all inside it. -/
def walk : Json → List Path
  | .array items => [] :: walkItems 0 items
  | .object members => [] :: walkMembers members
  | _ => [[]]

def walkItems (index : Nat) : List Json → List Path
  | [] => []
  | item :: items => (walk item).map (.index index :: ·) ++ walkItems (index + 1) items

def walkMembers : List (String × Json) → List Path
  | [] => []
  | entry :: members => walkMember entry ++ walkMembers members

def walkMember : String × Json → List Path
  | (key, v) => (walk v).map (.key key :: ·)

end

theorem walkItems_eq (index : Nat) (items : List Json) :
    walkItems index items =
      (items.mapIdx fun i item => (walk item).map (.index (index + i) :: ·)).flatten := by
  induction items generalizing index with
  | nil => rfl
  | cons item items ih =>
      rw [walkItems, ih, List.mapIdx_cons, List.flatten_cons]
      simp only [Nat.add_assoc, Nat.add_comm 1, Nat.add_zero]

theorem walkMembers_eq (members : Entries Json) :
    walkMembers members = members.flatMap fun entry => (walk entry.2).map (.key entry.1 :: ·) := by
  induction members with
  | nil => rfl
  | cons entry members ih => rw [walkMembers, ih, walkMember, List.flatMap_cons]

theorem walk_eq (v : Json) :
    walk v = [] :: v.children.flatMap fun part => (walk part.2).map (part.1 :: ·) := by
  cases v with
  | null | bool | number | string => rfl
  | array items =>
      have hmap : (items.mapIdx fun i item => (Step.index i, item)).map
          (fun part => (walk part.2).map (part.1 :: ·)) =
          items.mapIdx fun i item => (walk item).map (.index i :: ·) := by
        rw [List.mapIdx_eq_zipIdx_map, List.map_map, List.mapIdx_eq_zipIdx_map]
        rfl
      rw [walk, walkItems_eq, children, List.flatMap_def, hmap]
      simp only [Nat.zero_add]
  | object members => rw [walk, walkMembers_eq, children, List.flatMap_map]

/-- A walk comes to every part once. -/
theorem nodup_walk {v : Json} (hv : v.DistinctKeys) : (walk v).Nodup := by
  induction v using childrenInduction with
  | h v ih =>
      have hinside : (v.children.flatMap fun part => (walk part.2).map (part.1 :: ·)).Nodup := by
        refine List.pairwise_flatMap.mpr ⟨fun part hpart => ?_, ?_⟩
        · have hstep := hv.mem_children_iff.mp hpart
          exact (ih part hpart (hv.step hstep)).map fun _ _ heq => (List.cons.inj heq).2
        · refine (pairwise_children v).imp fun hbefore path hpath other hother heq => ?_
          obtain ⟨p, -, rfl⟩ := List.mem_map.mp hpath
          obtain ⟨q, -, rfl⟩ := List.mem_map.mp hother
          exact hv.ne_of_stepBefore hbefore (List.cons.inj heq).1
      rw [walk_eq]
      exact List.nodup_cons.mpr ⟨by simp, hinside⟩

namespace Selector

/-! ### Without descents -/

theorem sublist_step (v : Json) (step : Step) :
    ((v.step? step).map fun w => (⟨[step], w⟩ : Selected)).toList.Sublist
      (v.children.map fun part => ⟨[part.1], part.2⟩) := by
  cases hstep : v.step? step with
  | none => exact List.nil_sublist _
  | some w =>
      refine List.singleton_sublist.mpr ?_
      exact List.mem_map_of_mem (mem_children_of_step? hstep)

theorem sublist_pick {segment : Segment} (v : Json) (hstep : segment.isDescent = false) :
    (segment.pick ⟨[], v⟩).Sublist (v.children.map fun part => ⟨[part.1], part.2⟩) := by
  cases segment with
  | child name => exact sublist_step v (.key name)
  | index n => exact sublist_step v (.index n)
  | wildcard => exact .refl _
  | descendant name => cases hstep

theorem sublist_walk {segments : List Segment}
    (hsteps : ∀ segment ∈ segments, segment.isDescent = false) (v : Json) :
    ((cutsFrom segments v).map fun cut => cut.1.flatten).Sublist (walk v) := by
  induction segments generalizing v with
  | nil =>
      rw [walk_eq]
      exact (List.nil_sublist _).cons_cons []
  | cons segment segments ih =>
      obtain ⟨hstep, hsteps⟩ := List.forall_mem_cons.mp hsteps
      rw [cutsFrom, List.map_flatMap, walk_eq]
      refine .cons [] (((sublist_pick v hstep).flatMap _).trans ?_)
      rw [List.flatMap_map]
      refine List.Sublist.flatMap_right _ fun part _ => ?_
      have hmap : (((cutsFrom segments part.2).map fun cut => ([part.1] :: cut.1, cut.2)).map
          fun cut => cut.1.flatten) =
          ((cutsFrom segments part.2).map fun cut => cut.1.flatten).map (part.1 :: ·) := by
        rw [List.map_map, List.map_map]
        rfl
      rw [hmap]
      exact (ih hsteps part.2).map _

/-! ### The order of a document -/

/-- No part is picked before one that stands earlier in the document. -/
def InDocumentOrder (root : Json) (paths : List Path) : Prop :=
  paths.Pairwise fun p q => (walk root).idxOf p ≤ (walk root).idxOf q

instance (root : Json) (paths : List Path) : Decidable (InDocumentOrder root paths) :=
  inferInstanceAs (Decidable (paths.Pairwise _))

theorem inDocumentOrder_of_sublist {root : Json} (hroot : root.DistinctKeys) {paths : List Path}
    (h : paths.Sublist (walk root)) : InDocumentOrder root paths := by
  refine List.Pairwise.sublist h (List.pairwise_iff_getElem.mpr fun i j hi hj hlt => ?_)
  rw [(nodup_walk hroot).idxOf_getElem i hi, (nodup_walk hroot).idxOf_getElem j hj]
  exact Nat.le_of_lt hlt

/-- A selector goes by its cuts, of which each is made once, in their order. If it descends nowhere,
what it picks is part of a walk through the document, and so in the order of the document. -/
theorem select_goes_by_cuts {root : Json} (hroot : root.DistinctKeys) (selector : Selector) :
    (∃ cuts : List (List Path),
      (selector.select root).map Selected.path = cuts.map List.flatten ∧
      (∀ pieces, pieces ∈ cuts ↔ List.Forall₂ Segment.Takes selector.segments pieces ∧
        (root.at? pieces.flatten).isSome) ∧
      cuts.Pairwise (CutBefore selector.segments root)) ∧
    ((∀ segment ∈ selector.segments, segment.isDescent = false) →
      ((selector.select root).map Selected.path).Sublist (walk root) ∧
      InDocumentOrder root ((selector.select root).map Selected.path)) := by
  refine ⟨⟨(cutsFrom selector.segments root).map Prod.fst, ?_, ?_, ?_⟩, fun hsteps => ?_⟩
  · exact map_path_select selector
  · exact fun pieces => mem_map_cutsFrom hroot
  · exact pairwise_cutsFrom selector.segments hroot
  · have hsublist : ((selector.select root).map Selected.path).Sublist (walk root) := by
      rw [map_path_select, List.map_map]
      exact sublist_walk hsteps root
    exact ⟨hsublist, inDocumentOrder_of_sublist hroot hsublist⟩

/-- A member with a key inside an earlier member, then one with this key. -/
def laterMember : Json :=
  .object [("a", .object [("k", .bool true)]), ("k", .bool false)]

theorem distinctKeys_laterMember : laterMember.DistinctKeys := by
  refine .object (by decide) ?_
  simp only [List.forall_mem_cons, List.not_mem_nil, false_imp_iff, implies_true, and_true]
  exact ⟨.object (by decide) (by simpa using .bool true), .bool false⟩

def allMembers : Selector := ⟨"$.*", [.wildcard]⟩

def oneDescent : Selector := ⟨"$..k", [.descendant "k"]⟩

theorem select_goes_by_cuts_laterMember :
    laterMember.DistinctKeys ∧
    (∃ cuts : List (List Path),
      [[.key "k"], [.key "a", .key "k"]] = cuts.map List.flatten ∧
      cuts.Pairwise (CutBefore oneDescent.segments laterMember)) ∧
    (∀ segment ∈ allMembers.segments, segment.isDescent = false) ∧
    InDocumentOrder laterMember ((allMembers.select laterMember).map Selected.path) := by
  obtain ⟨⟨cuts, hpaths, -, hcuts⟩, -⟩ := select_goes_by_cuts distinctKeys_laterMember oneDescent
  obtain ⟨-, hsteps⟩ := select_goes_by_cuts distinctKeys_laterMember allMembers
  have hflat : ∀ segment ∈ allMembers.segments, segment.isDescent = false := by decide
  have hfound : (oneDescent.select laterMember).map Selected.path =
      [[.key "k"], [.key "a", .key "k"]] := by decide +kernel
  exact ⟨distinctKeys_laterMember, ⟨cuts, hfound.symm.trans hpaths, hcuts⟩, hflat,
    (hsteps hflat).2⟩

/-- The member of the value itself is picked before the one inside the member before it. -/
theorem descent_leaves_document_order :
    laterMember.DistinctKeys ∧
    (oneDescent.select laterMember).map Selected.pointer = ["/k", "/a/k"] ∧
    ¬ InDocumentOrder laterMember ((oneDescent.select laterMember).map Selected.path) :=
  ⟨distinctKeys_laterMember, by decide +kernel, by decide +kernel⟩

end Selector

end ResourceApi.Json
