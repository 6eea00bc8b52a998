import Mathlib.Data.Set.Card
import ResourceApi.Proofs.Json.Pointers
import ResourceApi.Proofs.Json.Selecting

/-!
How often a selector picks a part. A selector cuts the path to the part into pieces, one for each of
its segments, and picks the part once for each way to do so. Only selectors that descend twice can
pick a part twice.
-/

namespace ResourceApi.Json

/-! ### Parts and the steps to them -/

theorem mem_children_of_step? {v part : Json} {step : Step} (h : v.step? step = some part) :
    (step, part) ∈ v.children := by
  cases v with
  | null | bool | number | string => cases step <;> cases h
  | array items =>
      cases step with
      | key => cases h
      | index i =>
          obtain ⟨hi, rfl⟩ := List.getElem?_eq_some_iff.mp h
          exact List.mem_mapIdx.mpr ⟨i, hi, rfl⟩
  | object members =>
      cases step with
      | key k => exact List.mem_map.mpr ⟨(k, part), Entries.mem_of_find? h, rfl⟩
      | index => cases h

theorem DistinctKeys.mem_children_iff {v part : Json} {step : Step} (h : v.DistinctKeys) :
    (step, part) ∈ v.children ↔ v.step? step = some part :=
  ⟨step?_of_mem_children h, mem_children_of_step?⟩

theorem DistinctKeys.nodup_steps {v : Json} (h : v.DistinctKeys) :
    (v.children.map Prod.fst).Nodup := by
  cases h with
  | null | bool | number | string => exact .nil
  | @array items =>
      refine List.pairwise_iff_getElem.mpr fun i j _ _ hlt heq => ?_
      simp only [children, List.getElem_map, List.getElem_mapIdx, Step.index.injEq] at heq
      omega
  | @object members hkeys =>
      have hsteps : ((Json.object members).children.map Prod.fst) = members.keys.map .key := by
        rw [children, List.map_map, Entries.keys, List.map_map]
        rfl
      rw [hsteps]
      exact hkeys.map fun _ _ heq => Step.key.inj heq

/-- Induction on values from the parts to the whole. -/
theorem childrenInduction {motive : Json → Prop} (v : Json)
    (h : ∀ v, (∀ part ∈ v.children, motive part.2) → motive v) : motive v := by
  induction v using inductionOn with
  | null | bool | number | string => exact h _ (by simp [children])
  | array items ih =>
      refine h _ fun part hpart => ?_
      obtain ⟨i, hi, rfl⟩ := List.mem_mapIdx.mp hpart
      exact ih items[i] (List.getElem_mem hi)
  | object members ih =>
      refine h _ fun part hpart => ?_
      obtain ⟨entry, hentry, rfl⟩ := List.mem_map.mp hpart
      exact ih entry hentry

/-- One step stands before another one among the steps to the parts of a value. -/
def StepBefore (v : Json) (s t : Step) : Prop := [s, t].Sublist (v.children.map Prod.fst)

theorem DistinctKeys.ne_of_stepBefore {v : Json} {s t : Step} (h : v.DistinctKeys)
    (hbefore : v.StepBefore s t) : s ≠ t := by
  rintro rfl
  exact List.nodup_iff_sublist.mp h.nodup_steps s hbefore

theorem pairwise_children (v : Json) :
    v.children.Pairwise fun part other => v.StepBefore part.1 other.1 := by
  refine List.pairwise_iff_forall_sublist.mpr fun hsub => ?_
  exact hsub.map Prod.fst

namespace Selector

/-- A part of a part, as a part of the whole. -/
def below (path : Path) (s : Selected) : Selected := ⟨path ++ s.path, s.value⟩

theorem below_below (p q : Path) (s : Selected) : below p (below q s) = below (p ++ q) s := by
  rw [below, below, below, List.append_assoc]

/-! ### What a segment picks -/

theorem descendItems_eq (name : String) (path : Path) (index : Nat) (items : List Json) :
    descendItems name path index items = (items.mapIdx fun i item =>
      descend name (path ++ [.index (index + i)]) item).flatten := by
  induction items generalizing index with
  | nil => rfl
  | cons item items ih =>
      rw [descendItems, ih, List.mapIdx_cons, List.flatten_cons]
      simp only [Nat.add_assoc, Nat.add_comm 1, Nat.add_zero]

theorem descendMembers_eq (name : String) (path : Path) (members : Entries Json) :
    descendMembers name path members = members.flatMap fun entry =>
      descend name (path ++ [.key entry.1]) entry.2 := by
  induction members with
  | nil => rfl
  | cons entry members ih => rw [descendMembers, ih, descendMember, List.flatMap_cons]

theorem descend_eq (name : String) (path : Path) (v : Json) :
    descend name path v = childAt name ⟨path, v⟩ ++
      v.children.flatMap fun part => descend name (path ++ [part.1]) part.2 := by
  cases v with
  | null | bool | number | string => rfl
  | array items =>
      have hmap : (items.mapIdx fun i item => (Step.index i, item)).map
          (fun part => descend name (path ++ [part.1]) part.2) =
          items.mapIdx fun i item => descend name (path ++ [.index i]) item := by
        rw [List.mapIdx_eq_zipIdx_map, List.map_map, List.mapIdx_eq_zipIdx_map]
        rfl
      rw [descend, descendItems_eq, children, List.flatMap_def, hmap]
      simp only [Nat.zero_add]
      rfl
  | object members => rw [descend, descendMembers_eq, children, List.flatMap_map]

theorem childAt_below (name : String) (path : Path) (v : Json) :
    childAt name ⟨path, v⟩ = (childAt name ⟨[], v⟩).map (below path) := by
  rw [childAt, childAt]
  cases v.member? name <;> rfl

theorem descend_below (name : String) (path : Path) (v : Json) :
    descend name path v = (descend name [] v).map (below path) := by
  induction v using childrenInduction generalizing path with
  | h v ih =>
      rw [descend_eq, descend_eq name [], childAt_below, List.map_append, List.map_flatMap]
      congr 1
      refine List.flatMap_congr fun part hpart => ?_
      rw [ih part hpart, ih part hpart ([] ++ [part.1]), List.map_map]
      exact List.map_congr_left fun s _ => (below_below path [part.1] s).symm

theorem pick_below (segment : Segment) (path : Path) (v : Json) :
    segment.pick ⟨path, v⟩ = (segment.pick ⟨[], v⟩).map (below path) := by
  cases segment with
  | child name => exact childAt_below name path v
  | index n =>
      rw [Segment.pick, Segment.pick]
      cases v.item? n <;> rfl
  | wildcard =>
      rw [Segment.pick, Segment.pick, List.map_map]
      rfl
  | descendant name => exact descend_below name path v

/-- The pieces of a path that a segment can take: one step, or for a descent any number of steps of
which the last one is the key. -/
def Segment.Takes : Segment → Path → Prop
  | .child name, piece => piece = [.key name]
  | .index n, piece => piece = [.index n]
  | .wildcard, piece => ∃ step, piece = [step]
  | .descendant name, piece => piece.getLast? = some (.key name)

theorem at?_singleton (v : Json) (step : Step) : v.at? [step] = v.step? step := by
  rw [at?]
  cases v.step? step <;> rfl

section Found

variable {v : Json} {part : Selected}

/-- What stands at the end of one step is picked by it. -/
theorem mem_step (step : Step) :
    part ∈ ((v.step? step).map fun w => (⟨[step], w⟩ : Selected)).toList ↔
      part.path = [step] ∧ v.at? part.path = some part.value := by
  rw [Option.mem_toList]
  constructor
  · intro h
    obtain ⟨w, hw, rfl⟩ := Option.map_eq_some_iff.mp h
    exact ⟨rfl, (at?_singleton v step).trans hw⟩
  · obtain ⟨path, u⟩ := part
    rintro ⟨rfl, hvalue⟩
    exact Option.map_eq_some_iff.mpr ⟨u, (at?_singleton v step).symm.trans hvalue, rfl⟩

theorem mem_childAt {name : String} :
    part ∈ childAt name ⟨[], v⟩ ↔
      part.path = [.key name] ∧ v.at? part.path = some part.value :=
  mem_step (.key name)

theorem mem_descend_iff {name : String} :
    part ∈ descend name [] v ↔ part ∈ childAt name ⟨[], v⟩ ∨
      ∃ child ∈ v.children, ∃ inner ∈ descend name [] child.2, below [child.1] inner = part := by
  have hchild : ∀ child : Step × Json, part ∈ descend name ([] ++ [child.1]) child.2 ↔
      ∃ inner ∈ descend name [] child.2, below [child.1] inner = part := by
    intro child
    rw [descend_below, List.mem_map]
    rfl
  rw [descend_eq, List.mem_append, List.mem_flatMap]
  simp only [hchild]

/-- A descent finds what stands at the end of a path of which the last step is the key. -/
theorem mem_descend {name : String} (hv : v.DistinctKeys) :
    part ∈ descend name [] v ↔
      part.path.getLast? = some (.key name) ∧ v.at? part.path = some part.value := by
  induction v using childrenInduction generalizing part with
  | h v ih =>
      rw [mem_descend_iff, mem_childAt]
      constructor
      · rintro (⟨hpath, hvalue⟩ | ⟨⟨step, w⟩, hw, inner, hinner, rfl⟩)
        · exact ⟨by rw [hpath]; rfl, hvalue⟩
        · have hstep := hv.mem_children_iff.mp hw
          obtain ⟨hlast, hvalue⟩ := (ih _ hw (hv.step hstep)).mp hinner
          refine ⟨?_, ?_⟩
          · rw [below, List.getLast?_append, hlast]
            rfl
          · rw [below, List.singleton_append, at?, hstep]
            exact hvalue
      · obtain ⟨path, u⟩ := part
        rintro ⟨hlast, hvalue⟩
        cases path with
        | nil => cases hlast
        | cons step path =>
            cases path with
            | nil =>
                obtain rfl := Option.some.inj hlast
                exact .inl ⟨rfl, hvalue⟩
            | cons next path =>
                obtain ⟨w, hw, hvalue⟩ := Option.bind_eq_some_iff.mp hvalue
                have hmem := hv.mem_children_iff.mpr hw
                exact .inr ⟨(step, w), hmem, ⟨next :: path, u⟩,
                  (ih _ hmem (hv.step hw)).mpr ⟨hlast, hvalue⟩, rfl⟩

/-- A segment picks what stands at the end of a piece that it takes. -/
theorem mem_pick {segment : Segment} (hv : v.DistinctKeys) :
    part ∈ segment.pick ⟨[], v⟩ ↔
      segment.Takes part.path ∧ v.at? part.path = some part.value := by
  cases segment with
  | child name => exact mem_childAt
  | index n => exact mem_step (.index n)
  | wildcard =>
      rw [Segment.pick, Segment.Takes, List.mem_map]
      constructor
      · rintro ⟨⟨step, w⟩, hw, rfl⟩
        exact ⟨⟨step, rfl⟩, (at?_singleton v _).trans (hv.mem_children_iff.mp hw)⟩
      · obtain ⟨path, u⟩ := part
        rintro ⟨⟨step, rfl⟩, hvalue⟩
        exact ⟨(step, u), hv.mem_children_iff.mpr ((at?_singleton v _).symm.trans hvalue), rfl⟩
  | descendant name => exact mem_descend hv

end Found

/-! ### The order in which a segment picks -/

/-- One piece is picked before another one. Steps of one value go by its parts in their order. A
descent finds the member of the value itself before all that is deeper; what is deeper goes by the
parts in which it is found, and within one part by the order there. -/
inductive Segment.Precedes : Segment → Json → Path → Path → Prop where
  | part {v : Json} {s t : Step} (h : v.StepBefore s t) : Precedes .wildcard v [s] [t]
  | own {name : String} {v : Json} {s t : Step} {q : Path} :
      Precedes (.descendant name) v [.key name] (s :: t :: q)
  | beside {name : String} {v : Json} {s s' t t' : Step} {p q : Path} (h : v.StepBefore s t) :
      Precedes (.descendant name) v (s :: s' :: p) (t :: t' :: q)
  | inside {name : String} {v w : Json} {s : Step} {p q : Path} (hw : v.step? s = some w)
      (h : Precedes (.descendant name) w p q) : Precedes (.descendant name) v (s :: p) (s :: q)

theorem Segment.Precedes.ne {segment : Segment} {v : Json} {p q : Path} (hv : v.DistinctKeys)
    (h : segment.Precedes v p q) : p ≠ q := by
  induction h with
  | part h | beside h =>
      intro heq
      exact hv.ne_of_stepBefore h (List.cons.inj heq).1
  | own => nofun
  | inside hw _ ih =>
      intro heq
      exact ih (hv.step hw) (List.cons.inj heq).2

theorem pairwise_toList {α β : Type} (r : β → β → Prop) (o : Option α) (f : α → β) :
    (o.map f).toList.Pairwise r := by
  cases o with
  | none => exact .nil
  | some a => exact List.pairwise_singleton r (f a)

section Order

variable {v : Json}

theorem pairwise_descend {name : String} (hv : v.DistinctKeys) :
    (descend name [] v).Pairwise fun part other =>
      (Segment.descendant name).Precedes v part.path other.path := by
  induction v using childrenInduction with
  | h v ih =>
      have hdeeper : ∀ child ∈ v.children, ∀ part ∈ descend name ([] ++ [child.1]) child.2,
          ∃ t p, part.path = child.1 :: t :: p := by
        intro child hchild part hpart
        rw [descend_below] at hpart
        obtain ⟨⟨path, u⟩, hinner, rfl⟩ := List.mem_map.mp hpart
        have hlast := ((mem_descend (hv.step (hv.mem_children_iff.mp hchild))).mp hinner).1
        cases path with
        | nil => cases hlast
        | cons t p => exact ⟨t, p, rfl⟩
      rw [descend_eq, List.pairwise_append]
      refine ⟨pairwise_toList _ _ _, ?_, ?_⟩
      · refine List.pairwise_flatMap.mpr ⟨fun child hchild => ?_, ?_⟩
        · have hstep := hv.mem_children_iff.mp hchild
          rw [descend_below, List.pairwise_map]
          exact (ih child hchild (hv.step hstep)).imp fun h => .inside hstep h
        · refine (pairwise_children v).imp_of_mem fun hchild hother h part hpart other hmem => ?_
          obtain ⟨s, p, hp⟩ := hdeeper _ hchild part hpart
          obtain ⟨t, q, hq⟩ := hdeeper _ hother other hmem
          rw [hp, hq]
          exact .beside h
      · intro part hpart other hother
        obtain ⟨child, hchild, hother⟩ := List.mem_flatMap.mp hother
        obtain ⟨t, q, hq⟩ := hdeeper child hchild other hother
        rw [(mem_childAt.mp hpart).1, hq]
        exact .own

theorem pairwise_pick {segment : Segment} (hv : v.DistinctKeys) :
    (segment.pick ⟨[], v⟩).Pairwise fun part other => segment.Precedes v part.path other.path := by
  cases segment with
  | child name => exact pairwise_toList _ _ _
  | index n => exact pairwise_toList _ _ _
  | wildcard => exact List.pairwise_map.mpr ((pairwise_children v).imp .part)
  | descendant name => exact pairwise_descend hv

end Order

/-! ### Cuts -/

/-- The pieces, one for each segment in order, make up the path. -/
def Cuts (segments : List Segment) (path : Path) (pieces : List Path) : Prop :=
  List.Forall₂ Segment.Takes segments pieces ∧ pieces.flatten = path

/-- The cuts along which segments pick parts of a value, with these parts. -/
def cutsFrom : List Segment → Json → List (List Path × Json)
  | [], v => [([], v)]
  | segment :: segments, v =>
    (segment.pick ⟨[], v⟩).flatMap fun part =>
      (cutsFrom segments part.value).map fun cut => (part.path :: cut.1, cut.2)

theorem foldl_pick (segments : List Segment) (parts : List Selected) :
    segments.foldl (fun parts segment => parts.flatMap segment.pick) parts =
      parts.flatMap fun s => (cutsFrom segments s.value).map fun cut =>
        ⟨s.path ++ cut.1.flatten, cut.2⟩ := by
  induction segments generalizing parts with
  | nil => simp [cutsFrom]
  | cons segment segments ih =>
      rw [List.foldl_cons, ih, List.flatMap_assoc]
      refine List.flatMap_congr fun s _ => ?_
      rw [pick_below, List.flatMap_map, cutsFrom, List.map_flatMap]
      refine List.flatMap_congr fun part _ => ?_
      rw [List.map_map]
      refine List.map_congr_left fun cut _ => ?_
      simp [below]

/-- A selector picks a part for each of its cuts. -/
theorem select_eq (selector : Selector) (root : Json) :
    selector.select root =
      (cutsFrom selector.segments root).map fun cut => ⟨cut.1.flatten, cut.2⟩ := by
  rw [select, foldl_pick, List.flatMap_singleton]
  rfl

theorem mem_cutsFrom {segments : List Segment} {v w : Json} {pieces : List Path}
    (hv : v.DistinctKeys) :
    (pieces, w) ∈ cutsFrom segments v ↔
      List.Forall₂ Segment.Takes segments pieces ∧ v.at? pieces.flatten = some w := by
  induction segments generalizing v pieces with
  | nil =>
      rw [cutsFrom, List.mem_singleton, Prod.mk.injEq, List.forall₂_nil_left_iff]
      refine and_congr_right fun hpieces => ?_
      rw [hpieces, List.flatten_nil, at?, Option.some_inj, eq_comm]
  | cons segment segments ih =>
      rw [cutsFrom, List.mem_flatMap]
      constructor
      · rintro ⟨part, hpart, hcut⟩
        obtain ⟨⟨rest, u⟩, hrest, heq⟩ := List.mem_map.mp hcut
        obtain ⟨rfl, rfl⟩ := Prod.mk.inj heq
        obtain ⟨htakes, hvalue⟩ := (mem_pick hv).mp hpart
        obtain ⟨hall, hat⟩ := (ih (hv.at hvalue)).mp hrest
        refine ⟨.cons htakes hall, ?_⟩
        rw [List.flatten_cons, at?_append, hvalue]
        exact hat
      · rintro ⟨hall, hat⟩
        obtain ⟨piece, rest, htakes, hrest, rfl⟩ := List.forall₂_cons_left_iff.mp hall
        rw [List.flatten_cons, at?_append] at hat
        obtain ⟨u, hu, hat⟩ := Option.bind_eq_some_iff.mp hat
        exact ⟨⟨piece, u⟩, (mem_pick hv).mpr ⟨htakes, hu⟩,
          List.mem_map.mpr ⟨(rest, w), (ih (hv.at hu)).mpr ⟨hrest, hat⟩, rfl⟩⟩

/-- One cut comes before another one: at the first piece in which they differ, its piece is picked
first. -/
inductive CutBefore : List Segment → Json → List Path → List Path → Prop where
  | here {segment : Segment} {segments : List Segment} {v : Json} {p q : Path}
      {ps qs : List Path} (h : segment.Precedes v p q) :
      CutBefore (segment :: segments) v (p :: ps) (q :: qs)
  | behind {segment : Segment} {segments : List Segment} {v w : Json} {p : Path}
      {ps qs : List Path} (hw : v.at? p = some w) (h : CutBefore segments w ps qs) :
      CutBefore (segment :: segments) v (p :: ps) (p :: qs)

theorem CutBefore.ne {segments : List Segment} {v : Json} {ps qs : List Path}
    (hv : v.DistinctKeys) (h : CutBefore segments v ps qs) : ps ≠ qs := by
  induction h with
  | here h =>
      intro heq
      exact h.ne hv (List.cons.inj heq).1
  | behind hw _ ih =>
      intro heq
      exact ih (hv.at hw) (List.cons.inj heq).2

/-- The cuts are listed in their order. -/
theorem pairwise_cutsFrom (segments : List Segment) {v : Json} (hv : v.DistinctKeys) :
    ((cutsFrom segments v).map Prod.fst).Pairwise (CutBefore segments v) := by
  rw [List.pairwise_map]
  induction segments generalizing v with
  | nil => exact List.pairwise_singleton _ _
  | cons segment segments ih =>
      refine List.pairwise_flatMap.mpr ⟨fun part hpart => ?_, ?_⟩
      · have hvalue := ((mem_pick hv).mp hpart).2
        exact List.pairwise_map.mpr ((ih (hv.at hvalue)).imp fun h => .behind hvalue h)
      · refine (pairwise_pick hv).imp fun h cut hcut other hother => ?_
        obtain ⟨_, -, rfl⟩ := List.mem_map.mp hcut
        obtain ⟨_, -, rfl⟩ := List.mem_map.mp hother
        exact .here h

theorem nodup_cutsFrom (segments : List Segment) {v : Json} (hv : v.DistinctKeys) :
    ((cutsFrom segments v).map Prod.fst).Nodup :=
  (pairwise_cutsFrom segments hv).imp fun h => h.ne hv

/-! ### How many cuts there are -/

def Segment.isDescent : Segment → Bool
  | .descendant _ => true
  | _ => false

theorem Segment.Takes.eq_singleton {segment : Segment} {piece : Path} (h : segment.Takes piece)
    (hstep : segment.isDescent = false) : ∃ step, piece = [step] := by
  cases segment with
  | child name => exact ⟨.key name, h⟩
  | index n => exact ⟨.index n, h⟩
  | wildcard => exact h
  | descendant name => cases hstep

/-- Where nothing descends, every piece is a single step. -/
theorem length_flatten_of_takes {segments : List Segment} {pieces : List Path}
    (h : List.Forall₂ Segment.Takes segments pieces)
    (hsteps : ∀ segment ∈ segments, segment.isDescent = false) :
    pieces.flatten.length = segments.length := by
  induction h with
  | nil => rfl
  | cons htakes _ ih =>
      obtain ⟨hstep, hsteps⟩ := List.forall_mem_cons.mp hsteps
      obtain ⟨step, rfl⟩ := htakes.eq_singleton hstep
      rw [List.flatten_cons, List.length_append, ih hsteps, List.length_singleton,
        List.length_cons, Nat.add_comm]

/-- With one descent at most there is one way at most to cut a path. -/
theorem Cuts.unique {segments : List Segment} {path : Path} {ps qs : List Path}
    (hone : segments.countP Segment.isDescent ≤ 1) (hps : Cuts segments path ps)
    (hqs : Cuts segments path qs) : ps = qs := by
  induction segments generalizing path ps qs with
  | nil =>
      rw [List.forall₂_nil_left_iff.mp hps.1, List.forall₂_nil_left_iff.mp hqs.1]
  | cons segment segments ih =>
      obtain ⟨p, ps, hp, hrestp, rfl⟩ := List.forall₂_cons_left_iff.mp hps.1
      obtain ⟨q, qs, hq, hrestq, rfl⟩ := List.forall₂_cons_left_iff.mp hqs.1
      have hflatten : p ++ ps.flatten = q ++ qs.flatten := hps.2.trans hqs.2.symm
      have hlength : p.length = q.length := by
        cases hdescent : segment.isDescent with
        | false =>
            obtain ⟨s, rfl⟩ := hp.eq_singleton hdescent
            obtain ⟨t, rfl⟩ := hq.eq_singleton hdescent
            rfl
        | true =>
            have hsteps : ∀ segment ∈ segments, segment.isDescent = false := by
              rw [List.countP_cons_of_pos hdescent] at hone
              simpa using List.countP_eq_zero.mp (Nat.le_zero.mp (Nat.le_of_succ_le_succ hone))
            have hlengths := congrArg List.length hflatten
            rw [List.length_append, List.length_append, length_flatten_of_takes hrestp hsteps,
              length_flatten_of_takes hrestq hsteps] at hlengths
            exact Nat.add_right_cancel hlengths
      obtain ⟨rfl, hrest⟩ := List.append_inj hflatten hlength
      have hle : segments.countP Segment.isDescent ≤ 1 :=
        (List.sublist_cons_self segment segments).countP_le.trans hone
      rw [ih hle ⟨hrestp, rfl⟩ ⟨hrestq, hrest.symm⟩]

section Count

variable {root : Json}

theorem mem_map_cutsFrom {segments : List Segment} (hroot : root.DistinctKeys)
    {pieces : List Path} :
    pieces ∈ (cutsFrom segments root).map Prod.fst ↔
      List.Forall₂ Segment.Takes segments pieces ∧ (root.at? pieces.flatten).isSome := by
  simp only [List.mem_map, Prod.exists, exists_and_right, exists_eq_right, mem_cutsFrom hroot,
    exists_and_left, Option.isSome_iff_exists]

theorem map_path_select (selector : Selector) :
    (selector.select root).map Selected.path =
      ((cutsFrom selector.segments root).map Prod.fst).map List.flatten := by
  rw [select_eq, List.map_map, List.map_map]
  rfl

/-- A path to a part is picked once for each way to cut it. -/
theorem count_select (hroot : root.DistinctKeys) (selector : Selector) {path : Path}
    (hpath : (root.at? path).isSome) :
    (((selector.select root).map Selected.path).count path : ℕ∞) =
      {pieces | Cuts selector.segments path pieces}.encard := by
  let cuts := ((cutsFrom selector.segments root).map Prod.fst).filter fun pieces =>
    pieces.flatten == path
  have hcuts : {pieces | Cuts selector.segments path pieces} = ↑cuts.toFinset := by
    ext pieces
    rw [Finset.mem_coe, List.mem_toFinset, List.mem_filter, mem_map_cutsFrom hroot,
      Set.mem_ofPred_eq, Cuts, beq_iff_eq]
    constructor
    · rintro ⟨htakes, rfl⟩
      exact ⟨⟨htakes, hpath⟩, rfl⟩
    · rintro ⟨⟨htakes, -⟩, hflatten⟩
      exact ⟨htakes, hflatten⟩
  have hnodup : cuts.Nodup := (nodup_cutsFrom selector.segments hroot).filter _
  rw [hcuts, Set.encard_coe_eq_coe_finsetCard, List.toFinset_card_of_nodup hnodup,
    map_path_select, List.count, List.countP_map, List.countP_eq_length_filter]
  rfl

theorem count_select_of_none (hroot : root.DistinctKeys) (selector : Selector) {path : Path}
    (hpath : root.at? path = none) :
    ((selector.select root).map Selected.path).count path = 0 := by
  rw [List.count_eq_zero]
  intro hmem
  obtain ⟨part, hpart, rfl⟩ := List.mem_map.mp hmem
  have hstands : root.at? part.path = some part.value := stands_of_mem_select hroot hpart
  rw [hpath] at hstands
  cases hstands

/-- A selector picks the part at the end of a path as often as the path can be cut into pieces that
its segments take, one after the other, and it picks nothing that does not stand there. The pointer
of a part is the text of its path, with a slash before each escaped token. With one descent at most
nothing is picked twice. -/
theorem select_counts_cuts (hroot : root.DistinctKeys) (selector : Selector) :
    (∀ part ∈ selector.select root, root.at? part.path = some part.value ∧
      part.pointer.toList =
        part.path.flatMap fun step => '/' :: step.token.toList.flatMap Pointer.escapeChar) ∧
    (∀ path, (((selector.select root).map Selected.path).count path : ℕ∞) =
      if (root.at? path).isSome then {pieces | Cuts selector.segments path pieces}.encard
      else 0) ∧
    (selector.segments.countP Segment.isDescent ≤ 1 →
      ((selector.select root).map Selected.path).Nodup) := by
  refine ⟨fun part hpart => ⟨stands_of_mem_select hroot hpart, ?_⟩, fun path => ?_, fun hone => ?_⟩
  · rw [Selected.pointer, Pointer.ofPath_eq_ofTokens, Pointer.ofTokens,
      Pointer.toList_foldl_push, List.map_map, List.flatMap_map]
    rfl
  · split
    · next hpath => exact count_select hroot selector hpath
    · next hpath =>
        rw [count_select_of_none hroot selector (by simpa using hpath)]
        rfl
  · rw [map_path_select]
    refine (nodup_cutsFrom selector.segments hroot).map_on fun ps hps qs hqs heq => ?_
    exact Cuts.unique hone ⟨((mem_map_cutsFrom hroot).mp hps).1, heq⟩
      ⟨((mem_map_cutsFrom hroot).mp hqs).1, rfl⟩

/-- Two members with one key, one inside the other. -/
def nestedMembers : Json := .object [("a", .object [("a", .object [("b", .null)])])]

def twoDescents : Selector := ⟨"$..a..b", [.descendant "a", .descendant "b"]⟩

theorem select_counts_cuts_nested :
    nestedMembers.DistinctKeys ∧
    ((twoDescents.select nestedMembers).map Selected.pointer) = ["/a/a/b", "/a/a/b"] ∧
    {pieces | Cuts twoDescents.segments [.key "a", .key "a", .key "b"] pieces}.encard = 2 := by
  have hdistinct : nestedMembers.DistinctKeys := by
    refine .object (by decide) ?_
    simp only [List.forall_mem_singleton]
    refine .object (by decide) ?_
    simp only [List.forall_mem_singleton]
    exact .object (by decide) (by simpa using .null)
  have hcount := (select_counts_cuts hdistinct twoDescents).2.1 [.key "a", .key "a", .key "b"]
  rw [if_pos (by decide)] at hcount
  exact ⟨hdistinct, by decide +kernel, hcount.symm.trans (by decide +kernel)⟩

end Count

end Selector

end ResourceApi.Json
