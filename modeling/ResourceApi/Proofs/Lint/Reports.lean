import Mathlib.Algebra.GroupWithZero.Nat
import Mathlib.Data.List.Sort
import ResourceApi.Lint.Report
import ResourceApi.Proofs.Dictionaries
import ResourceApi.Proofs.Text.LineTable

/-!
Reports lose nothing. Each linter that found something has one group, the groups go by the code
points of the names of the linters, and together they hold every diagnostic as often as it was
found. What is printed for a diagnostic names the place at which it starts.
-/

namespace ResourceApi.Lint

/-- Names of linters with diagnostics. -/
abbrev Groups := List (String × List Diagnostic)

/-! ### Groups -/

/-- One group for each linter in the order of their names, with its diagnostics in the order in
which they were found. -/
structure IsGrouping (ds : List Diagnostic) (groups : Groups) : Prop where
  ascending : (groups.map Prod.fst).Pairwise (· < ·)
  mem_sources : ∀ source, source ∈ groups.map Prod.fst ↔ ∃ d ∈ ds, d.source = source
  group_eq : ∀ group ∈ groups, group.2 = ds.filter fun d => d.source = group.1

variable {ds : List Diagnostic} {groups others : Groups}

theorem IsGrouping.eq_map (h : IsGrouping ds groups) :
    groups = (groups.map Prod.fst).map fun source =>
      (source, ds.filter fun d => d.source = source) := by
  rw [List.map_map]
  conv => lhs; rw [← List.map_id' groups]
  exact List.map_congr_left fun group hgroup => Prod.ext rfl (h.group_eq group hgroup)

/-- There is only one such grouping. -/
theorem IsGrouping.unique (h : IsGrouping ds groups) (hothers : IsGrouping ds others) :
    groups = others := by
  have hsources : groups.map Prod.fst = others.map Prod.fst := by
    apply h.ascending.eq_of_mem_iff hothers.ascending
    intro source
    rw [h.mem_sources, hothers.mem_sources]
  rw [h.eq_map, hsources, ← hothers.eq_map]

/-- Adds a diagnostic behind those of its linter, or makes a group for it where it belongs. -/
def Groups.add : Groups → Diagnostic → Groups
  | [], d => [(d.source, [d])]
  | (source, ds) :: groups, d =>
    if d.source < source then (d.source, [d]) :: (source, ds) :: groups
    else if d.source = source then (source, ds ++ [d]) :: groups
    else (source, ds) :: Groups.add groups d

theorem filter_concat (ds : List Diagnostic) (d : Diagnostic) (source : String) :
    (ds ++ [d]).filter (fun e => e.source = source) =
      if d.source = source then (ds.filter fun e => e.source = source) ++ [d]
      else ds.filter fun e => e.source = source := by
  rw [List.filter_append]
  by_cases hsource : d.source = source <;> simp [hsource]

namespace Groups

variable (groups : Groups) (d : Diagnostic)

theorem mem_sources_add (source : String) :
    source ∈ (groups.add d).map Prod.fst ↔ source = d.source ∨ source ∈ groups.map Prod.fst := by
  induction groups with
  | nil => simp [add]
  | cons group groups ih =>
      rw [add]
      split
      · simp
      · split
        · rename_i hsource
          simp [hsource]
        · rw [List.map_cons, List.mem_cons, ih, List.map_cons, List.mem_cons]
          exact or_left_comm

theorem ascending_add (h : (groups.map Prod.fst).Pairwise (· < ·)) :
    ((groups.add d).map Prod.fst).Pairwise (· < ·) := by
  induction groups with
  | nil => simp [add]
  | cons group groups ih =>
      obtain ⟨hfirst, hrest⟩ := List.pairwise_cons.mp h
      rw [add]
      split
      · rename_i hbefore
        have hall : ∀ source ∈ groups.map Prod.fst, d.source < source :=
          fun source hsource => String.lt_trans hbefore (hfirst source hsource)
        exact List.pairwise_cons.mpr ⟨List.forall_mem_cons.mpr ⟨hbefore, hall⟩, h⟩
      · split
        · exact h
        · rename_i hnotBefore hne
          refine List.pairwise_cons.mpr ⟨fun source hsource => ?_, ih hrest⟩
          rcases (mem_sources_add groups d source).mp hsource with rfl | hsource
          · exact Std.lt_of_le_of_ne (Std.not_lt.mp hnotBefore) (Ne.symm hne)
          · exact hfirst source hsource

variable {groups d}

/-- A group of another linter stays as it is. -/
theorem group_eq_of_ne {group : String × List Diagnostic} (hne : d.source ≠ group.1)
    (hgroup : group.2 = ds.filter fun e => e.source = group.1) :
    group.2 = (ds ++ [d]).filter fun e => e.source = group.1 := by
  rw [filter_concat, if_neg hne, hgroup]

/-- Since the groups are in order, there is nothing left to look for once a later linter is met. -/
theorem group_eq_add (hascending : (groups.map Prod.fst).Pairwise (· < ·))
    (hgroups : ∀ group ∈ groups, group.2 = ds.filter fun e => e.source = group.1)
    (hnew : d.source ∉ groups.map Prod.fst → (ds.filter fun e => e.source = d.source) = []) :
    ∀ group ∈ groups.add d, group.2 = (ds ++ [d]).filter fun e => e.source = group.1 := by
  have hmade : d.source ∉ groups.map Prod.fst →
      [d] = (ds ++ [d]).filter fun e => e.source = d.source := by
    intro hmem
    rw [filter_concat, if_pos rfl, hnew hmem, List.nil_append]
  have hlt : ∀ {a b : String}, a < b → a ≠ b := fun h heq => String.lt_irrefl _ (heq ▸ h)
  induction groups with
  | nil => exact List.forall_mem_singleton.mpr (hmade List.not_mem_nil)
  | cons first groups ih =>
      obtain ⟨hfirst, hrest⟩ := List.pairwise_cons.mp hascending
      obtain ⟨hgroup, hothers⟩ := List.forall_mem_cons.mp hgroups
      have hlater : ∀ group ∈ groups, first.1 < group.1 :=
        fun group hgroup => hfirst _ (List.mem_map_of_mem hgroup)
      rw [add]
      split
      · rename_i hbefore
        have hbehind : ∀ group ∈ first :: groups, d.source < group.1 :=
          List.forall_mem_cons.mpr
            ⟨hbefore, fun group hmem => String.lt_trans hbefore (hlater group hmem)⟩
        have hmem : d.source ∉ (first :: groups).map Prod.fst := by
          intro hmem
          obtain ⟨group, hgroup, heq⟩ := List.mem_map.mp hmem
          exact hlt (hbehind group hgroup) heq.symm
        refine List.forall_mem_cons.mpr ⟨hmade hmem, fun group hmem => ?_⟩
        exact group_eq_of_ne (hlt (hbehind group hmem)) (hgroups group hmem)
      · split
        · rename_i hsame
          refine List.forall_mem_cons.mpr ⟨?_, fun group hmem => ?_⟩
          · rw [filter_concat, if_pos hsame, ← hgroup]
          · exact group_eq_of_ne (hsame ▸ hlt (hlater group hmem)) (hothers group hmem)
        · rename_i hne
          have htail : d.source ∉ groups.map Prod.fst → d.source ∉ (first :: groups).map Prod.fst :=
            fun hmem => List.not_mem_cons_of_ne_of_not_mem hne hmem
          refine List.forall_mem_cons.mpr ⟨group_eq_of_ne hne hgroup, ?_⟩
          exact ih hrest hothers (fun hmem => hnew (htail hmem)) fun hmem => hmade (htail hmem)

/-- A diagnostic that is added is one diagnostic more. -/
theorem perm_add (groups : Groups) (d : Diagnostic) :
    ((groups.add d).flatMap Prod.snd).Perm (groups.flatMap Prod.snd ++ [d]) := by
  induction groups with
  | nil => exact .refl _
  | cons group groups ih =>
      rw [add]
      split
      · exact (List.perm_append_singleton d _).symm
      · split
        · simp only [List.flatMap_cons, List.append_assoc]
          exact List.Perm.append_left _ List.perm_append_comm
        · simp only [List.flatMap_cons, List.append_assoc]
          exact List.Perm.append_left _ ih

end Groups

/-- Adding a diagnostic to the groups of those before it gives the groups of all. -/
theorem IsGrouping.add (h : IsGrouping ds groups) (d : Diagnostic) :
    IsGrouping (ds ++ [d]) (groups.add d) where
  ascending := Groups.ascending_add groups d h.ascending
  mem_sources source := by
    rw [Groups.mem_sources_add, h.mem_sources]
    simp only [List.mem_append, List.mem_singleton, or_and_right, exists_or, exists_eq_left]
    rw [or_comm, eq_comm]
  group_eq := by
    apply Groups.group_eq_add h.ascending h.group_eq
    intro hnew
    rw [h.mem_sources] at hnew
    rw [List.filter_eq_nil_iff]
    intro e he hsource
    exact hnew ⟨e, he, of_decide_eq_true hsource⟩

theorem isGrouping_foldl (ds : List Diagnostic) : IsGrouping ds (ds.foldl Groups.add []) := by
  induction ds using List.reverseRecOn with
  | nil => exact ⟨.nil, by simp, by simp⟩
  | append_singleton ds d ih =>
      rw [List.foldl_append]
      exact ih.add d

theorem perm_foldl_add (ds : List Diagnostic) :
    ((ds.foldl Groups.add []).flatMap Prod.snd).Perm ds := by
  induction ds using List.reverseRecOn with
  | nil => exact .refl _
  | append_singleton ds d ih =>
      rw [List.foldl_append]
      exact (Groups.perm_add _ d).trans (ih.append_right [d])

namespace Report

variable (r : Report)

theorem pairwise_sources : r.sources.Pairwise (· < ·) := by
  have htrans : ∀ a b c : String, decide (a ≤ b) = true → decide (b ≤ c) = true →
      decide (a ≤ c) = true := by
    intro a b c hab hbc
    exact decide_eq_true (String.le_trans (of_decide_eq_true hab) (of_decide_eq_true hbc))
  have htotal : ∀ a b : String, (decide (a ≤ b) || decide (b ≤ a)) = true := by
    intro a b
    simpa using String.le_total a b
  have hsorted : r.sources.Pairwise fun a b => decide (a ≤ b) = true :=
    List.pairwise_mergeSort htrans htotal _
  have hnodup : r.sources.Nodup :=
    (List.mergeSort_perm ..).nodup_iff.mpr (Entries.nodup_eraseDups _)
  refine (hsorted.and hnodup).imp fun {a b} hab => ?_
  exact Std.lt_of_le_of_ne (of_decide_eq_true hab.1) hab.2

theorem map_fst_grouped : r.grouped.map Prod.fst = r.sources := by
  rw [grouped, List.map_map]
  exact List.map_id' r.sources

theorem isGrouping_grouped : IsGrouping r.diagnostics r.grouped where
  ascending := by
    rw [map_fst_grouped]
    exact r.pairwise_sources
  mem_sources source := by
    rw [map_fst_grouped, sources, (List.mergeSort_perm ..).mem_iff, List.mem_eraseDups,
      List.mem_map]
  group_eq group hgroup := by
    obtain ⟨source, -, rfl⟩ := List.mem_map.mp hgroup
    rfl

/-- The groups are those that come about when the diagnostics are added one after the other. -/
theorem grouped_eq_foldl : r.grouped = r.diagnostics.foldl Groups.add [] :=
  r.isGrouping_grouped.unique (isGrouping_foldl r.diagnostics)

theorem perm_grouped : (r.grouped.flatMap Prod.snd).Perm r.diagnostics := by
  rw [grouped_eq_foldl]
  exact perm_foldl_add r.diagnostics

theorem sum_counts : (r.counts.map Prod.snd).sum = r.diagnostics.length := by
  calc (r.counts.map Prod.snd).sum
      = (r.grouped.map fun group => group.2.length).sum := by
        rw [counts, List.map_map]
        rfl
    _ = (r.grouped.flatMap Prod.snd).length := List.length_flatMap.symm
    _ = r.diagnostics.length := r.perm_grouped.length_eq

/-- A report passes if it has no errors. -/
theorem ensureClean_eq :
    r.ensureClean = if r.hasErrors then .error ⟨r.count .error⟩ else .ok () := by
  have hcount : r.count .error = 0 ↔ r.hasErrors = false := by
    rw [count, List.length_eq_zero_iff, List.filter_eq_nil_iff, hasErrors, List.any_eq_false]
    rfl
  rw [ensureClean]
  cases h : r.hasErrors with
  | true => exact if_neg fun hzero => by rw [hcount.mp hzero] at h; cases h
  | false => exact if_pos (hcount.mpr h)

/-! ### Printed reports -/

/-- What is said of a diagnostic: its message, behind the code in brackets if it has one. -/
inductive Says (d : Diagnostic) : String → Prop where
  | plain (hcode : d.code = none) : Says d d.message
  | coded {code : String} (hcode : d.code = some code) : Says d ("[" ++ code ++ "] " ++ d.message)

/-- The line of a diagnostic names a place of the text by line and column, both counted from one,
which is where the diagnostic starts, or the end of the text if it starts behind that. -/
def IsEntry (text : String) (d : Diagnostic) (entry : String) : Prop :=
  ∃ line column said, 1 ≤ line ∧ line ≤ (Lines.ofText text).count ∧ 1 ≤ column ∧
    (Lines.ofText text).offset line (column - 1) = min d.start text.length ∧ Says d said ∧
    entry = "  " ++ toString line ++ ":" ++ toString column ++ " " ++
      padRight 7 d.severity.name ++ " " ++ said ++ "\n"

/-- Groups as they are printed: for each of them a header with the number of its diagnostics, and
then a line for each diagnostic. -/
inductive IsListing (text : String) : Groups → String → Prop where
  | nil : IsListing text [] ""
  | group {source rest : String} {ds : List Diagnostic} {groups : Groups} {entries : List String}
      (hentries : List.Forall₂ (IsEntry text) ds entries) (hrest : IsListing text groups rest) :
      IsListing text ((source, ds) :: groups)
        (source ++ " (" ++ toString ds.length ++ ")\n" ++ String.join entries ++ rest)

variable (text : String)

theorem says_display (d : Diagnostic) : Says d d.display := by
  cases hcode : d.code with
  | none =>
      rw [Diagnostic.display, hcode]
      exact .plain hcode
  | some code =>
      rw [Diagnostic.display, hcode]
      exact .coded hcode

theorem isEntry_entry (d : Diagnostic) : IsEntry text d (entry (Lines.ofText text) d) := by
  have hrange := (Lines.ofText text).lineColumn_in_range d.start
  exact ⟨_, _, _, hrange.1, hrange.2, Nat.succ_pos _, Lines.offset_lineColumn text d.start,
    says_display d, rfl⟩

theorem isListing_render : IsListing text r.grouped (r.render text) := by
  rw [render]
  induction r.grouped with
  | nil => exact .nil
  | cons group groups ih =>
      have hentries : List.Forall₂ (IsEntry text) group.2
          (group.2.map (entry (Lines.ofText text))) := by
        rw [List.forall₂_map_right_iff, List.forall₂_same]
        exact fun d _ => isEntry_entry text d
      rw [List.map_cons, String.join_cons]
      exact .group hentries ih

/-- **Reporting loses nothing.** The groups of a report are those that come about when its
diagnostics are added one after the other; each linter that found something has one, in the order of
the names, with exactly its diagnostics. The counts are the sizes of the groups and add up to the
number of diagnostics. What is printed lists the groups with a place for each diagnostic and what is
said of it, and a report fails exactly if it has errors, with their number. -/
theorem reports_lose_nothing :
    IsGrouping r.diagnostics r.grouped ∧
    r.grouped = r.diagnostics.foldl Groups.add [] ∧
    (r.grouped.flatMap Prod.snd).Perm r.diagnostics ∧
    r.counts = r.grouped.map (fun group => (group.1, group.2.length)) ∧
    (r.counts.map Prod.snd).sum = r.diagnostics.length ∧
    IsListing text r.grouped (r.render text) ∧
    r.ensureClean = (if r.hasErrors then
      .error ⟨(r.diagnostics.filter fun d => d.severity = .error).length⟩ else .ok ()) ∧
    (r.hasErrors = true ↔ ∃ d ∈ r.diagnostics, d.severity = .error) := by
  refine ⟨r.isGrouping_grouped, r.grouped_eq_foldl, r.perm_grouped, rfl, r.sum_counts,
    r.isListing_render text, r.ensureClean_eq, ?_⟩
  rw [hasErrors, List.any_eq_true]
  exact exists_congr fun d => and_congr_right fun _ => decide_eq_true_iff

end Report

end ResourceApi.Lint
