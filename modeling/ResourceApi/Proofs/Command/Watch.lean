import Mathlib.Data.List.Destutter
import ResourceApi.Command.Watch
import ResourceApi.Proofs.Latest
import ResourceApi.Proofs.Workspace

/-!
The history of a watch. Every text that differs from the one before it is checked under the next
number, and every check is running or has come to its end. What has been published last is the
newest of the checks that have ended, and the output file holds the newest document.
-/

namespace ResourceApi.Command.Watch

/-- The texts that are found in the file, without the looks at which it cannot be read. -/
def texts (events : List Event) : List String :=
  events.filterMap fun
    | .look found => found
    | .finish _ => none

/-- The texts to check: of equal texts in a row, only the first. -/
def versions (events : List Event) : List String := (texts events).destutter (· ≠ ·)

/-- Texts with their numbers, from one. -/
def numbered (texts : List String) : List (Nat × String) := (List.range' 1 texts.length).zip texts

/-- The check that an event brings to its end. -/
def State.ended (s : State) : Event → Option (Nat × String)
  | .look _ => none
  | .finish revision => s.running.find? fun run => run.1 = revision

/-- The checks that come to their end, in the order in which they do. -/
def endedFrom (linters : List Lint.Builtin) : State → List Event → List (Nat × String)
  | _, [] => []
  | s, event :: events =>
    (s.ended event).toList ++ endedFrom linters (s.step linters event).2 events

/-! ### Versions -/

section Versions

variable {past : List Event}

theorem destutter'_concat (a b : String) (l : List String) :
    (l ++ [b]).destutter' (· ≠ ·) a =
      if (a :: l).getLast? = some b then l.destutter' (· ≠ ·) a
      else l.destutter' (· ≠ ·) a ++ [b] := by
  induction l generalizing a with
  | nil => by_cases h : a = b <;> simp [h]
  | cons c l ih =>
      by_cases hac : a = c
      · subst hac
        simpa [List.destutter'_cons_neg] using ih a
      · rw [List.cons_append, List.destutter'_cons_pos _ hac, List.destutter'_cons_pos _ hac, ih,
          List.getLast?_cons_cons]
        split <;> rfl

theorem destutter_concat (l : List String) (b : String) :
    (l ++ [b]).destutter (· ≠ ·) =
      if l.getLast? = some b then l.destutter (· ≠ ·) else l.destutter (· ≠ ·) ++ [b] := by
  cases l with
  | nil => rfl
  | cons a l => exact destutter'_concat a b l

theorem texts_concat (event : Event) :
    texts (past ++ [event]) = texts past ++ texts [event] := List.filterMap_append

theorem versions_look (past : List Event) (text : String) :
    versions (past ++ [.look (some text)]) =
      if (texts past).getLast? = some text then versions past else versions past ++ [text] := by
  rw [versions, texts_concat]
  exact destutter_concat _ _

theorem numbered_concat (l : List String) (text : String) :
    numbered (l ++ [text]) = numbered l ++ [(l.length + 1, text)] := by
  rw [numbered, List.length_append, List.length_singleton, List.range'_1_concat,
    List.zip_append (by simp), Nat.add_comm 1]
  rfl

theorem map_fst_numbered (l : List String) :
    (numbered l).map Prod.fst = List.range' 1 l.length :=
  List.map_fst_zip (by simp)

end Versions

/-! ### What a step preserves -/

section Steps

variable {linters : List Lint.Builtin} {past : List Event} {ended : List (Nat × String)}
  {ps : List Publication} {s : State}

/-- What the past says about the state: what has been looked at, what has ended and what has been
published. -/
structure Accounted (linters : List Lint.Builtin) (past : List Event)
    (ended : List (Nat × String)) (ps : List Publication) (s : State) : Prop where
  last : s.last = (texts past).getLast?
  checks : (s.running ++ ended).Perm (numbered (versions past))
  issued : s.slot.issued = (versions past).length
  accepted_mem : ∀ r ∈ s.slot.revision?, r ∈ ended.map Prod.fst
  le_accepted : ∀ run ∈ ended, ∃ r ∈ s.slot.revision?, run.1 ≤ r
  published : (ps.map fun p => (p.revision, p.text)).Sublist ended
  found : ∀ p ∈ ps, p.found = Check.run linters p.text
  increasing : (ps.map Publication.revision).Pairwise (· < ·)
  newest : (ps.map Publication.revision).getLast? = s.slot.revision?

theorem accounted_start : Accounted linters [] [] [] .start where
  last := rfl
  checks := .nil
  issued := rfl
  accepted_mem := by simp [State.start, Latest.revision?, Latest.accepted_eq, Latest.empty]
  le_accepted := by simp
  published := .slnil
  found := by simp
  increasing := .nil
  newest := rfl

/-- A past with the same texts. -/
theorem Accounted.of_texts {past' : List Event} (h : Accounted linters past ended ps s)
    (htexts : texts past' = texts past) : Accounted linters past' ended ps s := by
  have hversions : versions past' = versions past := by rw [versions, htexts, versions]
  exact { h with
    last := htexts ▸ h.last
    checks := hversions ▸ h.checks
    issued := hversions ▸ h.issued }

theorem Accounted.look (h : Accounted linters past ended ps s) (found : Option String) :
    Accounted linters (past ++ [.look found]) ended ps (s.look found) := by
  cases found with
  | none =>
      exact h.of_texts (by simp [texts])
  | some text =>
      have hlast : (texts (past ++ [.look (some text)])).getLast? = some text := by
        simp [texts]
      by_cases hsame : s.last = some text
      · have hversions := versions_look past text
        rw [if_pos (h.last ▸ hsame)] at hversions
        have hlook : s.look (some text) = s := if_pos hsame
        rw [hlook]
        exact { h with
          last := hsame.trans hlast.symm
          checks := hversions ▸ h.checks
          issued := hversions ▸ h.issued }
      · have hversions := versions_look past text
        rw [if_neg (h.last ▸ hsame)] at hversions
        have hlook : s.look (some text) =
            ⟨some text, s.running ++ [(s.slot.issued + 1, text)], s.slot.next.2⟩ := if_neg hsame
        rw [hlook]
        exact { h with
          last := hlast.symm
          checks := by
            rw [hversions, numbered_concat, ← h.issued, List.append_assoc]
            refine (List.perm_append_comm.append_left s.running).trans ?_
            rw [← List.append_assoc]
            exact h.checks.append_right _
          issued := by
            rw [hversions, List.length_append, ← h.issued]
            rfl }

/-- The numbers of the checks that are running differ. -/
theorem Accounted.nodup (h : Accounted linters past ended ps s) :
    ((s.running ++ ended).map Prod.fst).Nodup := by
  rw [(h.checks.map Prod.fst).nodup_iff, map_fst_numbered]
  exact List.nodup_range'

theorem perm_cons_filter {r : Nat} {text : String} {runs : List (Nat × String)}
    (hruns : (runs.map Prod.fst).Nodup) (hmem : (r, text) ∈ runs) :
    runs.Perm ((r, text) :: runs.filter fun run => run.1 ≠ r) := by
  induction runs with
  | nil => simp at hmem
  | cons run runs ih =>
      obtain ⟨hrun, hrest⟩ := List.nodup_cons.mp hruns
      rcases List.mem_cons.mp hmem with rfl | hmem
      · have hall : ∀ other ∈ runs, other.1 ≠ r := fun other hother heq =>
          hrun (List.mem_map.mpr ⟨other, hother, heq⟩)
        rw [List.filter_cons_of_neg (by simp), List.filter_eq_self.mpr (by simpa using hall)]
      · have hne : run.1 ≠ r := by
          intro heq
          exact hrun (List.mem_map.mpr ⟨(r, text), hmem, heq.symm⟩)
        rw [List.filter_cons_of_pos (by simpa using hne)]
        exact ((ih hrest hmem).cons run).trans (.swap _ _ _)

theorem finish_of_none {revision : Nat} (h : s.ended (.finish revision) = none) :
    s.finish linters revision = (none, s) := by
  rw [State.ended] at h
  rw [State.finish, h]

theorem finish_of_some {revision : Nat} {run : Nat × String}
    (h : s.ended (.finish revision) = some run) :
    s.finish linters revision =
      let p : Publication := ⟨revision, run.2, Check.run linters run.2⟩
      let running := s.running.filter fun run => run.1 ≠ revision
      if s.slot.isStale revision then (none, ⟨s.last, running, s.slot⟩)
      else (some p, ⟨s.last, running, s.slot.keep revision p⟩) := by
  rw [State.ended] at h
  rw [State.finish, h]
  cases hstale : s.slot.isStale revision with
  | true => simp only [Latest.offer_of_stale hstale, if_true]
  | false => simp [Latest.offer_of_ok hstale rfl]

/-- What is left running and what has ended are the checks that there were before. -/
theorem Accounted.end_check (h : Accounted linters past ended ps s) {r : Nat} {text : String}
    (hended : s.ended (.finish r) = some (r, text)) :
    ((s.running.filter fun run => run.1 ≠ r) ++ (ended ++ [(r, text)])).Perm
      (numbered (versions past)) := by
  have hrunning : (s.running.map Prod.fst).Nodup := (List.map_append ▸ h.nodup).of_append_left
  have hmem : (r, text) ∈ s.running := List.mem_of_find?_eq_some hended
  have hperm := (perm_cons_filter hrunning hmem).append_right ended
  refine .trans ?_ (hperm.symm.trans h.checks)
  rw [← List.append_assoc]
  exact List.perm_append_singleton _ _

/-- A check that is stale ends without a publication. -/
theorem Accounted.drop (h : Accounted linters past ended ps s) {r : Nat} {text : String}
    (hended : s.ended (.finish r) = some (r, text)) (hstale : s.slot.isStale r = true) :
    Accounted linters past (ended ++ [(r, text)]) ps
      ⟨s.last, s.running.filter fun run => run.1 ≠ r, s.slot⟩ where
  last := h.last
  checks := h.end_check hended
  issued := h.issued
  accepted_mem a ha := by
    rw [List.map_append]
    exact List.mem_append_left _ (h.accepted_mem a ha)
  le_accepted run hrun := by
    rcases List.mem_append.mp hrun with hrun | hrun
    · exact h.le_accepted run hrun
    · rw [List.mem_singleton.mp hrun]
      exact Latest.isStale_eq_true.mp hstale
  published := h.published.trans (List.sublist_append_left _ _)
  found := h.found
  increasing := h.increasing
  newest := h.newest

/-- A check that is newer than all that have ended is published. -/
theorem Accounted.publish (h : Accounted linters past ended ps s) {r : Nat} {text : String}
    (hended : s.ended (.finish r) = some (r, text)) (hstale : s.slot.isStale r = false) :
    Accounted linters past (ended ++ [(r, text)]) (ps ++ [⟨r, text, Check.run linters text⟩])
      ⟨s.last, s.running.filter fun run => run.1 ≠ r,
        s.slot.keep r ⟨r, text, Check.run linters text⟩⟩ := by
  have hlt : ∀ run ∈ ended, run.1 < r := by
    intro run hrun
    obtain ⟨accepted, haccepted, hle⟩ := h.le_accepted run hrun
    exact Nat.lt_of_le_of_lt hle (Latest.isStale_eq_false.mp hstale accepted haccepted)
  exact {
    last := h.last
    checks := h.end_check hended
    issued := h.issued
    accepted_mem := by simp [Latest.revision?_keep]
    le_accepted := by
      intro run hrun
      refine ⟨r, Latest.revision?_keep _ _ _, ?_⟩
      rcases List.mem_append.mp hrun with hrun | hrun
      · exact Nat.le_of_lt (hlt run hrun)
      · rw [List.mem_singleton.mp hrun]
    published := by
      rw [List.map_append]
      exact h.published.append (.refl _)
    found := by
      intro p hp
      rcases List.mem_append.mp hp with hp | hp
      · exact h.found p hp
      · rw [List.mem_singleton.mp hp]
    increasing := by
      rw [List.map_append, List.pairwise_append]
      refine ⟨h.increasing, List.pairwise_singleton _ _, ?_⟩
      intro a ha b hb
      obtain ⟨p, hp, rfl⟩ := List.mem_map.mp ha
      obtain rfl : b = r := by simpa using hb
      exact hlt _ (h.published.subset (List.mem_map_of_mem hp))
    newest := by
      rw [List.map_append, Latest.revision?_keep]
      exact List.getLast?_concat }

theorem Accounted.finish (h : Accounted linters past ended ps s) (revision : Nat) :
    Accounted linters past (ended ++ (s.ended (.finish revision)).toList)
      (ps ++ (s.finish linters revision).1.toList) (s.finish linters revision).2 := by
  cases hended : s.ended (.finish revision) with
  | none =>
      rw [finish_of_none hended, Option.toList_none, Option.toList_none, List.append_nil,
        List.append_nil]
      exact h
  | some run =>
      have hrun : run.1 = revision := by simpa using List.find?_some hended
      obtain ⟨r, text⟩ := run
      obtain rfl : r = revision := hrun
      rw [finish_of_some hended, Option.toList_some]
      cases hstale : s.slot.isStale r with
      | true =>
          rw [if_pos rfl, Option.toList_none, List.append_nil]
          exact h.drop hended hstale
      | false =>
          rw [if_neg (by decide), Option.toList_some]
          exact h.publish hended hstale

/-- Each event is accounted for. -/
theorem Accounted.step (h : Accounted linters past ended ps s) (event : Event) :
    Accounted linters (past ++ [event]) (ended ++ (s.ended event).toList)
      (ps ++ (s.step linters event).1.toList) (s.step linters event).2 := by
  cases event with
  | look found =>
      rw [State.ended, State.step, Option.toList_none, Option.toList_none, List.append_nil,
        List.append_nil]
      exact h.look found
  | finish revision => exact (h.finish revision).of_texts (by simp [texts])

theorem run_cons (linters : List Lint.Builtin) (s : State) (event : Event) (events : List Event) :
    s.run linters (event :: events) =
      ((s.step linters event).1.toList ++ ((s.step linters event).2.run linters events).1,
        ((s.step linters event).2.run linters events).2) := rfl

/-- Events are accounted for one after the other. -/
theorem Accounted.run (h : Accounted linters past ended ps s) (events : List Event) :
    Accounted linters (past ++ events) (ended ++ endedFrom linters s events)
      (ps ++ (s.run linters events).1) (s.run linters events).2 := by
  induction events generalizing past ended ps s with
  | nil =>
      rw [endedFrom, State.run, List.append_nil, List.append_nil, List.append_nil]
      exact h
  | cons event events ih =>
      have hrest := ih (h.step event)
      rw [List.append_assoc, List.append_assoc, List.append_assoc] at hrest
      exact hrest

theorem accounted_run (linters : List Lint.Builtin) (events : List Event) :
    Accounted linters events (endedFrom linters .start events)
      (State.start.run linters events).1 (State.start.run linters events).2 :=
  accounted_start.run events

/-- When no check is running, the newest one has been published. -/
theorem Accounted.newest_issued (h : Accounted linters past ended ps s) (hidle : s.running = []) :
    (ps.map Publication.revision).getLast? =
      if s.slot.issued = 0 then none else some s.slot.issued := by
  have hchecks : (ended.map Prod.fst).Perm (List.range' 1 s.slot.issued) := by
    have := h.checks.map Prod.fst
    rwa [hidle, List.nil_append, map_fst_numbered, ← h.issued] at this
  have hmem : ∀ r, r ∈ ended.map Prod.fst ↔ 1 ≤ r ∧ r ≤ s.slot.issued := by
    intro r
    rw [hchecks.mem_iff, List.mem_range'_1]
    omega
  rw [h.newest]
  cases haccepted : s.slot.revision? with
  | none =>
      have hzero : s.slot.issued = 0 := by
        by_contra hpos
        obtain ⟨run, hrun, -⟩ := List.mem_map.mp ((hmem s.slot.issued).mpr (by omega))
        obtain ⟨r, hr, -⟩ := h.le_accepted run hrun
        rw [haccepted] at hr
        cases hr
      rw [if_pos hzero]
  | some r =>
      have hr := (hmem r).mp (h.accepted_mem r haccepted)
      obtain ⟨run, hrun, heq⟩ := List.mem_map.mp ((hmem s.slot.issued).mpr (by omega))
      obtain ⟨r', hr', hle⟩ := h.le_accepted run hrun
      obtain rfl : r = r' := Option.some.inj (haccepted.symm.trans hr')
      rw [if_neg (by omega), show r = s.slot.issued by omega]

end Steps

/-! ### The output file -/

section Output

variable {format : OpenApi.Format} {before : Option String} {ps : List Publication}

theorem outputAfter_of_none (h : ∀ p ∈ ps, p.written? format = none) :
    outputAfter format before ps = before := by
  induction ps with
  | nil => rfl
  | cons p ps ih =>
      rw [outputAfter, List.foldl_cons, h p List.mem_cons_self, Option.none_or]
      exact ih fun q hq => h q (List.mem_cons_of_mem p hq)

/-- The document of the newest publication that has one stays in the file. -/
theorem outputAfter_of_newest (hps : (ps.map Publication.revision).Pairwise (· < ·))
    {p : Publication} (hp : p ∈ ps) {text : String} (htext : p.written? format = some text)
    (hnewest : ∀ q ∈ ps, (q.written? format).isSome → q.revision ≤ p.revision) :
    outputAfter format before ps = some text := by
  obtain ⟨older, newer, rfl⟩ := List.append_of_mem hp
  have hnone : ∀ q ∈ newer, q.written? format = none := by
    intro q hq
    have hlt : p.revision < q.revision := by
      rw [List.map_append, List.map_cons, List.pairwise_append, List.pairwise_cons] at hps
      exact hps.2.1.1 _ (List.mem_map_of_mem hq)
    by_contra hsome
    have hle := hnewest q (by simp [hq]) (Option.isSome_iff_ne_none.mpr hsome)
    omega
  rw [outputAfter, List.foldl_append, List.foldl_cons, htext, Option.some_or]
  exact outputAfter_of_none hnone

end Output

/-! ### On a machine -/

section Machine

variable {settings : Settings} {path : String} {session : Session}

/-- Whatever is written to the file, it can be written. -/
def Writable (w : Workspace) (path : String) : Prop := ∀ text, (w.write path text).isOk

theorem writable_iff {w : Workspace} : Writable w path ↔ (w.target path).isOk := by
  simp only [Writable, Workspace.write, Workspace.writeBytes]
  cases w.target path <;> simp [Except.map, Except.isOk, Except.toBool]

/-- What a publication writes is in the file afterwards. -/
theorem read_publish (houtput : settings.output = some path)
    (hwritable : Writable session.workspace path) (p : Publication) :
    Writable ((publish settings p : StateM Session Unit) session).2.workspace path ∧
    ((publish settings p : StateM Session Unit) session).2.workspace.read path =
      (p.written? settings.format).elim (session.workspace.read path) .ok := by
  cases htext : p.written? settings.format with
  | none =>
      have hpublish : ((publish settings p : StateM Session Unit) session).2.workspace =
          session.workspace := by
        rw [publish, htext]
        rfl
      rw [hpublish]
      exact ⟨hwritable, rfl⟩
  | some text =>
      obtain ⟨w, hw⟩ : ∃ w, session.workspace.write path text = .ok w := by
        have := hwritable text
        cases hwrite : session.workspace.write path text with
        | ok w => exact ⟨w, rfl⟩
        | error e => simp [hwrite, Except.isOk, Except.toBool] at this
      have hpublish : ((publish settings p : StateM Session Unit) session).2.workspace = w := by
        rw [publish, htext, houtput]
        change (Session.change (fun w => w.write path text)
          { session with printed := session.printed ++ p.message }).2.workspace = w
        rw [Session.change, hw]
      obtain ⟨hread, htarget⟩ := Workspace.read_write hw
      rw [hpublish]
      refine ⟨?_, hread⟩
      rw [writable_iff] at hwritable ⊢
      rwa [htarget]

/-- The machine after a step that may have led to a publication. -/
def afterPublication (settings : Settings) (session : Session) : Option Publication → Session
  | none => session
  | some p => ((publish settings p : StateM Session Unit) session).2

theorem stepOn_eq (s : State) (event : Event) :
    (stepOn settings s event : StateM Session State) session =
      ((s.step settings.linters event).2,
        afterPublication settings session (s.step settings.linters event).1) := by
  rw [stepOn]
  cases s.step settings.linters event with
  | mk p s => cases p <;> rfl

theorem runOn_cons (s : State) (event : Event) (events : List Event) :
    (runOn settings s (event :: events) : StateM Session State) session =
      (runOn settings (s.step settings.linters event).2 events : StateM Session State)
        (afterPublication settings session (s.step settings.linters event).1) := by
  rw [runOn, List.foldlM_cons]
  change (runOn settings ((stepOn settings s event : StateM Session State) session).1 events :
    StateM Session State) ((stepOn settings s event : StateM Session State) session).2 = _
  rw [stepOn_eq]

/-- The machine has no influence on what is checked and published. -/
theorem fst_runOn (s : State) (events : List Event) :
    ((runOn settings s events : StateM Session State) session).1 =
      (s.run settings.linters events).2 := by
  induction events generalizing s session with
  | nil => rfl
  | cons event events ih =>
      rw [runOn_cons, run_cons, ih]

/-- The file follows the publications. -/
theorem read_runOn (houtput : settings.output = some path)
    (hwritable : Writable session.workspace path) {initial : Except Workspace.FileError String}
    {before : Option String} (hread : session.workspace.read path = before.elim initial .ok)
    (s : State) (events : List Event) :
    ((runOn settings s events : StateM Session State) session).2.workspace.read path =
      (outputAfter settings.format before (s.run settings.linters events).1).elim initial .ok := by
  induction events generalizing s session before with
  | nil => exact hread
  | cons event events ih =>
      rw [runOn_cons, run_cons]
      cases (s.step settings.linters event).1 with
      | none => exact ih hwritable hread _
      | some p =>
          obtain ⟨hwritable', hread'⟩ := read_publish houtput hwritable p
          have hfile : (afterPublication settings session (some p)).workspace.read path =
              ((p.written? settings.format).or before).elim initial .ok := by
            rw [afterPublication, hread', hread]
            cases p.written? settings.format <;> rfl
          exact ih hwritable' hfile _

/-- What is published in the course of some events. -/
def publications (settings : Settings) (events : List Event) : List Publication :=
  (State.start.run settings.linters events).1

/-- The state and the machine that some events lead to. -/
def reached (settings : Settings) (session : Session) (events : List Event) : State × Session :=
  (runOn settings .start events : StateM Session State) session

/-- A watch checks the texts that it finds, without repetitions in a row, under the numbers from
one, and each check is running or has ended. What it publishes are checks that have ended, under
increasing numbers, and when no check is running, the newest one has been published last. The output
file holds the document of the newest publication that has one; before the first such publication
it is as it was. -/
theorem newest_version_is_published (settings : Settings) (session : Session)
    (events : List Event) :
    ((reached settings session events).1.running ++ endedFrom settings.linters .start events).Perm
      (numbered (versions events)) ∧
    (reached settings session events).1.slot.issued = (versions events).length ∧
    ((publications settings events).map fun p => (p.revision, p.text)).Sublist
      (endedFrom settings.linters .start events) ∧
    (∀ p ∈ publications settings events, p.found = Check.run settings.linters p.text) ∧
    ((publications settings events).map Publication.revision).Pairwise (· < ·) ∧
    ((publications settings events).map Publication.revision).getLast? =
      (reached settings session events).1.slot.revision? ∧
    ((reached settings session events).1.running = [] →
      ((publications settings events).map Publication.revision).getLast? =
        if (versions events).length = 0 then none else some (versions events).length) ∧
    ∀ path, settings.output = some path → Writable session.workspace path →
      ((∀ p ∈ publications settings events, p.found.publishable = none) →
        (reached settings session events).2.workspace.read path = session.workspace.read path) ∧
      ∀ p ∈ publications settings events, ∀ d, p.found.publishable = some d →
        (∀ q ∈ publications settings events, q.found.publishable.isSome →
          q.revision ≤ p.revision) →
        (reached settings session events).2.workspace.read path = .ok (d.text settings.format) := by
  have h := accounted_run settings.linters events
  have hstate : (reached settings session events).1 =
      (State.start.run settings.linters events).2 := fst_runOn _ _
  rw [hstate]
  refine ⟨h.checks, h.issued, h.published, h.found, h.increasing, h.newest, ?_, ?_⟩
  · intro hidle
    rw [← h.issued]
    exact h.newest_issued hidle
  · intro path houtput hwritable
    have hstart : session.workspace.read path =
        (none : Option String).elim (session.workspace.read path) .ok := rfl
    have hfile := read_runOn houtput hwritable hstart .start events
    refine ⟨?_, ?_⟩
    · intro hnone
      refine hfile.trans ?_
      rw [outputAfter_of_none fun p hp => by rw [Publication.written?, hnone p hp, Option.map_none]]
      rfl
    · intro p hp d hd hnewest
      have htext : p.written? settings.format = some (d.text settings.format) := by
        rw [Publication.written?, hd, Option.map_some]
      refine hfile.trans ?_
      rw [outputAfter_of_newest h.increasing hp htext]
      · rfl
      · intro q hq hsome
        rw [Publication.written?, Option.isSome_map] at hsome
        exact hnewest q hq hsome

/-- A watch that runs no linters. -/
def plainSettings : Settings := ⟨[], .json, some "api.json", 1⟩

def emptySession : Session := ⟨.empty, "", "", ""⟩

/-- A short description. -/
def describedText : String :=
  "\x7b\"title\":\"T\",\"description\":\"D\","
    ++ "\"contact\":\x7b\"name\":\"A\",\"email\":\"a@b.nl\",\"url\":\"a:b\"\x7d,"
    ++ "\"resources\":[\x7b\"name\":\"a\",\"plural\":\"b\"\x7d]\x7d"

/-- A text that is no description, then one that is, whose check ends first. -/
def overtakenEvents : List Event :=
  [.look (some ""), .look none, .look (some describedText), .finish 2, .finish 1]

theorem newest_version_is_published_overtaken :
    (reached plainSettings emptySession overtakenEvents).1.running = [] ∧
    ((publications plainSettings overtakenEvents).map Publication.revision).getLast? = some 2 ∧
    ∃ d, (Check.run [] describedText).publishable = some d ∧
      (reached plainSettings emptySession overtakenEvents).2.workspace.read "api.json" =
        .ok (d.text .json) := by
  obtain ⟨-, -, -, hfound, -, -, hidle, hfile⟩ :=
    newest_version_is_published plainSettings emptySession overtakenEvents
  have hrunning : (reached plainSettings emptySession overtakenEvents).1.running = [] := by
    decide +kernel
  have hwritable : Writable emptySession.workspace "api.json" := writable_iff.mpr (by decide)
  have hps : (publications plainSettings overtakenEvents).map (fun p => (p.revision, p.text)) =
      [(2, describedText)] := by decide +kernel
  obtain ⟨p, hp, heq⟩ := List.map_eq_singleton_iff.mp hps
  obtain ⟨hrevision, htext⟩ := Prod.mk.inj heq
  rw [hp] at hfound hfile
  have hcheck := hfound p List.mem_cons_self
  have hpublishable : (Check.run [] describedText).publishable.isSome := by decide +kernel
  obtain ⟨d, hd⟩ := Option.isSome_iff_exists.mp hpublishable
  refine ⟨hrunning, (hidle hrunning).trans (by decide), d, hd, ?_⟩
  have hpd : p.found.publishable = some d := by
    rw [hcheck, htext]
    exact hd
  exact (hfile "api.json" rfl hwritable).2 p List.mem_cons_self d hpd (by simp)

end Machine

end ResourceApi.Command.Watch
