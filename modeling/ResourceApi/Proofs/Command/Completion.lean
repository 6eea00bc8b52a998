import ResourceApi.Proofs.Command.Watch

/-!
The order in which checks end. A check is published if it is newer than all that have ended before
it, so the publications are the records in the order of the ends, and the output file follows them.
When all checks have ended, the newest version decides if it has a document; if it has none, the
file may hold the document of an older version or not, as the older or the newer check ended first.
-/

namespace ResourceApi.Command.Watch

variable {linters : List Lint.Builtin} {s : State}

/-- The runs that are newer than all before them, and than a run before all of them. -/
def records : Option Nat → List (Nat × String) → List (Nat × String)
  | _, [] => []
  | newest, run :: runs =>
    if newest.any (run.1 ≤ ·) then records newest runs else run :: records (some run.1) runs

/-- The text that a version leaves in the output file, if its check finds it fit for publication. -/
def document (settings : Settings) (text : String) : Option String :=
  (Check.run settings.linters text).publishable.map fun d => d.text settings.format

/-- The text of the output file after some publications, given its text before. -/
def fileAfter (settings : Settings) (before : Option String) (runs : List (Nat × String)) :
    Option String :=
  runs.foldl (fun file run => (document settings run.2).or file) before

/-! ### Ends and publications -/

theorem published_eq_records (s : State) (events : List Event) :
    ((s.run linters events).1.map fun p => (p.revision, p.text)) =
      records s.slot.revision? (endedFrom linters s events) := by
  induction events generalizing s with
  | nil => rfl
  | cons event events ih =>
      rw [run_cons, List.map_append, ih, endedFrom]
      cases event with
      | look found =>
          have hslot : (s.look found).slot.revision? = s.slot.revision? := by
            cases found with
            | none => rfl
            | some text =>
                rw [State.look]
                split <;> rfl
          rw [State.step, State.ended, hslot]
          rfl
      | finish revision =>
          rw [State.step]
          cases hended : s.ended (.finish revision) with
          | none =>
              rw [finish_of_none hended]
              rfl
          | some run =>
              have hrun : run.1 = revision := by simpa using List.find?_some hended
              have hrecords (rest : List (Nat × String)) :
                  records s.slot.revision? ((some run).toList ++ rest) =
                    if s.slot.isStale run.1 then records s.slot.revision? rest
                    else run :: records (some run.1) rest := rfl
              rw [hrecords, hrun, finish_of_some hended]
              cases hstale : s.slot.isStale revision with
              | true => rfl
              | false =>
                  rw [if_neg (by decide), if_neg (by decide), Latest.revision?_keep, ← hrun]
                  rfl

theorem outputAfter_eq_fileAfter {settings : Settings} {before : Option String}
    {ps : List Publication} (hfound : ∀ p ∈ ps, p.found = Check.run settings.linters p.text) :
    outputAfter settings.format before ps =
      fileAfter settings before (ps.map fun p => (p.revision, p.text)) := by
  rw [outputAfter, fileAfter, List.foldl_map]
  refine List.foldl_ext _ _ _ fun file p hp => ?_
  rw [Publication.written?, hfound p hp, document]

/-! ### Records -/

theorem records_of_le {newest : Nat} {runs : List (Nat × String)}
    (h : ∀ run ∈ runs, run.1 ≤ newest) : records (some newest) runs = [] := by
  induction runs with
  | nil => rfl
  | cons run runs ih =>
      obtain ⟨hrun, hruns⟩ := List.forall_mem_cons.mp h
      rw [records, if_pos (by simpa using hrun)]
      exact ih hruns

theorem records_sublist (newest : Option Nat) (runs : List (Nat × String)) :
    (records newest runs).Sublist runs := by
  induction runs generalizing newest with
  | nil => exact .slnil
  | cons run runs ih =>
      rw [records]
      split
      · exact (ih newest).cons run
      · exact (ih (some run.1)).cons_cons run

section File

variable {settings : Settings} {session : Session} {path : String}

/-- The newest of all runs is a record wherever it ends, and the last one. -/
theorem fileAfter_of_newest {runs : List (Nat × String)} {run : Nat × String} {text : String}
    (hmem : run ∈ runs) (hnodup : (runs.map Prod.fst).Nodup) (hnewest : ∀ r ∈ runs, r.1 ≤ run.1)
    (htext : document settings run.2 = some text) {newest : Option Nat}
    (hlt : ∀ r ∈ newest, r < run.1) (before : Option String) :
    fileAfter settings before (records newest runs) = some text := by
  induction runs generalizing newest before with
  | nil => cases hmem
  | cons head runs ih =>
      obtain ⟨hhead, hruns⟩ := List.forall_mem_cons.mp hnewest
      obtain ⟨hfresh, hnodup⟩ := List.nodup_cons.mp hnodup
      rcases List.mem_cons.mp hmem with rfl | hmem
      · have hnone : ¬ newest.any (run.1 ≤ ·) = true := by
          cases newest with
          | none => simp
          | some r => simpa using hlt r rfl
        rw [records, if_neg hnone, records_of_le hruns, fileAfter, List.foldl_cons, htext]
        rfl
      · have hne : head.1 ≠ run.1 := fun heq =>
          hfresh (heq ▸ List.mem_map_of_mem hmem)
        rw [records]
        split
        · exact ih hmem hnodup hruns hlt before
        · rw [fileAfter, List.foldl_cons]
          refine ih hmem hnodup hruns ?_ _
          intro r hr
          obtain rfl := Option.some.inj hr
          exact Nat.lt_of_le_of_ne hhead hne

/-- Whatever is in the file was there before or is the document of a run. -/
theorem fileAfter_cases (settings : Settings) (before : Option String)
    (runs : List (Nat × String)) :
    fileAfter settings before runs = before ∨
      ∃ run ∈ runs, document settings run.2 = fileAfter settings before runs := by
  induction runs generalizing before with
  | nil => exact .inl rfl
  | cons run runs ih =>
      rw [fileAfter, List.foldl_cons]
      rcases ih ((document settings run.2).or before) with h | ⟨other, hother, h⟩
      · cases hdocument : document settings run.2 with
        | none =>
            rw [hdocument] at h
            exact .inl h
        | some text =>
            rw [hdocument] at h
            exact .inr ⟨run, List.mem_cons_self, hdocument.trans h.symm⟩
      · exact .inr ⟨other, List.mem_cons_of_mem run hother, h⟩

/-- The file follows the records in the order in which the checks end. -/
theorem read_reached (houtput : settings.output = some path)
    (hwritable : Writable session.workspace path) (events : List Event) :
    (reached settings session events).2.workspace.read path =
      (fileAfter settings none (records none (endedFrom settings.linters .start events))).elim
        (session.workspace.read path) .ok := by
  have hread : session.workspace.read path =
      (none : Option String).elim (session.workspace.read path) .ok := rfl
  refine (read_runOn houtput hwritable hread .start events).trans ?_
  rw [outputAfter_eq_fileAfter (accounted_run settings.linters events).found, published_eq_records]
  rfl

end File

/-! ### Every order is possible -/

theorem endedFrom_append (s : State) (events events' : List Event) :
    endedFrom linters s (events ++ events') =
      endedFrom linters s events ++ endedFrom linters (s.run linters events).2 events' := by
  induction events generalizing s with
  | nil => rfl
  | cons event events ih =>
      rw [List.cons_append, endedFrom, endedFrom, ih, run_cons, List.append_assoc]

theorem run_append (s : State) (events events' : List Event) :
    (s.run linters (events ++ events')).2 =
      ((s.run linters events).2.run linters events').2 := by
  induction events generalizing s with
  | nil => rfl
  | cons event events ih => rw [List.cons_append, run_cons, run_cons, ih]

/-- Looks that find these texts, one after the other. -/
def looks (found : List String) : List Event := found.map fun text => .look (some text)

/-- The ends of some runs, one after the other. -/
def finishes (runs : List (Nat × String)) : List Event := runs.map fun run => .finish run.1

theorem endedFrom_looks (s : State) (found : List String) :
    endedFrom linters s (looks found) = [] := by
  induction found generalizing s with
  | nil => rfl
  | cons text found ih => exact ih _

theorem texts_looks_finishes (found : List String) (runs : List (Nat × String)) :
    texts (looks found ++ finishes runs) = found := by
  rw [texts, List.filterMap_append, looks, finishes, List.filterMap_map, List.filterMap_map]
  simp

/-- Runs that are all there can end in any order. -/
theorem finishes_run {runs : List (Nat × String)} (hruns : runs.Perm s.running)
    (hnodup : (s.running.map Prod.fst).Nodup) :
    endedFrom linters s (finishes runs) = runs ∧
      (s.run linters (finishes runs)).2.running = [] := by
  induction runs generalizing s with
  | nil => exact ⟨rfl, hruns.nil_eq.symm⟩
  | cons run runs ih =>
      obtain ⟨r, text⟩ := run
      have hmem : (r, text) ∈ s.running := hruns.subset List.mem_cons_self
      have hended : s.ended (.finish r) = some (r, text) := by
        rw [State.ended]
        cases hfind : s.running.find? fun run => run.1 = r with
        | none => simpa using List.find?_eq_none.mp hfind (r, text) hmem
        | some run =>
            have heq : run.1 = r := by simpa using List.find?_some hfind
            have hrun := List.mem_of_find?_eq_some hfind
            rw [List.inj_on_of_nodup_map hnodup hrun hmem heq]
      have hrunning : (s.finish linters r).2.running = s.running.filter fun run => run.1 ≠ r := by
        rw [finish_of_some hended]
        cases s.slot.isStale r <;> rfl
      have hrest : runs.Perm (s.finish linters r).2.running := by
        rw [hrunning]
        exact (hruns.trans (perm_cons_filter hnodup hmem)).cons_inv
      have hnodup' : ((s.finish linters r).2.running.map Prod.fst).Nodup := by
        rw [hrunning]
        exact (List.filter_sublist.map _).nodup hnodup
      obtain ⟨hends, hidle⟩ := ih hrest hnodup'
      refine ⟨?_, ?_⟩
      · change (s.ended (.finish r)).toList ++
          endedFrom linters (s.finish linters r).2 (finishes runs) = _
        rw [hended, hends]
        rfl
      · exact hidle

/-- Checks of given versions can end in any order, once all of them have started. -/
theorem exists_events (linters : List Lint.Builtin) {found : List String}
    (hfound : found.destutter (· ≠ ·) = found) {runs : List (Nat × String)}
    (hruns : runs.Perm (numbered found)) :
    ∃ events, versions events = found ∧ endedFrom linters .start events = runs ∧
      (State.start.run linters events).2.running = [] := by
  have hlooks := accounted_run linters (looks found)
  have hversions : ∀ runs, versions (looks found ++ finishes runs) = found := fun runs => by
    rw [versions, texts_looks_finishes, hfound]
  have hrunning : (State.start.run linters (looks found)).2.running.Perm (numbered found) := by
    have hchecks := hlooks.checks
    have hnil := hversions []
    rw [finishes, List.map_nil, List.append_nil] at hnil
    rwa [endedFrom_looks, List.append_nil, hnil] at hchecks
  have hnodup : ((State.start.run linters (looks found)).2.running.map Prod.fst).Nodup := by
    rw [(hrunning.map Prod.fst).nodup_iff, map_fst_numbered]
    exact List.nodup_range'
  obtain ⟨hends, hidle⟩ : endedFrom linters (State.start.run linters (looks found)).2
      (finishes runs) = runs ∧
      ((State.start.run linters (looks found)).2.run linters (finishes runs)).2.running = [] :=
    finishes_run (hruns.trans hrunning.symm) hnodup
  refine ⟨looks found ++ finishes runs, hversions runs, ?_, ?_⟩
  · rw [endedFrom_append, endedFrom_looks, hends, List.nil_append]
  · rw [run_append, hidle]

/-! ### What the file holds when all checks have ended -/

theorem mem_numbered_snd {found : List String} {run : Nat × String} (h : run ∈ numbered found) :
    run.2 ∈ found := (List.of_mem_zip (a := run.1) h).2

theorem le_of_mem_numbered {found : List String} {run : Nat × String} (h : run ∈ numbered found) :
    run.1 ≤ found.length := by
  have hrun := List.mem_map_of_mem (f := Prod.fst) h
  rw [map_fst_numbered, List.mem_range'_1] at hrun
  omega

theorem exists_mem_numbered {found : List String} {text : String} (h : text ∈ found) :
    ∃ r, (r, text) ∈ numbered found := by
  have hsnd : (numbered found).map Prod.snd = found := List.map_snd_zip (by simp)
  rw [← hsnd] at h
  obtain ⟨⟨r, _⟩, hmem, rfl⟩ := List.mem_map.mp h
  exact ⟨r, hmem⟩

section Settled

variable {settings : Settings} {session : Session} {path : String} {events : List Event}

/-- When no check is running, all versions have been checked to the end. -/
theorem ended_perm (hidle : (reached settings session events).1.running = []) :
    (endedFrom settings.linters .start events).Perm (numbered (versions events)) := by
  have hchecks := (accounted_run settings.linters events).checks
  have hstate : (reached settings session events).1 =
      (State.start.run settings.linters events).2 := fst_runOn _ _
  rwa [← hstate, hidle, List.nil_append] at hchecks

/-- A newest version that has a document leaves it in the file. -/
theorem read_of_newest (houtput : settings.output = some path)
    (hwritable : Writable session.workspace path)
    (hidle : (reached settings session events).1.running = []) {text written : String}
    (hnewest : (versions events).getLast? = some text)
    (hdocument : document settings text = some written) :
    (reached settings session events).2.workspace.read path = .ok written := by
  have hperm := ended_perm hidle
  obtain ⟨front, hfront⟩ := List.getLast?_eq_some_iff.mp hnewest
  have hle : ∀ run ∈ endedFrom settings.linters .start events, run.1 ≤ front.length + 1 := by
    intro run hrun
    have := le_of_mem_numbered (hperm.subset hrun)
    rwa [hfront, List.length_append, List.length_singleton] at this
  have hmem : (front.length + 1, text) ∈ endedFrom settings.linters .start events := by
    rw [hperm.mem_iff, hfront, numbered_concat]
    exact List.mem_append_right _ List.mem_cons_self
  have hnodup : ((endedFrom settings.linters .start events).map Prod.fst).Nodup := by
    rw [(hperm.map Prod.fst).nodup_iff, map_fst_numbered]
    exact List.nodup_range'
  rw [read_reached houtput hwritable,
    fileAfter_of_newest hmem hnodup hle hdocument (by simp) none]
  rfl

/-- Where all documents are what the file held before, they change nothing. -/
theorem read_of_unchanged (houtput : settings.output = some path)
    (hwritable : Writable session.workspace path)
    (hidle : (reached settings session events).1.running = [])
    (hsame : ∀ text ∈ versions events, ∀ written, document settings text = some written →
      session.workspace.read path = .ok written) :
    (reached settings session events).2.workspace.read path = session.workspace.read path := by
  have hperm := ended_perm hidle
  rw [read_reached houtput hwritable]
  cases hfile : fileAfter settings none
      (records none (endedFrom settings.linters .start events)) with
  | none => rfl
  | some written =>
      rcases fileAfter_cases settings none
        (records none (endedFrom settings.linters .start events)) with h | ⟨run, hrun, h⟩
      · rw [hfile] at h
        cases h
      · have hmem := hperm.subset ((records_sublist none _).subset hrun)
        exact (hsame run.2 (mem_numbered_snd hmem) written (h.trans hfile)).symm

/-- Behind a newest version without a document, an older one reaches the file if its check ends
first, and does not if the newest check does. -/
theorem exists_orders (session : Session) (houtput : settings.output = some path)
    (hwritable : Writable session.workspace path) {front : List String}
    {newest text written : String}
    (hfound : (front ++ [newest]).destutter (· ≠ ·) = front ++ [newest])
    (hnone : document settings newest = none) (hmem : text ∈ front)
    (hwritten : document settings text = some written) :
    ∃ older newer, versions older = front ++ [newest] ∧ versions newer = front ++ [newest] ∧
      (reached settings session older).1.running = [] ∧
      (reached settings session newer).1.running = [] ∧
      (reached settings session older).2.workspace.read path = .ok written ∧
      (reached settings session newer).2.workspace.read path =
        session.workspace.read path := by
  obtain ⟨r, hr⟩ := exists_mem_numbered hmem
  have hperm := List.perm_cons_erase hr
  have hold : ∀ run ∈ numbered front, run.1 ≤ front.length + 1 := fun run hrun =>
    Nat.le_succ_of_le (le_of_mem_numbered hrun)
  obtain ⟨hler, hothers⟩ := List.forall_mem_cons.mp
    (fun run hrun => hold run (hperm.symm.subset hrun))
  have hnumbered := numbered_concat front newest
  have holder : ((r, text) :: (front.length + 1, newest) :: (numbered front).erase (r, text)).Perm
      (numbered (front ++ [newest])) := by
    rw [hnumbered]
    refine (List.Perm.swap _ _ _).trans ?_
    exact (hperm.symm.cons _).trans (List.perm_append_singleton _ _).symm
  have hnewer : ((front.length + 1, newest) :: (r, text) :: (numbered front).erase (r, text)).Perm
      (numbered (front ++ [newest])) := (List.Perm.swap _ _ _).trans holder
  obtain ⟨older, hversions, hends, hidle⟩ := exists_events settings.linters hfound holder
  obtain ⟨newer, hversions', hends', hidle'⟩ := exists_events settings.linters hfound hnewer
  have hlt : r < front.length + 1 := Nat.lt_succ_of_le (le_of_mem_numbered hr)
  refine ⟨older, newer, hversions, hversions', ?_, ?_, ?_, ?_⟩
  · rw [reached, fst_runOn, hidle]
  · rw [reached, fst_runOn, hidle']
  · have hrecords : records none
        ((r, text) :: (front.length + 1, newest) :: (numbered front).erase (r, text)) =
        [(r, text), (front.length + 1, newest)] := by
      rw [records, if_neg (by simp), records, if_neg (by simpa using hlt), records_of_le hothers]
    rw [read_reached houtput hwritable, hends, hrecords, fileAfter, List.foldl_cons,
      List.foldl_cons, hwritten, hnone]
    rfl
  · have hrecords : records none
        ((front.length + 1, newest) :: (r, text) :: (numbered front).erase (r, text)) =
        [(front.length + 1, newest)] := by
      rw [records, if_neg (by simp),
        records_of_le (List.forall_mem_cons.mpr ⟨hler, hothers⟩)]
    rw [read_reached houtput hwritable, hends', hrecords, fileAfter, List.foldl_cons, hnone]
    rfl

/-- When all checks have ended, the file holds what the last record with a document has left there.
This is the same for all orders in which the checks can end if the newest version has a document, or
if no version has one that differs from what the file held before; otherwise some orders differ. -/
theorem file_follows_records (houtput : settings.output = some path)
    (hwritable : Writable session.workspace path)
    (hidle : (reached settings session events).1.running = []) :
    (reached settings session events).2.workspace.read path =
      (fileAfter settings none (records none (endedFrom settings.linters .start events))).elim
        (session.workspace.read path) .ok ∧
    ((∀ events', versions events' = versions events →
        (reached settings session events').1.running = [] →
        (reached settings session events').2.workspace.read path =
          (reached settings session events).2.workspace.read path) ↔
      (∀ text ∈ (versions events).getLast?, (document settings text).isSome) ∨
      ∀ text ∈ versions events, ∀ written, document settings text = some written →
        session.workspace.read path = .ok written) := by
  refine ⟨read_reached houtput hwritable events, fun hall => ?_, ?_⟩
  · by_contra hneither
    obtain ⟨hlast, hdiffers⟩ := not_or.mp hneither
    push Not at hlast hdiffers
    obtain ⟨newest, hnewest, hnone⟩ := hlast
    obtain ⟨text, htext, written, hwritten, hne⟩ := hdiffers
    rw [ne_eq, Option.not_isSome_iff_eq_none] at hnone
    obtain ⟨front, hfront⟩ := List.getLast?_eq_some_iff.mp hnewest
    have hmem : text ∈ front := by
      rw [hfront] at htext
      refine (List.mem_append.mp htext).resolve_right fun h => ?_
      rw [List.mem_singleton.mp h, hnone] at hwritten
      cases hwritten
    have hfound : (front ++ [newest]).destutter (· ≠ ·) = front ++ [newest] := by
      rw [← hfront]
      exact List.destutter_idem _ _
    obtain ⟨older, newer, hversions, hversions', hidle, hidle', hread, hread'⟩ :=
      exists_orders session houtput hwritable hfound hnone hmem hwritten
    have holder := hall older (hversions.trans hfront.symm) hidle
    have hnewer := hall newer (hversions'.trans hfront.symm) hidle'
    exact hne (hread'.symm.trans (hnewer.trans (holder.symm.trans hread)))
  · intro h events' hversions hidle'
    rcases h with hdocument | hsame
    · cases hnewest : (versions events).getLast? with
      | none =>
          have hnil : versions events = [] := List.getLast?_eq_none_iff.mp hnewest
          have hnothing : ∀ text ∈ versions events, ∀ written,
              document settings text = some written →
              session.workspace.read path = .ok written := by simp [hnil]
          rw [read_of_unchanged houtput hwritable hidle hnothing,
            read_of_unchanged houtput hwritable hidle' (hversions ▸ hnothing)]
      | some text =>
          obtain ⟨written, hwritten⟩ := Option.isSome_iff_exists.mp (hdocument text hnewest)
          rw [read_of_newest houtput hwritable hidle hnewest hwritten,
            read_of_newest houtput hwritable hidle' (hversions ▸ hnewest) hwritten]
    · rw [read_of_unchanged houtput hwritable hidle hsame,
        read_of_unchanged houtput hwritable hidle' (hversions ▸ hsame)]

theorem isSome_document_describedText : (document plainSettings describedText).isSome := by
  rw [document, Option.isSome_map]
  decide +kernel

theorem writable_emptySession : Writable emptySession.workspace "api.json" :=
  writable_iff.mpr (by decide)

theorem file_follows_records_overtaken :
    plainSettings.output = some "api.json" ∧ Writable emptySession.workspace "api.json" ∧
    (reached plainSettings emptySession overtakenEvents).1.running = [] ∧
    ∀ events', versions events' = versions overtakenEvents →
      (reached plainSettings emptySession events').1.running = [] →
      (reached plainSettings emptySession events').2.workspace.read "api.json" =
        (reached plainSettings emptySession overtakenEvents).2.workspace.read "api.json" := by
  have hidle : (reached plainSettings emptySession overtakenEvents).1.running = [] := by
    decide +kernel
  have hnewest : (versions overtakenEvents).getLast? = some describedText := by decide +kernel
  refine ⟨rfl, writable_emptySession, hidle,
    (file_follows_records rfl writable_emptySession hidle).2.mpr (.inl fun text htext => ?_)⟩
  obtain rfl := Option.some.inj (hnewest.symm.trans htext)
  exact isSome_document_describedText

/-- A description and a text that is none; the check of the description ends first. -/
def olderFirst : List Event :=
  [.look (some describedText), .look (some ""), .finish 1, .finish 2]

/-- The same versions; the check of the description ends last. -/
def newerFirst : List Event :=
  [.look (some describedText), .look (some ""), .finish 2, .finish 1]

/-- The document of the first version stays in the file if its check ends first, and never gets
there if the second check does. -/
theorem completion_order_reaches_the_file :
    plainSettings.output = some "api.json" ∧ Writable emptySession.workspace "api.json" ∧
    versions olderFirst = versions newerFirst ∧
    (reached plainSettings emptySession olderFirst).1.running = [] ∧
    (reached plainSettings emptySession newerFirst).1.running = [] ∧
    (reached plainSettings emptySession olderFirst).2.workspace.read "api.json" ≠
      (reached plainSettings emptySession newerFirst).2.workspace.read "api.json" := by
  have hnone : document plainSettings "" = none := by decide +kernel
  have hmissing : emptySession.workspace.read "api.json" = .error .notFound := by decide
  have holder : records none (endedFrom plainSettings.linters .start olderFirst) =
      [(1, describedText), (2, "")] := by decide +kernel
  have hnewer : records none (endedFrom plainSettings.linters .start newerFirst) = [(2, "")] := by
    decide +kernel
  obtain ⟨written, hwritten⟩ := Option.isSome_iff_exists.mp isSome_document_describedText
  refine ⟨rfl, writable_emptySession, by decide, by decide +kernel, by decide +kernel, ?_⟩
  rw [read_reached rfl writable_emptySession, read_reached rfl writable_emptySession, holder,
    hnewer, fileAfter, fileAfter, List.foldl_cons, List.foldl_cons, List.foldl_cons, hwritten,
    hnone, hmissing]
  nofun

end Settled

end ResourceApi.Command.Watch
