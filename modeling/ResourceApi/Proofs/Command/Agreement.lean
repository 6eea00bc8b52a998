import ResourceApi.Command.Program
import ResourceApi.Proofs.Descriptions
import ResourceApi.Proofs.Command.Watch
import ResourceApi.Proofs.Lint.Reports

/-!
Commands on one session. A check passes exactly if the linters pass and the description compiles; it
then leaves the workspace that compiling leaves, and otherwise it leaves the workspace as it was. A
watch publishes what a check writes, but it makes no directories.
-/

namespace ResourceApi

theorem Check.publishable_eq_some {found : Check} {d : OpenApi.Document} :
    found.publishable = some d ↔ found.report.hasErrors = false ∧ found.document = .ok d := by
  rw [publishable]
  cases found.report.hasErrors with
  | true => simp
  | false => cases found.document <;> simp [Except.toOption]

namespace Command

variable {α β : Type} {s t : Session}

/-! ### Runs on a session -/

namespace Run

/-- What a command comes to on a session. -/
def on (x : Run (StateM Session) α) (s : Session) : Except Failure α × Session := x.run s

section Steps

variable {ε : Type} {x : Run (StateM Session) α} {f : α → Run (StateM Session) β} {a : α}

theorem on_bind_of_ok (h : on x s = (.ok a, t)) : on (x >>= f) s = on (f a) t := by
  rw [on] at h ⊢
  change (fun p => ExceptT.bindCont f p.1 p.2) (x.run s) = _
  rw [h]
  rfl

theorem on_bind_of_error {e : Failure} (h : on x s = (.error e, t)) :
    on (x >>= f) s = (.error e, t) := by
  rw [on] at h ⊢
  change (fun p => ExceptT.bindCont f p.1 p.2) (x.run s) = _
  rw [h]
  rfl

theorem on_orFail (r : Except ε α) (failure : ε → Failure) :
    on (orFail r failure) s = (r.mapError failure, s) := by
  cases r <;> rfl

theorem on_liftM (request : StateM Session α) :
    on (liftM request) s = (.ok (request s).1, (request s).2) := rfl

theorem on_ask (request : StateM Session (Except ε α)) (failure : ε → Failure) :
    on (ask request failure) s = ((request s).1.mapError failure, (request s).2) := by
  rw [ask, on_bind_of_ok (on_liftM request)]
  cases (request s).1 <;> rfl

end Steps

/-! ### What is read -/

/-- Only the files of the session and its input are looked at. -/
theorem on_configIn (path : String) : (on (configIn path) s).2 = s := by
  have hread : on (ask (Machine.read path) (Failure.config path)) s =
      ((s.workspace.read path).mapError (.config path), s) := on_ask _ _
  rw [configIn]
  cases h : s.workspace.read path with
  | error e =>
      rw [h] at hread
      rw [on_bind_of_error hread]
  | ok text =>
      rw [h] at hread
      rw [on_bind_of_ok hread, on_orFail]

theorem on_config (named : Option String) : (on (config named) s).2 = s := by
  cases named with
  | some path => exact on_configIn path
  | none =>
      rw [config, on_bind_of_ok (on_liftM _)]
      change (on (if s.workspace.isFile Config.fileName then configIn Config.fileName
        else pure {}) s).2 = s
      split
      · exact on_configIn Config.fileName
      · rfl

theorem on_input (path : String) : (on (input path) s).2 = s := by
  rw [input]
  split
  · rw [on_ask]
    rfl
  · rw [on_ask]
    rfl

end Run

/-! ### What is written -/

/-- A file can be written, whatever its text, once its directory has been made. -/
def Creatable (w : Workspace) (path : String) : Prop :=
  ∃ w', w.makeDirectoryOf path = .ok w' ∧ Watch.Writable w' path

/-- The workspace with a file, whose directory has been made. -/
def stored (w : Workspace) (path text : String) : Workspace :=
  ((w.makeDirectoryOf path).bind fun w => w.write path text).toOption.getD w

section Output

variable {w : Workspace} {path text : String}

/-- A file that can be written as things stand can be written. -/
theorem Creatable.of_writable (h : Watch.Writable w path) : Creatable w path :=
  ⟨w, Workspace.makeDirectoryOf_of_target (Watch.writable_iff.mp h), h⟩

theorem exists_stored (h : Creatable w path) (text : String) :
    ∃ w', w.makeDirectoryOf path = .ok w' ∧ w'.write path text = .ok (stored w path text) := by
  obtain ⟨w', hdirectory, hwritable⟩ := h
  have hwrite := hwritable text
  cases hstored : w'.write path text with
  | error e =>
      rw [hstored] at hwrite
      cases hwrite
  | ok w'' => exact ⟨w', hdirectory, by rw [hstored, stored, hdirectory, Except.bind, hstored]; rfl⟩

theorem read_stored (h : Creatable w path) : (stored w path text).read path = .ok text := by
  obtain ⟨w', -, hwrite⟩ := exists_stored h text
  exact (Workspace.read_write hwrite).1

theorem Run.on_output (h : Creatable s.workspace path) : on (output (some path) text) s =
    (.ok (), { s with workspace := stored s.workspace path text }) := by
  obtain ⟨w', hdirectory, hwrite⟩ := exists_stored h text
  have hmade : on (ask (Machine.makeDirectoryOf path) Failure.directory) s =
      (.ok (), { s with workspace := w' }) := by
    rw [on_ask]
    change ((Session.change (fun w => w.makeDirectoryOf path) s).1.mapError Failure.directory,
      (Session.change (fun w => w.makeDirectoryOf path) s).2) = _
    rw [Session.change, hdirectory]
    rfl
  have hwritten : on (ask (Machine.write path text) (Failure.output path))
      { s with workspace := w' } =
      (.ok (), { s with workspace := stored s.workspace path text }) := by
    rw [on_ask]
    change ((Session.change (fun w => w.write path text) { s with workspace := w' }).1.mapError
      (Failure.output path), (Session.change (fun w => w.write path text)
        { s with workspace := w' }).2) = _
    rw [Session.change, hwrite]
    rfl
  rw [output, on_bind_of_ok hmade, hwritten]

end Output

/-! ### Commands -/

/-- The commands get as far as their input: the configuration loads, the input can be read, the
linters that are asked for are known, and the output file can be written. -/
structure Ready (config? : Option String) (input output : String) (names : List String)
    (settings : Config) (text : String) (s : Session) : Prop where
  config : (Run.on (Run.config config?) s).1 = .ok settings
  input : (Run.on (Run.input input) s).1 = .ok text
  linters : ∀ name ∈ names, ∃ linter : Lint.Builtin, linter.name = name
  output : Creatable s.workspace output

theorem exists_ofNames {names : List String}
    (h : ∀ name ∈ names, ∃ linter : Lint.Builtin, linter.name = name) :
    ∃ linters, Lint.Builtin.ofNames names = .ok linters := by
  induction names with
  | nil => exact ⟨[], rfl⟩
  | cons name names ih =>
      obtain ⟨⟨linter, rfl⟩, hnames⟩ := List.forall_mem_cons.mp h
      obtain ⟨linters, hlinters⟩ := ih hnames
      refine ⟨linter :: linters, ?_⟩
      rw [Lint.Builtin.ofNames] at hlinters ⊢
      rw [List.mapM_cons, Lint.Builtin.ofName, Lint.Builtin.ofName?_name, hlinters]
      rfl

namespace Ready

variable {config? : Option String} {input output : String} {names : List String}
  {settings : Config} {text : String}

theorem on_config (h : Ready config? input output names settings text s) :
    Run.on (Run.config config?) s = (.ok settings, s) :=
  Prod.ext h.config (Run.on_config config?)

theorem on_input (h : Ready config? input output names settings text s) :
    Run.on (Run.input input) s = (.ok text, s) :=
  Prod.ext h.input (Run.on_input input)

theorem exists_chosen (h : Ready config? input output names settings text s) :
    ∃ linters, Run.chosen names settings = .ok linters := by
  cases names with
  | nil => exact ⟨settings.linters, rfl⟩
  | cons name names =>
      obtain ⟨linters, hlinters⟩ := exists_ofNames h.linters
      refine ⟨linters, ?_⟩
      change Run.named (name :: names) = _
      rw [Run.named, hlinters]
      rfl

end Ready

namespace Run

variable {config? : Option String} {input output : String} {names : List String}
  {settings : Config} {text : String} {linters : List Lint.Builtin} {format : Option OpenApi.Format}

theorem on_compile (h : Ready config? input output names settings text s) :
    on (compile config? ⟨input, some output, format⟩) s =
      match Description.compileText text with
      | .error e => (.error (.description input e), s)
      | .ok d => (.ok (), { s with
          workspace := stored s.workspace output (d.text (format.getD settings.format)) }) := by
  rw [compile, on_bind_of_ok h.on_config, on_bind_of_ok h.on_input, Description.compileText]
  cases hd : Description.parse text with
  | error e => exact on_bind_of_error (on_orFail _ _)
  | ok d =>
      rw [on_bind_of_ok (on_orFail _ _)]
      exact on_output h.output

theorem on_lint (h : Ready config? input output names settings text s)
    (hlinters : chosen names settings = .ok linters) {report : ReportFormat} :
    on (lint config? ⟨input, names, report⟩) s =
      ((Check.run linters text).report.ensureClean.mapError .findings,
        { s with
          printed := s.printed ++ reportText report (Check.run linters text).report text }) := by
  rw [lint, on_bind_of_ok h.on_config, on_bind_of_ok h.on_input, hlinters,
    on_bind_of_ok (on_orFail _ _), on_bind_of_ok (on_liftM _), on_orFail]
  rfl

/-- What a check says of a text to the user. -/
def complained (report : Lint.Report) (text : String) (s : Session) : Session :=
  if report.isClean then s else { s with errors := s.errors ++ report.render text }

theorem workspace_complained (report : Lint.Report) :
    (complained report text s).workspace = s.workspace := by
  rw [complained]
  split <;> rfl

/-- The end of a check: what it found decides whether something is written. -/
theorem on_emit (h : Creatable s.workspace output) (found : Check)
    (bytes : OpenApi.Document → String) :
    on (do
      orFail found.report.ensureClean .findings
      let d ← orFail found.document .notCompiled
      Run.output (some output) (bytes d)) s =
      if found.report.hasErrors then (.error (.findings ⟨found.report.count .error⟩), s)
      else match found.document with
        | .error e => (.error (.notCompiled e), s)
        | .ok d => (.ok (), { s with workspace := stored s.workspace output (bytes d) }) := by
  rw [Lint.Report.ensureClean_eq]
  cases found.report.hasErrors with
  | true => exact on_bind_of_error (on_orFail _ _)
  | false =>
      rw [if_neg Bool.false_ne_true, if_neg Bool.false_ne_true, on_bind_of_ok (on_orFail _ _)]
      cases found.document with
      | error e => exact on_bind_of_error (on_orFail _ _)
      | ok d =>
          rw [on_bind_of_ok (on_orFail _ _)]
          exact on_output h

theorem on_check (h : Ready config? input output names settings text s)
    (hlinters : chosen names settings = .ok linters) :
    on (check config? ⟨input, some output, format, names⟩) s =
      let found := Check.run linters text
      let t := complained found.report text s
      if found.report.hasErrors then (.error (.findings ⟨found.report.count .error⟩), t)
      else match found.document with
        | .error e => (.error (.notCompiled e), t)
        | .ok d => (.ok (), { t with
            workspace := stored t.workspace output (d.text (format.getD settings.format)) }) := by
  have hcreatable :
      Creatable (complained (Check.run linters text).report text s).workspace output := by
    rw [workspace_complained]
    exact h.output
  rw [check, on_bind_of_ok h.on_config, on_bind_of_ok h.on_input, hlinters,
    on_bind_of_ok (on_orFail _ _)]
  dsimp only
  rw [← on_emit hcreatable, complained]
  cases (Check.run linters text).report.isClean with
  | true => rfl
  | false => exact on_bind_of_ok (on_liftM _)

theorem on_watch (h : Ready config? input output names settings text s)
    (hlinters : chosen names settings = .ok linters) {interval : Option Nat} :
    on (Watch.settings config? ⟨input, some output, format, names, interval⟩) s =
      (.ok ⟨linters, format.getD settings.format, some output,
        max 1 (interval.getD settings.intervalMilliseconds)⟩, s) := by
  obtain ⟨named, hnamed⟩ := exists_ofNames h.linters
  have hnamed : Run.named names = .ok named := by
    rw [Run.named, hnamed]
    rfl
  rw [Watch.settings, hnamed, on_bind_of_ok (on_orFail _ _), on_bind_of_ok h.on_config]
  dsimp only
  rw [hlinters, on_bind_of_ok (on_orFail _ _)]
  rfl

end Run

/-! ### How invocations end -/

/-- What an invocation comes to on a session: what is left to do, and the session. A failure is said
to the user. -/
def Invocation.outcome (i : Invocation) (s : Session) : Next × Session :=
  match Run.on i.perform s with
  | (.ok next, t) => (next, t)
  | (.error failure, t) =>
    (.exit failure.exitCode,
      { t with errors := t.errors ++ ("Error: " ++ failure.message ++ "\n") })

/-- The program does what the invocation comes to that its words stand for. -/
theorem program_eq_outcome {environment : Option String} {words : List String} {i : Invocation}
    (h : Invocation.ofWords environment words = .ok i) :
    (program environment words : StateM Session Next) s = i.outcome s := by
  rw [program, h, Invocation.outcome]
  cases hrun : Run.on i.perform s with
  | mk r t =>
      rw [Run.on] at hrun
      simp only [bind, StateT.bind, hrun]
      cases r <;> rfl

/-- How a command ends that leaves nothing to do. -/
def ended : Except Failure Unit × Session → Next × Session
  | (.ok _, t) => (.exit 0, t)
  | (.error failure, t) =>
    (.exit failure.exitCode,
      { t with errors := t.errors ++ ("Error: " ++ failure.message ++ "\n") })

theorem outcome_eq_ended {i : Invocation} {x : Run (StateM Session) Unit}
    (h : i.perform = do x; return .exit 0) : i.outcome s = ended (Run.on x s) := by
  rw [Invocation.outcome, h]
  cases hx : Run.on x s with
  | mk r t =>
      cases r with
      | error e => rw [Run.on_bind_of_error hx]; rfl
      | ok a => rw [Run.on_bind_of_ok hx]; rfl

/-! ### Publications -/

namespace Watch

variable {settings : Settings} {p : Publication} {path : String}

theorem workspace_publish_of_none (h : p.written? settings.format = none) :
    ((publish settings p : StateM Session Unit) s).2.workspace = s.workspace := by
  rw [publish, h]
  rfl

/-- Nothing is written to a file that cannot be written. -/
theorem workspace_publish_of_not_writable (houtput : settings.output = some path)
    (h : ¬ Writable s.workspace path) :
    ((publish settings p : StateM Session Unit) s).2.workspace = s.workspace := by
  cases hwritten : p.written? settings.format with
  | none => exact workspace_publish_of_none hwritten
  | some text =>
      rw [writable_iff] at h
      have hwrite : ∃ e, s.workspace.write path text = .error e := by
        rw [Workspace.write, Workspace.writeBytes]
        cases htarget : s.workspace.target path with
        | error e => exact ⟨e, rfl⟩
        | ok place => exact absurd (by rw [htarget]; rfl) h
      obtain ⟨e, he⟩ := hwrite
      rw [publish, hwritten, houtput]
      change (Session.change (fun w => w.write path text)
        { s with printed := s.printed ++ p.message }).2.workspace = _
      rw [Session.change, he]

end Watch

section Agreement

variable {config? : Option String} {input output : String} {names : List String}
  {settings : Config} {text : String}

section Outcomes

variable {linters : List Lint.Builtin}

theorem fst_outcome_lint (h : Ready config? input output names settings text s)
    (hlinters : Run.chosen names settings = .ok linters) (report : ReportFormat) :
    (Invocation.outcome ⟨config?, .lint ⟨input, names, report⟩⟩ s).1 =
      if (Check.run linters text).report.hasErrors then .exit 3 else .exit 0 := by
  rw [outcome_eq_ended rfl, Run.on_lint h hlinters, Lint.Report.ensureClean_eq]
  cases (Check.run linters text).report.hasErrors <;> rfl

theorem outcome_compile_of_error (h : Ready config? input output names settings text s)
    (format : Option OpenApi.Format) {e : Description.Error}
    (he : Description.compileText text = .error e) :
    (Invocation.outcome ⟨config?, .compile ⟨input, some output, format⟩⟩ s).1 = .exit 3 := by
  rw [outcome_eq_ended rfl, Run.on_compile h, he]
  rfl

theorem outcome_compile_of_ok (h : Ready config? input output names settings text s)
    (format : Option OpenApi.Format) {d : OpenApi.Document}
    (hd : Description.compileText text = .ok d) :
    Invocation.outcome ⟨config?, .compile ⟨input, some output, format⟩⟩ s = (.exit 0, { s with
      workspace := stored s.workspace output (d.text (format.getD settings.format)) }) := by
  rw [outcome_eq_ended rfl, Run.on_compile h, hd]
  rfl

theorem outcome_check_of_publishable (h : Ready config? input output names settings text s)
    (hlinters : Run.chosen names settings = .ok linters) (format : Option OpenApi.Format)
    {d : OpenApi.Document} (hd : (Check.run linters text).publishable = some d) :
    (Invocation.outcome ⟨config?, .check ⟨input, some output, format, names⟩⟩ s).1 = .exit 0 ∧
    (Invocation.outcome ⟨config?, .check ⟨input, some output, format, names⟩⟩ s).2.workspace =
      stored s.workspace output (d.text (format.getD settings.format)) := by
  obtain ⟨hclean, hdocument⟩ := Check.publishable_eq_some.mp hd
  rw [outcome_eq_ended rfl, Run.on_check h hlinters]
  dsimp only
  rw [hclean, hdocument]
  refine ⟨rfl, ?_⟩
  change stored (Run.complained _ text s).workspace output _ = _
  rw [Run.workspace_complained]

theorem outcome_check_of_none (h : Ready config? input output names settings text s)
    (hlinters : Run.chosen names settings = .ok linters) (format : Option OpenApi.Format)
    (hnone : (Check.run linters text).publishable = none) :
    (Invocation.outcome ⟨config?, .check ⟨input, some output, format, names⟩⟩ s).1 = .exit 3 ∧
    (Invocation.outcome ⟨config?, .check ⟨input, some output, format, names⟩⟩ s).2.workspace =
      s.workspace := by
  have hworkspace : (Run.complained (Check.run linters text).report text s).workspace =
      s.workspace := Run.workspace_complained _
  rw [outcome_eq_ended rfl, Run.on_check h hlinters]
  dsimp only
  rw [Check.publishable] at hnone
  cases hclean : (Check.run linters text).report.hasErrors with
  | true => exact ⟨rfl, hworkspace⟩
  | false =>
      rw [hclean, if_neg Bool.false_ne_true] at hnone
      cases hdocument : (Check.run linters text).document with
      | error e => exact ⟨rfl, hworkspace⟩
      | ok d =>
          rw [hdocument] at hnone
          cases hnone

theorem outcome_watch (h : Ready config? input output names settings text s)
    (hlinters : Run.chosen names settings = .ok linters) (format : Option OpenApi.Format)
    (interval : Option Nat) :
    Invocation.outcome ⟨config?, .watch ⟨input, some output, format, names, interval⟩⟩ s =
      (.watch input ⟨linters, format.getD settings.format, some output,
        max 1 (interval.getD settings.intervalMilliseconds)⟩, s) := by
  have hperform : Run.on (Invocation.perform
      ⟨config?, .watch ⟨input, some output, format, names, interval⟩⟩) s = _ :=
    Run.on_bind_of_ok (Run.on_watch h hlinters)
  rw [Invocation.outcome, hperform]
  rfl

/-- Linting and compiling both pass exactly if there is something to publish. -/
theorem passes_iff (h : Ready config? input output names settings text s)
    (hlinters : Run.chosen names settings = .ok linters) (format : Option OpenApi.Format)
    (report : ReportFormat) :
    (Invocation.outcome ⟨config?, .lint ⟨input, names, report⟩⟩ s).1 = .exit 0 ∧
      (Invocation.outcome ⟨config?, .compile ⟨input, some output, format⟩⟩ s).1 = .exit 0 ↔
      ∃ d, (Check.run linters text).publishable = some d := by
  simp only [Check.publishable_eq_some]
  rw [fst_outcome_lint h hlinters]
  constructor
  · rintro ⟨hlint, hcompile⟩
    cases hdocument : Description.compileText text with
    | error e =>
        rw [outcome_compile_of_error h format hdocument] at hcompile
        cases hcompile
    | ok d =>
        refine ⟨d, ?_, hdocument⟩
        by_contra hclean
        rw [if_pos (Bool.of_not_eq_false hclean)] at hlint
        cases hlint
  · rintro ⟨d, hclean, hdocument⟩
    rw [hclean, outcome_compile_of_ok h format hdocument]
    exact ⟨rfl, rfl⟩

end Outcomes

/-- A check passes exactly if linting and compiling do, and then it leaves the workspace that
compiling leaves, with the document in the output file; a check that does not pass leaves the
workspace as it was. A watch publishes the document of exactly the checks that pass, and it writes
it if the directory of the file is there. -/
theorem commands_agree (h : Ready config? input output names settings text s)
    (format : Option OpenApi.Format) (report : ReportFormat) (interval : Option Nat) :
    let check := Invocation.outcome ⟨config?, .check ⟨input, some output, format, names⟩⟩ s
    let lint := Invocation.outcome ⟨config?, .lint ⟨input, names, report⟩⟩ s
    let compile := Invocation.outcome ⟨config?, .compile ⟨input, some output, format⟩⟩ s
    (check.1 = .exit 0 ↔ lint.1 = .exit 0 ∧ compile.1 = .exit 0) ∧
    (check.1 = .exit 0 → check.2.workspace = compile.2.workspace ∧
      ∃ d, Description.compileText text = .ok d ∧
        check.2.workspace.read output = .ok (d.text (format.getD settings.format))) ∧
    (check.1 ≠ .exit 0 → check.1 = .exit 3 ∧ check.2.workspace = s.workspace) ∧
    ∃ watch : Watch.Settings,
      Invocation.outcome ⟨config?, .watch ⟨input, some output, format, names, interval⟩⟩ s =
        (.watch input watch, s) ∧
      ∀ (revision : Nat) (t : Session),
        let published := ((Watch.publish watch ⟨revision, text, Check.run watch.linters text⟩ :
          StateM Session Unit) t).2.workspace
        (Watch.Writable t.workspace output → published.read output =
          if check.1 = .exit 0 then check.2.workspace.read output else t.workspace.read output) ∧
        (check.1 ≠ .exit 0 ∨ ¬ Watch.Writable t.workspace output → published = t.workspace) := by
  obtain ⟨linters, hlinters⟩ := h.exists_chosen
  intro check lint compile
  have hpasses : lint.1 = .exit 0 ∧ compile.1 = .exit 0 ↔ _ := passes_iff h hlinters format report
  rw [hpasses]
  cases hd : (Check.run linters text).publishable with
  | none =>
      obtain ⟨hexit, hworkspace⟩ : check.1 = .exit 3 ∧ check.2.workspace = s.workspace :=
        outcome_check_of_none h hlinters format hd
      have hfails : check.1 ≠ .exit 0 := fun hzero => by
        rw [hexit] at hzero
        cases hzero
      refine ⟨iff_of_false hfails (by simp), fun hzero => absurd hzero hfails,
        fun _ => ⟨hexit, hworkspace⟩, _, outcome_watch h hlinters format interval, ?_⟩
      intro revision t published
      have hpublished : published = t.workspace := Watch.workspace_publish_of_none (by
        rw [Watch.Publication.written?, hd, Option.map_none])
      rw [hpublished, if_neg hfails]
      exact ⟨fun _ => rfl, fun _ => rfl⟩
  | some d =>
      obtain ⟨hexit, hworkspace⟩ : check.1 = .exit 0 ∧ check.2.workspace = _ :=
        outcome_check_of_publishable h hlinters format hd
      obtain ⟨-, hdocument⟩ := Check.publishable_eq_some.mp hd
      have hcompile : compile = _ := outcome_compile_of_ok h format hdocument
      have hread : check.2.workspace.read output =
          .ok (d.text (format.getD settings.format)) := by
        rw [hworkspace, read_stored h.output]
      refine ⟨iff_of_true hexit ⟨d, rfl⟩, fun _ => ⟨?_, d, hdocument, hread⟩,
        fun hfails => absurd hexit hfails, _, outcome_watch h hlinters format interval, ?_⟩
      · rw [hworkspace, hcompile]
      · intro revision t published
        rw [if_pos hexit, hread]
        refine ⟨fun hwritable => ?_, fun hnot => ?_⟩
        · have houtput : (⟨linters, format.getD settings.format, some output,
              max 1 (interval.getD settings.intervalMilliseconds)⟩ : Watch.Settings).output =
              some output := rfl
          obtain ⟨-, hpublished⟩ := Watch.read_publish houtput hwritable
            ⟨revision, text, Check.run linters text⟩
          refine hpublished.trans ?_
          rw [Watch.Publication.written?, hd]
          rfl
        · exact Watch.workspace_publish_of_not_writable rfl
            (hnot.resolve_left fun hfails => hfails hexit)

/-- A session with a text in a file and nothing else. -/
def sessionWith (text : String) : Session :=
  ⟨⟨.directory [("input.json", .file text.toUTF8)]⟩, "", "", ""⟩

theorem read_sessionWith (text : String) :
    (sessionWith text).workspace.read "input.json" = .ok text := by
  have hfind : ∀ content, Workspace.find ⟨.directory [("input.json", .file content)]⟩ "input.json" =
      .ok (.file content) := fun _ => rfl
  rw [Workspace.read, sessionWith, hfind]
  dsimp only
  rw [Workspace.fromUTF8?_toUTF8]

theorem ready_sessionWith (text : String) {output : String}
    (h : Creatable (sessionWith text).workspace output) :
    Ready none "input.json" output [] {} text (sessionWith text) where
  config := rfl
  input := by
    rw [Run.input, if_neg (by decide), Run.on_ask]
    change ((sessionWith text).workspace.read "input.json").mapError _ = _
    rw [read_sessionWith]
    rfl
  linters := by simp
  output := h

def describedSession : Session := sessionWith Watch.describedText

theorem creatable_missing : Creatable describedSession.workspace "no/such/o.json" :=
  ⟨_, rfl, Watch.writable_iff.mpr (by decide)⟩

theorem ready_missing : Ready none "input.json" "no/such/o.json" [] {} Watch.describedText
    describedSession :=
  ready_sessionWith Watch.describedText creatable_missing

/-- A check whose output file is in a directory that is not there. -/
def missingCheck : Invocation := ⟨none, .check ⟨"input.json", some "no/such/o.json", none, []⟩⟩

theorem missingCheck_passes : (missingCheck.outcome describedSession).1 = .exit 0 := by
  decide +kernel

theorem commands_agree_missing_directory :
    (Invocation.outcome ⟨none, .lint ⟨"input.json", [], .text⟩⟩ describedSession).1 = .exit 0 ∧
    ∃ d, Description.compileText Watch.describedText = .ok d ∧
      (missingCheck.outcome describedSession).2.workspace.read "no/such/o.json" =
        .ok (d.text .json) := by
  obtain ⟨hpasses, hwritten, -⟩ := commands_agree ready_missing none .text none
  obtain ⟨-, d, hd, hread⟩ := hwritten missingCheck_passes
  obtain ⟨hlint, -⟩ := hpasses.mp missingCheck_passes
  refine ⟨hlint, d, hd, ?_⟩
  rw [missingCheck]
  exact hread

/-- A watch whose output file is in a directory that is not there. -/
def missingWatch : Watch.Settings := ⟨Lint.Builtin.all, .json, some "no/such/o.json", 500⟩

/-- A watch does not write all that a check writes: it makes no directories. -/
theorem watch_makes_no_directories :
    Ready none "input.json" "no/such/o.json" [] {} Watch.describedText describedSession ∧
    (missingCheck.outcome describedSession).1 = .exit 0 ∧
    (Invocation.outcome ⟨none, .watch ⟨"input.json", some "no/such/o.json", none, [], none⟩⟩
      describedSession).1 = .watch "input.json" missingWatch ∧
    ∀ revision, ((Watch.publish missingWatch
      ⟨revision, Watch.describedText, Check.run missingWatch.linters Watch.describedText⟩ :
        StateM Session Unit) describedSession).2.workspace = describedSession.workspace := by
  have hwatch : (Invocation.outcome ⟨none, .watch ⟨"input.json", some "no/such/o.json", none, [],
      none⟩⟩ describedSession).1 = .watch "input.json" missingWatch := by
    decide +kernel
  refine ⟨ready_missing, missingCheck_passes, hwatch, fun revision => ?_⟩
  apply Watch.workspace_publish_of_not_writable rfl
  rw [Watch.writable_iff]
  decide

end Agreement

end Command

end ResourceApi
