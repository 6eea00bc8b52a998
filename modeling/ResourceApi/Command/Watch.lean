import ResourceApi.Command.Run
import ResourceApi.Latest

/-!
Watching a file. Each look at the file may start a check, checks may end in any order, and a result
is published only if no newer one has been. What happens is a sequence of events; what comes of it
is a sequence of publications.
-/

namespace ResourceApi.Command.Watch

/-- How texts are checked and where their documents go. -/
structure Settings where
  linters : List Lint.Builtin
  format : OpenApi.Format
  output : Option String
  intervalMilliseconds : Nat
  deriving DecidableEq, Repr, Inhabited

/-- The result of a check with the number of its run. -/
structure Publication where
  revision : Nat
  text : String
  found : Check

/-- The text that was read last, the checks that are running, by the numbers of their runs, and the
newest result. -/
structure State where
  last : Option String
  running : List (Nat × String)
  slot : Latest Publication

namespace State

def start : State := ⟨none, [], .empty⟩

/-- A look at the file. A text that differs from the last one starts a check; a file that cannot be
read changes nothing. -/
def look (s : State) (found : Option String) : State :=
  match found with
  | none => s
  | some text =>
    if s.last = some text then s
    else
      let (revision, slot) := s.slot.next
      ⟨some text, s.running ++ [(revision, text)], slot⟩

/-- The end of a check, which is published if it is not stale. -/
def finish (linters : List Lint.Builtin) (s : State) (revision : Nat) :
    Option Publication × State :=
  match s.running.find? fun run => run.1 = revision with
  | none => (none, s)
  | some (_, text) =>
    let p : Publication := ⟨revision, text, Check.run linters text⟩
    let (offer, slot) := s.slot.offer (fun p => (.ok p : Except Empty Publication)) revision p
    let published := match offer with
      | .published p => some p
      | _ => none
    (published, ⟨s.last, s.running.filter fun run => run.1 ≠ revision, slot⟩)

end State

/-! ### Events -/

/-- What may happen. -/
inductive Event where
  | look (found : Option String)
  | finish (revision : Nat)
  deriving DecidableEq, Repr, Inhabited

def State.step (linters : List Lint.Builtin) (s : State) : Event → Option Publication × State
  | .look found => (none, s.look found)
  | .finish revision => s.finish linters revision

/-- What is published in a sequence of events, and the state after them. -/
def State.run (linters : List Lint.Builtin) : State → List Event → List Publication × State
  | s, [] => ([], s)
  | s, event :: events =>
    let (p, s) := s.step linters event
    let (ps, s) := run linters s events
    (p.toList ++ ps, s)

/-! ### Publications -/

/-- What is printed of a publication. -/
def Publication.message (p : Publication) : String :=
  let report := p.found.report
  let number := "[" ++ toString p.revision ++ "] "
  if report.isClean then number ++ "No problems found\n"
  else number ++ toString report.diagnostics.length ++ " problem(s)\n" ++ report.render p.text

/-- What is written of a publication. -/
def Publication.written? (p : Publication) (format : OpenApi.Format) : Option String :=
  p.found.publishable.map fun d => d.text format

/-- The text of a file after some publications, given its text before. -/
def outputAfter (format : OpenApi.Format) (before : Option String) (ps : List Publication) :
    Option String :=
  ps.foldl (fun text p => (p.written? format).or text) before

/-! ### On a machine -/

variable {m : Type → Type} [Monad m] [Machine m]

/-- Prints a publication and writes its document. A document that cannot be written is passed over.
-/
def publish (settings : Settings) (p : Publication) : m Unit := do
  Machine.print p.message
  match p.written? settings.format, settings.output with
  | some text, some path =>
    let _ ← Machine.write path text
    return ()
  | _, _ => return ()

/-- An event, and what comes of it on the machine. -/
def stepOn (settings : Settings) (s : State) (event : Event) : m State := do
  let (p, s) := s.step settings.linters event
  match p with
  | some p => publish settings p
  | none => pure ()
  return s

/-- Events one after the other. -/
def runOn (settings : Settings) (s : State) (events : List Event) : m State :=
  events.foldlM (stepOn settings) s

/-- A look at the file, after which all checks come to their end, from the oldest to the newest. -/
def lookAndFinish (settings : Settings) (path : String) (s : State) : m State := do
  let found ← Machine.read path
  let s ← stepOn settings s (.look found.toOption)
  runOn settings s (s.running.map fun run => .finish run.1)

/-- The settings of a watch. The linters that are asked for are looked at first. -/
def settings (config? : Option String) (c : Watch) : Run m Settings := do
  let _ ← Run.orFail (Run.named c.linters) id
  let config ← Run.config config?
  let linters ← Run.orFail (Run.chosen c.linters config) id
  return ⟨linters, c.format.getD config.format, c.output,
    max 1 (c.intervalMilliseconds.getD config.intervalMilliseconds)⟩

end ResourceApi.Command.Watch
