import ResourceApi.Check
import ResourceApi.Command.Failure
import ResourceApi.Command.Machine
import ResourceApi.DocumentKind

/-!
What the commands do. Each reads its configuration and its input, computes a result and writes it;
the first thing that goes wrong ends it.
-/

namespace ResourceApi.Command

variable {m : Type → Type} [Monad m] [Machine m]

/-- A command that may fail. -/
abbrev Run (m : Type → Type) (α : Type) := ExceptT Failure m α

namespace Run

/-- Asks the machine for something and says what a refusal means. -/
def ask {α ε : Type} (request : m (Except ε α)) (failure : ε → Failure) : Run m α := do
  match ← (request : m (Except ε α)) with
  | .ok a => return a
  | .error e => throw (failure e)

/-- Carries on, or fails for a reason. -/
def orFail {α ε : Type} (result : Except ε α) (failure : ε → Failure) : Run m α :=
  match result with
  | .ok a => return a
  | .error e => throw (failure e)

/-- The configuration in a file. -/
def configIn (path : String) : Run m Config := do
  let text ← ask (Machine.read path) (.config path)
  orFail (Config.parse text) (.invalidConfig path)

/-- The configuration in the file that is named, or else in the usual one if that is there. -/
def config (named : Option String) : Run m Config := do
  match named with
  | some path => configIn path
  | none =>
    if ← (Machine.isFile Config.fileName : m Bool) then configIn Config.fileName else return {}

/-- A path that stands for the input of the machine. -/
def isStandardInput (path : String) : Bool :=
  !Workspace.Path.isAbsolute path && Workspace.Path.components path = ["-"]

/-- The text of the input. -/
def input (path : String) : Run m String :=
  if isStandardInput path then ask Machine.readInput .standardInput
  else ask (Machine.read path) (.input path)

/-- Writes a result to a file, whose directory is made, or prints it with a line feed at its end. -/
def output (path : Option String) (text : String) : Run m Unit := do
  match path with
  | some path =>
    ask (Machine.makeDirectoryOf path) .directory
    ask (Machine.write path text) (.output path)
  | none =>
    (Machine.print text : m Unit)
    if text.toList.getLast? ≠ some '\n' then (Machine.print "\n" : m Unit)

/-- The linters with these names. -/
def named (names : List String) : Except Failure (List Lint.Builtin) :=
  (Lint.Builtin.ofNames names).mapError fun e => .unknownLinter e.name

end Run

/-- A text with the linters that are asked for on the command line, if any are. -/
def inputOf (text : String) (asked : List String) : Except Failure Input :=
  (Run.named asked).map fun _ =>
    if asked.isEmpty then .ofText text else { Input.ofText text with linters := some asked }

namespace Run

/-- The linters to run: those that are asked for, or else those of the configuration. -/
def chosen (asked : List String) (c : Config) : Except Failure (List Lint.Builtin) :=
  match asked with
  | [] => .ok c.linters
  | asked => named asked

/-! ### Commands -/

/-- Compiles a description. -/
def compile (config? : Option String) (c : Compile) : Run m Unit := do
  let settings ← config config?
  let text ← input c.input
  let d ← orFail (Description.parse text) (.description c.input)
  output c.output (d.compile.text (c.format.getD settings.format))

/-- A report as it is printed. -/
def reportText (format : ReportFormat) (report : Lint.Report) (text : String) : String :=
  match format with
  | .json => report.groupedJson.pretty ++ "\n"
  | .text => if report.isClean then "No problems found\n" else report.render text

/-- Lints a description and prints the report. -/
def lint (config? : Option String) (c : LintCommand) : Run m Unit := do
  let settings ← config config?
  let text ← input c.input
  let linters ← orFail (chosen c.linters settings) id
  let report := Lint.Report.run (linters.map Lint.Builtin.linter) text
  (Machine.print (reportText c.report report text) : m Unit)
  orFail report.ensureClean .findings

/-- Checks a description and writes its document, if nothing is wrong. -/
def check (config? : Option String) (c : CheckCommand) : Run m Unit := do
  let settings ← config config?
  let text ← input c.input
  let linters ← orFail (chosen c.linters settings) id
  let found := Check.run linters text
  if !found.report.isClean then (Machine.printError (found.report.render text) : m Unit)
  orFail found.report.ensureClean .findings
  let d ← orFail found.document .notCompiled
  output c.output (d.text (c.format.getD settings.format))

/-- Fills a template from a document. -/
def render (config? : Option String) (c : Render) : Run m Unit := do
  let settings ← config config?
  let root := c.templatesDirectory.getD settings.templatesDirectory
  let path := Template.pathIn root c.template
  let isFile ← (Machine.isFile path : m Bool)
  let content ← if isFile then (Machine.read path : m (Except Workspace.FileError String))
    else pure (.error .notFound)
  let template ← orFail (Template.fetched root c.template isFile content) (.template c.template)
  let text ← input c.input
  output c.output (Template.render text template)

/-- Fills up with blanks on the right. -/
def padded (width : Nat) (s : String) : String :=
  s ++ String.ofList (List.replicate (width - s.length) ' ')

/-- The line of one template: a star if it is there, and its name or its address. -/
def templateLine (urls : Bool) (local_ : List Template.Slug) (slug : Template.Slug) : String :=
  (if local_.contains slug then "* " else "  ")
    ++ (if urls then padded 20 slug.fileName ++ " " ++ slug.url
      else slug.fileName ++ if slug = .standard then " (default)" else "")
    ++ "\n"

/-- Lists the templates. -/
def templates (config? : Option String) (urls : Bool) : Run m Unit := do
  let settings ← config config?
  let root := settings.templatesDirectory
  let isThere ← (Machine.isThere root : m Bool)
  let names ← (Machine.files root : m (List String))
  let found := (Template.listed root isThere names).toOption.getD []
  (Machine.print (String.join (Template.Slug.all.map (templateLine urls found))
    ++ "\n* available in " ++ Workspace.Path.quoted root ++ "\n") : m Unit)

/-- Writes the example. -/
def sample (path : Option String) : Run m Unit :=
  output path (formatDocument DocumentKind.resources.sample)

end Run

end ResourceApi.Command
