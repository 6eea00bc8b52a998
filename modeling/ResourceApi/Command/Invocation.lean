import ResourceApi.Command.Arguments
import ResourceApi.OpenApi.Format
import ResourceApi.Template.Slug

/-!
The commands with their options, read from a command line.
-/

namespace ResourceApi.Command

/-- How a report is printed. -/
inductive ReportFormat where
  | text
  | json
  deriving DecidableEq, Repr, Inhabited

namespace ReportFormat

def all : List ReportFormat := [.text, .json]

def name : ReportFormat → String
  | .text => "text"
  | .json => "json"

def ofName? (s : String) : Option ReportFormat := all.find? fun f => f.name = s

end ReportFormat

/-- Where a document comes from and where and how its result is written. -/
structure Compile where
  input : String
  output : Option String
  format : Option OpenApi.Format
  deriving DecidableEq, Repr, Inhabited

structure LintCommand where
  input : String
  linters : List String
  report : ReportFormat
  deriving DecidableEq, Repr, Inhabited

structure CheckCommand where
  input : String
  output : Option String
  format : Option OpenApi.Format
  linters : List String
  deriving DecidableEq, Repr, Inhabited

structure Render where
  input : String
  template : Template.Slug
  templatesDirectory : Option String
  output : Option String
  deriving DecidableEq, Repr, Inhabited

structure Watch where
  input : String
  output : Option String
  format : Option OpenApi.Format
  linters : List String
  intervalMilliseconds : Option Nat
  deriving DecidableEq, Repr, Inhabited

/-- What is to be done. -/
inductive Task where
  | compile (c : Compile)
  | lint (c : LintCommand)
  | check (c : CheckCommand)
  | render (c : Render)
  | templates (urls : Bool)
  | sample (output : Option String)
  | watch (c : Watch)
  deriving DecidableEq, Repr, Inhabited

/-- A task and the configuration file that is named for it. -/
structure Invocation where
  config : Option String
  task : Task
  deriving DecidableEq, Repr, Inhabited

/-! ### Values -/

def anyText (_ : String) : Option ValueFault := none

def path (s : String) : Option ValueFault := if s.isEmpty then some .absent else none

/-- One of several names. -/
def oneOf (names : List String) (s : String) : Option ValueFault :=
  if names.contains s then none else if s.isEmpty then some .absent else some .unknown

/-- The value of decimal digits, as far as it has 64 bits, or what is wrong with them. -/
def naturalDigits : Nat → List Char → Except String Nat
  | n, [] => .ok n
  | n, c :: rest =>
    if c.isDigit then
      let n := 10 * n + (c.toNat - '0'.toNat)
      if n < Nat.pow 2 64 then naturalDigits n rest
      else .error "number too large to fit in target type"
    else .error "invalid digit found in string"

/-- A number in decimal digits, perhaps with a plus sign in front. -/
def readNatural (s : String) : Except String Nat :=
  match s.toList with
  | [] => .error "cannot parse integer from empty string"
  | ['+'] => .error "invalid digit found in string"
  | '+' :: rest => naturalDigits 0 rest
  | digits => naturalDigits 0 digits

def natural (s : String) : Option ValueFault :=
  match readNatural s with
  | .ok _ => none
  | .error reason => some (.because reason)

def slug (s : String) : Option ValueFault :=
  match Template.Slug.ofName s with
  | .ok _ => none
  | .error e => some (.because e.message)

/-! ### Parameters -/

def switch (name : String) (short : Option Char) : Parameter := ⟨name, short, none, false, anyText⟩

def valued (name : String) (short : Option Char) (placeholder : String)
    (check : String → Option ValueFault) : Parameter :=
  ⟨name, short, some placeholder, false, check⟩

def inputParameter : Parameter := valued "" none "INPUT" path

def outputOption : Parameter := valued "output" (some 'o') "OUTPUT" path

def formatOption : Parameter :=
  valued "format" (some 'f') "FORMAT" (oneOf (OpenApi.Format.all.map OpenApi.Format.name))

def lintersOption : Parameter :=
  { valued "linter" (some 'l') "NAME" anyText with repeatable := true }

def configOption : Parameter := valued "config" none "CONFIG" path

/-- Options that may stand in front of a subcommand and behind it. -/
def commonOptions : List Parameter := [
  switch "verbose" (some 'v'), switch "quiet" (some 'q'), configOption,
  switch "help" (some 'h'), switch "version" (some 'V')]

/-- What may stand behind each subcommand. -/
def subcommands : List (String × Usage) :=
  let usage (options : List Parameter) (argument : Option Parameter) : Usage :=
    ⟨options ++ commonOptions, argument, []⟩
  [("compile", usage [outputOption, formatOption] (some inputParameter)),
    ("lint", usage [lintersOption, valued "report" none "REPORT"
      (oneOf (ReportFormat.all.map ReportFormat.name))] (some inputParameter)),
    ("check", usage [outputOption, formatOption, lintersOption] (some inputParameter)),
    ("render", usage [valued "template" (some 't') "TEMPLATE" slug,
      valued "templates-dir" none "TEMPLATES_DIR" path, outputOption] (some inputParameter)),
    ("templates", usage [switch "urls" none] none),
    ("example", usage [outputOption] none),
    ("watch", usage [outputOption, formatOption, lintersOption,
      valued "interval-ms" none "INTERVAL_MS" natural] (some inputParameter))]

def mainUsage : Usage := ⟨commonOptions, none, subcommands.map Prod.fst ++ ["help"]⟩

/-! ### Reading -/

/-- The value of an option. -/
def Reading.value? (r : Reading) (name : String) : Option String := Entries.find? name r.values

/-- All values of an option that may be repeated. -/
def Reading.allOf (r : Reading) (name : String) : List String :=
  (r.values.filter fun entry => entry.1 = name).map Prod.snd

/-- Looks at the last value, and at the configuration file that the environment names, if the
command line names none. -/
def Reading.close (r : Reading) (environment : Option String) : Except Halt Reading := do
  let r ← r.settle
  if environment = some "" ∧ !r.has configOption.long then
    .error (.error (.missingValue configOption.display))
  else return r

/-- What is wrong with the values as a whole: some options exclude each other, and the argument
must be there. -/
def Reading.finish (r : Reading) (u : Usage) (environment : Option String) :
    Except Halt Reading := do
  let r ← r.close environment
  let verbosity := r.values.filter fun entry => entry.1 = "verbose" ∨ entry.1 = "quiet"
  match verbosity with
  | (first, _) :: (second, _) :: _ =>
    .error (.error (.conflict ("--" ++ first) ("--" ++ second)))
  | _ => pure ()
  if u.argument.isSome && !r.hasArgument then .error (.error .missingArguments)
  return r

/-- The task of a subcommand with its options. -/
def Reading.task (r : Reading) (command : String) : Task :=
  let input := (r.value? "").getD ""
  let output := r.value? "output"
  let format := (r.value? "format").bind OpenApi.Format.ofName?
  let linters := r.allOf "linter"
  match command with
  | "compile" => .compile ⟨input, output, format⟩
  | "lint" => .lint ⟨input, linters,
      ((r.value? "report").bind ReportFormat.ofName?).getD .text⟩
  | "check" => .check ⟨input, output, format, linters⟩
  | "render" => .render ⟨input,
      ((r.value? "template").bind Template.Slug.ofName?).getD .standard,
      r.value? "templates-dir", output⟩
  | "templates" => .templates (r.has "urls")
  | "example" => .sample output
  | _ => .watch ⟨input, output, format, linters,
      (r.value? "interval-ms").bind fun s => (readNatural s).toOption⟩

/-- The version of the commands. -/
def versionText : String := "0.1.0"

/-- Why no task is carried out: help or the version is asked for, there is nothing to do, or
something is wrong. -/
inductive Outcome where
  | help
  | nothing
  | version (name : String)
  | error (e : UsageError)
  deriving DecidableEq, Repr, Inhabited

def Halt.outcome (name : String) : Halt → Outcome
  | .help => .help
  | .version => .version name
  | .error e => .error e

/-- Reads the words behind the name of the program. -/
def Invocation.ofWords (environment : Option String) (words : List String) :
    Except Outcome Invocation := do
  let top (e : Halt) : Outcome := e.outcome "oasgen"
  let (r, rest) ← (mainUsage.read .start words).mapError top
  match rest with
  | none =>
    let r ← (r.close environment).mapError top
    if r.values.isEmpty && environment.isNone then .error .nothing
    else .error (.error .missingCommand)
  | some (command, words) =>
    match Entries.find? command subcommands with
    | none => .error .help
    | some usage =>
      let inner (e : Halt) : Outcome := e.outcome ("oasgen-" ++ command)
      let (s, _) ← (usage.read .start words).mapError inner
      let s ← (s.finish usage environment).mapError inner
      let r ← (r.finish mainUsage environment).mapError top
      let config := (s.value? "config").orElse fun _ =>
        (r.value? "config").orElse fun _ => environment
      return ⟨config, s.task command⟩

end ResourceApi.Command
