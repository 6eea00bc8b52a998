import ResourceApi.Command.Watch

/-!
The program: it reads its words, carries out the task and exits with a code. A watch is only set up
here, since it has no end of its own.
-/

namespace ResourceApi.Command

variable {m : Type → Type} [Monad m] [Machine m]

/-- What is left to do once a task is carried out. -/
inductive Next where
  | exit (code : Nat)
  | watch (path : String) (settings : Watch.Settings)
  deriving DecidableEq, Repr, Inhabited

/-- The text for those who ask for help. -/
def helpText : String :=
  "oasgen - generate OpenAPI documents from resource descriptions\n\n"
    ++ "Usage: oasgen [OPTIONS] <COMMAND>\n\nCommands: "
    ++ String.intercalate ", " (subcommands.map Prod.fst) ++ "\n"

/-- Says why nothing is done. -/
def Outcome.tell : Outcome → m Nat
  | .help => do
    Machine.print helpText
    return 0
  | .nothing => do
    Machine.printError helpText
    return 2
  | .version name => do
    Machine.print (name ++ " " ++ versionText ++ "\n")
    return 0
  | .error e => do
    Machine.printError ("error: " ++ e.message ++ "\n")
    return 2

/-- Carries out a task. -/
def Invocation.perform (i : Invocation) : Run m Next := do
  match i.task with
  | .compile c => Run.compile i.config c
  | .lint c => Run.lint i.config c
  | .check c => Run.check i.config c
  | .render c => Run.render i.config c
  | .templates urls => Run.templates i.config urls
  | .sample output => Run.sample output
  | .watch c => return .watch c.input (← Watch.settings i.config c)
  return .exit 0

/-- Runs the program with the words behind its name. The environment may name a configuration file.
-/
def program (environment : Option String) (words : List String) : m Next := do
  match Invocation.ofWords environment words with
  | .error outcome => return .exit (← outcome.tell)
  | .ok i =>
    match ← i.perform.run with
    | .ok next => return next
    | .error failure =>
      Machine.printError ("Error: " ++ failure.message ++ "\n")
      return .exit failure.exitCode

end ResourceApi.Command
