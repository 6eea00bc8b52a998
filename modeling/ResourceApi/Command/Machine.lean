import ResourceApi.Workspace.Basic

/-!
What commands need of the machine they run on, and a machine that is a value: a workspace, a text to
read and the texts that have been printed.
-/

namespace ResourceApi.Command

/-- Files, an input and two outputs. -/
class Machine (m : Type → Type) where
  read : String → m (Except Workspace.FileError String)
  write : String → String → m (Except Workspace.FileError Unit)
  makeDirectoryOf : String → m (Except Workspace.FileError Unit)
  isFile : String → m Bool
  isThere : String → m Bool
  files : String → m (List String)
  readInput : m (Except Workspace.FileError String)
  print : String → m Unit
  printError : String → m Unit

/-- A machine as a value. -/
structure Session where
  workspace : Workspace
  input : String
  printed : String
  errors : String
  deriving Inhabited

namespace Session

/-- Takes over a change of the workspace, if it succeeds. -/
def change (result : Workspace → Except Workspace.FileError Workspace) :
    StateM Session (Except Workspace.FileError Unit) := fun s =>
  match result s.workspace with
  | .ok w => (.ok (), { s with workspace := w })
  | .error e => (.error e, s)

instance : Machine (StateM Session) where
  read path s := (s.workspace.read path, s)
  write path text := change fun w => w.write path text
  makeDirectoryOf path := change fun w => w.makeDirectoryOf path
  isFile path s := (s.workspace.isFile path, s)
  isThere path s := (s.workspace.exists? path, s)
  files path s := (s.workspace.files path, s)
  readInput s := (.ok s.input, s)
  print text s := ((), { s with printed := s.printed ++ text })
  printError text s := ((), { s with errors := s.errors ++ text })

end Session

end ResourceApi.Command
