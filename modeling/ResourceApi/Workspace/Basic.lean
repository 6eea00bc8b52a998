import ResourceApi.Workspace.Path
import ResourceApi.Workspace.Tree

/-!
A directory in which commands work. Paths are followed name by name: each name but the last must
lead to a directory. Nothing outside the workspace can be reached, and there is nothing above it but
itself.
-/

namespace ResourceApi

/-- The files and directories of a workspace. -/
structure Workspace where
  root : Workspace.Tree
  deriving Inhabited

namespace Workspace

/-- Why a file or directory cannot be used. -/
inductive FileError where
  | notFound
  | isDirectory
  | notDirectory
  | alreadyExists
  | notText
  | refused (reason : String)
  deriving DecidableEq, Repr, Inhabited

def FileError.message : FileError → String
  | .notFound => "No such file or directory (os error 2)"
  | .isDirectory => "Is a directory (os error 21)"
  | .notDirectory => "Not a directory (os error 20)"
  | .alreadyExists => "File exists (os error 17)"
  | .notText => "stream did not contain valid UTF-8"
  | .refused reason => reason

/-- Nothing but an empty directory. -/
def empty : Workspace := ⟨.directory []⟩

/-- Where names lead from a place, without dots. Each name is followed from a directory; the last
one need not be there. -/
def follow (w : Workspace) : List String → List String → Except FileError (List String)
  | place, [] => .ok place
  | place, name :: names =>
    match w.root.get? place with
    | none => .error .notFound
    | some (.file _) => .error .notDirectory
    | some (.directory _) =>
      if name = "." then follow w place names
      else if name = ".." then follow w place.dropLast names
      else follow w (place ++ [name]) names

/-- Where a path leads. -/
def locate (w : Workspace) (path : String) : Except FileError (List String) :=
  if path.isEmpty ∨ Path.isAbsolute path then .error .notFound else w.follow [] (Path.names path)

/-- What is at the end of a path. -/
def find (w : Workspace) (path : String) : Except FileError Tree :=
  match w.locate path with
  | .error e => .error e
  | .ok place =>
    match w.root.get? place with
    | some t => .ok t
    | none => .error .notFound

def exists? (w : Workspace) (path : String) : Bool := (w.find path).isOk

def isFile (w : Workspace) (path : String) : Bool :=
  match w.find path with
  | .ok t => t.isFile
  | .error _ => false

def isDirectory (w : Workspace) (path : String) : Bool :=
  match w.find path with
  | .ok t => t.isDirectory
  | .error _ => false

/-- The text of a file. -/
def read (w : Workspace) (path : String) : Except FileError String :=
  match w.find path with
  | .error e => .error e
  | .ok (.directory _) => .error .isDirectory
  | .ok (.file content) =>
    match String.fromUTF8? content with
    | some text => .ok text
    | none => .error .notText

/-- The names of the files in a directory. -/
def files (w : Workspace) (path : String) : List String :=
  match w.find path with
  | .error _ => []
  | .ok t => (t.entries.filter fun entry => entry.2.isFile).map Prod.fst

/-- Where a file can be written. A path with a slash at the end leads to no file. -/
def target (w : Workspace) (path : String) : Except FileError (List String) :=
  match w.locate path with
  | .ok place =>
    match w.root.get? place with
    | some (.directory _) => .error .isDirectory
    | _ => .ok place
  | .error .notFound =>
    if Path.endsInSlash path ∧ (w.follow [] (Path.names path).dropLast).isOk then
      .error .isDirectory
    else .error .notFound
  | .error e => .error e

/-- Writes a file in a directory that is there. -/
def writeBytes (w : Workspace) (path : String) (content : ByteArray) :
    Except FileError Workspace :=
  (w.target path).map fun place => ⟨w.root.put place (.file content)⟩

def write (w : Workspace) (path text : String) : Except FileError Workspace :=
  w.writeBytes path text.toUTF8

/-- Makes the directories that names lead through from a place, as far as they are missing. -/
def makeDirectories (w : Workspace) : List String → List String → Except FileError Workspace
  | _, [] => .ok w
  | place, name :: names =>
    if name = "." then makeDirectories w place names
    else if name = ".." then makeDirectories w place.dropLast names
    else
      match w.root.get? (place ++ [name]) with
      | some (.directory _) => makeDirectories w (place ++ [name]) names
      | some (.file _) => .error (if names.isEmpty then .alreadyExists else .notDirectory)
      | none =>
        makeDirectories ⟨w.root.put (place ++ [name]) (.directory [])⟩ (place ++ [name]) names

/-- Makes the directory that is to hold a file. -/
def makeDirectoryOf (w : Workspace) (path : String) : Except FileError Workspace :=
  w.makeDirectories [] (Path.directory path)

/-- Takes a file away. -/
def remove (w : Workspace) (path : String) : Workspace :=
  match w.locate path with
  | .ok place => ⟨w.root.remove place⟩
  | .error _ => w

end Workspace

end ResourceApi
