import ResourceApi.Text.Quoted
import ResourceApi.Text.Split

/-!
Paths as they are written: names between slashes.
-/

namespace ResourceApi.Workspace.Path

def endsInSlash (path : String) : Bool := path.toList.getLast? = some '/'

/-- The names of a path. A slash at the end stands for the directory itself. -/
def names (path : String) : List String :=
  let parts := ((Text.split '/' path.toList).filter fun part => !part.isEmpty).map String.ofList
  if endsInSlash path then parts ++ ["."] else parts

/-- Whether a path starts at the root of all files. -/
def isAbsolute (path : String) : Bool := path.toList.head? = some '/'

/-- The names that count when paths are compared: a dot only does in front. -/
def components (path : String) : List String :=
  match names path with
  | [] => []
  | first :: rest => first :: rest.filter fun name => name ≠ "."

/-- The directory that holds what the path leads to. -/
def directory (path : String) : List String := (components path).dropLast

/-- The path of a file in a directory. -/
def join (path file : String) : String :=
  if path.isEmpty ∨ endsInSlash path then path ++ file else path ++ "/" ++ file

/-- One character of a quoted path; single quotes are escaped, too. -/
def quoteChar (c : Char) : List Char :=
  if c = '\'' then ['\\', '\''] else Text.quoteChar c

/-- A path between quotes with its escapes. -/
def quoted (path : String) : String :=
  String.ofList ('"' :: path.toList.flatMap quoteChar ++ ['"'])

end ResourceApi.Workspace.Path
