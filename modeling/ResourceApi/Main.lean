import ResourceApi.Command.Program

/-!
The program on the files of the computer it is started on. A watch goes on until it is interrupted.
-/

namespace ResourceApi.Command.Computer

/-- Why a file cannot be used, by the number that the system gives for it, which may be negated. -/
def systemError (code : UInt32) (reason : String) : Workspace.FileError :=
  match code.toInt32.toInt.natAbs with
  | 2 => .notFound
  | 17 => .alreadyExists
  | 20 => .notDirectory
  | 21 => .isDirectory
  | n => .refused (reason ++ " (os error " ++ toString n ++ ")")

def fileError : IO.Error → Workspace.FileError
  | .noFileOrDirectory _ code reason => systemError code reason
  | .alreadyExists _ code reason => systemError code reason
  | .inappropriateType _ code reason => systemError code reason
  | .permissionDenied _ code reason => systemError code reason
  | .resourceExhausted _ code reason => systemError code reason
  | .invalidArgument _ code reason => systemError code reason
  | .noSuchThing _ code reason => systemError code reason
  | .resourceBusy code reason => systemError code reason
  | .otherError code reason => systemError code reason
  | e => .refused (toString e)

def attempt {α : Type} (action : IO α) : IO (Except Workspace.FileError α) :=
  try return .ok (← action)
  catch e => return .error (fileError e)

/-- What a file or the input holds, as a text. -/
def text (action : IO ByteArray) : IO (Except Workspace.FileError String) := do
  match ← attempt action with
  | .error e => return .error e
  | .ok content =>
    match String.fromUTF8? content with
    | some s => return .ok s
    | none => return .error .notText

/-- The names of the files in a directory, or none if it is not one. -/
def fileNames (path : String) : IO (List String) := do
  match ← attempt (System.mkFilePath [path]).readDir with
  | .error _ => return []
  | .ok entries =>
    let files ← entries.toList.filterM fun entry =>
      return (← entry.path.symlinkMetadata).type == .file
    return files.map fun entry => entry.fileName

/-- Makes a directory and those it lies in, as far as they are missing. -/
partial def makeDirectory (path : String) : IO Unit := do
  let directory := System.mkFilePath [path]
  try IO.FS.createDir directory
  catch e =>
    match fileError e, directory.parent with
    | .notFound, some above =>
      makeDirectory above.toString
      IO.FS.createDir directory
    | _, _ => unless ← directory.isDir do throw e

instance : Machine IO where
  read path := text (IO.FS.readBinFile (System.mkFilePath [path]))
  write path s := attempt (IO.FS.writeFile (System.mkFilePath [path]) s)
  makeDirectoryOf path := attempt do
    match (System.mkFilePath [path]).parent with
    | some directory => makeDirectory directory.toString
    | none => return ()
  isFile path := do
    match ← attempt (System.mkFilePath [path]).metadata with
    | .ok found => return found.type == .file
    | .error _ => return false
  isThere path := (System.mkFilePath [path]).pathExists
  files path := fileNames path
  readInput := do text (← IO.getStdin).readBinToEnd
  print s := IO.print s
  printError s := IO.eprint s

/-- Looks at the file again and again. -/
partial def watch (settings : Watch.Settings) (path : String) (s : Watch.State) : IO Unit := do
  let s ← Watch.lookAndFinish settings path s
  (← IO.getStdout).flush
  IO.sleep (UInt32.ofNat (min settings.intervalMilliseconds (Nat.pow 2 32 - 1)))
  watch settings path s

/-- Runs the program and gives the code with which it exits. -/
def run (words : List String) : IO UInt32 := do
  match ← program (← IO.getEnv "OASGEN_CONFIG") words with
  | .exit code => return UInt32.ofNat code
  | .watch path settings =>
    watch settings path .start
    return 0

end ResourceApi.Command.Computer

/-- Runs the program with the words behind its name. -/
def main (words : List String) : IO UInt32 := ResourceApi.Command.Computer.run words
