import ResourceApi.Command.Config
import ResourceApi.Command.Invocation
import ResourceApi.Template.Source

/-!
Why a command fails, what it says then, and the code with which it exits.
-/

namespace ResourceApi.Command

/-- Why a command fails. -/
inductive Failure where
  | config (path : String) (e : Workspace.FileError)
  | invalidConfig (path : String) (e : Config.Error)
  | input (path : String) (e : Workspace.FileError)
  | standardInput (e : Workspace.FileError)
  | unknownLinter (name : String)
  | description (path : String) (e : Description.Error)
  | findings (e : Lint.ValidationFailure)
  | notCompiled (e : Description.Error)
  | template (slug : Template.Slug) (e : Template.Error)
  | directory (e : Workspace.FileError)
  | output (path : String) (e : Workspace.FileError)
  deriving Repr, Inhabited

namespace Failure

/-- What is wrong with the linters that are asked for. -/
def unknownLinterMessage (name : String) : String :=
  "invalid arguments: unknown linter " ++ inQuotes name ++ " (expected one of: "
    ++ String.intercalate ", " (Lint.Builtin.all.map Lint.Builtin.name) ++ ")"

/-- The message of a template that cannot be had. What the machine says comes twice. -/
def templateMessage : Template.Error → String
  | .unreadable e => (Template.Error.unreadable e).message ++ ": " ++ e.message
  | e => e.message

open Workspace.Path in
def message : Failure → String
  | .config path e => "Failed to read config file " ++ quoted path ++ ": " ++ e.message
  | .invalidConfig path e => "Invalid config file " ++ quoted path ++ ": " ++ e.message
  | .input path e => "Failed to read input " ++ quoted path ++ ": " ++ e.message
  | .standardInput e => "Failed to read stdin: " ++ e.message
  | .unknownLinter name => unknownLinterMessage name
  | .description path e => "Invalid resource description " ++ quoted path ++ ": " ++ e.message
  | .findings e => e.message
  | .notCompiled e => "Linters passed but the document does not compile: " ++ e.message
  | .template slug e =>
    "Failed to load template " ++ slug.fileName ++ " (published at " ++ slug.url ++ "): "
      ++ templateMessage e
  | .directory e => e.message
  | .output path e => "Failed to write " ++ quoted path ++ ": " ++ e.message

/-- The exit code: one in general, two for arguments, three for documents and four for templates. -/
def exitCode : Failure → Nat
  | .unknownLinter _ => 2
  | .description _ _ => 3
  | .findings _ => 3
  | .notCompiled _ => 3
  | .template _ _ => 4
  | _ => 1

end Failure

end ResourceApi.Command
