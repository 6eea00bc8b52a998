import ResourceApi.Description
import ResourceApi.Lint.RuleText
import ResourceApi.Workspace.Basic

/-!
Descriptions and rule sets that are kept in files.
-/

namespace ResourceApi

/-- Why a description is not read from a file. -/
inductive Description.FileError where
  | notFound (path : String)
  | unreadable (e : Workspace.FileError)
  | invalid (e : Description.Error)
  deriving Repr, Inhabited

def Description.FileError.message : Description.FileError → String
  | .notFound path => "Resource description not found at path: " ++ path
  | .unreadable e => "IO error: " ++ e.message
  | .invalid e => e.message

/-- Why a rule set is not read from a file. -/
inductive Lint.RuleSet.FileError where
  | unreadable (e : Workspace.FileError)
  | invalid
  deriving DecidableEq, Repr, Inhabited

namespace Workspace

/-- The description in a file. -/
def description (w : Workspace) (path : String) : Except Description.FileError Description :=
  if w.exists? path then
    match w.read path with
    | .error e => .error (.unreadable e)
    | .ok text => (Description.parse text).mapError .invalid
  else .error (.notFound path)

/-- The rule set in a file. -/
def ruleSet (w : Workspace) (path : String) : Except Lint.RuleSet.FileError Lint.RuleSet :=
  match w.read path with
  | .error e => .error (.unreadable e)
  | .ok text =>
    match Lint.RuleSet.ofText? text with
    | some set => .ok set
    | none => .error .invalid

end Workspace

end ResourceApi
