import ResourceApi.Lint.Builtin
import ResourceApi.OpenApi.Format
import ResourceApi.Toml.Document

/-!
The configuration of the commands. Every setting has a default, and a setting that is not known is
refused.
-/

namespace ResourceApi.Command

/-- The settings: the linters that are run if none are asked for, the directory of the templates,
the format of documents, and how long a watch waits between two looks at its file. -/
structure Config where
  linters : List Lint.Builtin := Lint.Builtin.all
  templatesDirectory : String := "templates"
  format : OpenApi.Format := .json
  intervalMilliseconds : Nat := 500
  deriving DecidableEq, Repr, Inhabited

namespace Config

/-- A text is no configuration, and this is where that shows. -/
structure Error where
  position : Toml.Position
  deriving DecidableEq, Repr, Inhabited

def Error.message (e : Error) : String :=
  "TOML parse error at line " ++ toString e.position.line ++ ", column "
    ++ toString e.position.column

/-- The name of a file that is looked for if no other is named. -/
def fileName : String := "oasgen.toml"

def linterNames (c : Config) : List String := c.linters.map Lint.Builtin.name

/-! ### Reading -/

/-- Whether a value is a table or an array with nothing in it. -/
def isHollow : Toml.Value → Bool
  | .table _ _ entries => entries.isEmpty
  | .tables _ each => each.isEmpty
  | .array _ items => items.isEmpty
  | .scalar _ _ => false

/-- A choice by the only key of a table, whose value is empty. -/
def keyChoice {α : Type} (ofName? : String → Option α) (place : Nat) :
    Toml.Entries → Except Toml.Failure α
  | (key, v) :: _ =>
    match ofName? key.name with
    | none => .error ⟨key.place⟩
    | some a => if isHollow v then .ok a else .error ⟨v.place⟩
  | [] => .error ⟨place⟩

/-- A choice by its name. -/
def choice {α : Type} (ofName? : String → Option α) : Toml.Value → Except Toml.Failure α
  | .scalar place (.string s) =>
    match ofName? s with
    | some a => .ok a
    | none => .error ⟨place⟩
  | .table place .inline [entry] => keyChoice ofName? place [entry]
  | .table place .inline _ => .error ⟨place⟩
  | .table place _ entries => keyChoice ofName? place entries
  | v => .error ⟨v.place⟩

/-- Several choices. -/
def choices {α : Type} (ofName? : String → Option α) :
    Toml.Value → Except Toml.Failure (List α)
  | .array _ items => items.mapM (choice ofName?)
  | .tables place each => each.mapM (keyChoice ofName? place)
  | v => .error ⟨v.place⟩

def string : Toml.Value → Except Toml.Failure String
  | .scalar _ (.string s) => .ok s
  | v => .error ⟨v.place⟩

def natural : Toml.Value → Except Toml.Failure Nat
  | .scalar _ (.integer (.ofNat n)) => .ok n
  | v => .error ⟨v.place⟩

/-- Takes over one setting. -/
def set (c : Config) (entry : Toml.Key × Toml.Value) : Except Toml.Failure Config :=
  match entry.1.name with
  | "linters" =>
    (choices Lint.Builtin.ofName? entry.2).map fun linters => { c with linters := linters }
  | "templates_dir" => (string entry.2).map fun s => { c with templatesDirectory := s }
  | "output_format" =>
    (choice OpenApi.Format.ofName? entry.2).map fun f => { c with format := f }
  | "watch_interval_ms" =>
    (natural entry.2).map fun n => { c with intervalMilliseconds := n }
  | _ => .error ⟨entry.1.place⟩

/-- Reads a configuration. -/
def parse (text : String) : Except Error Config :=
  match (Toml.parse text).bind fun entries => entries.foldlM set {} with
  | .ok c => .ok c
  | .error f => .error ⟨Toml.position text f.place⟩

end Config

end ResourceApi.Command
