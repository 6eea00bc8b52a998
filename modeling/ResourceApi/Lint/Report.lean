import ResourceApi.Lint.Diagnostic
import ResourceApi.Text.Lines

/-!
Reports: the diagnostics of one or more linters on one text. Written out, they are grouped by
linter in the order of the code points of the names, and each group keeps its order.
-/

namespace ResourceApi.Lint

/-- The diagnostics of a text in the order in which they were found. -/
structure Report where
  diagnostics : List Diagnostic
  deriving DecidableEq, Repr, Inhabited

/-- A text has errors. -/
structure ValidationFailure where
  errors : Nat
  deriving DecidableEq, Repr

def ValidationFailure.message (f : ValidationFailure) : String :=
  "validation failed with " ++ toString f.errors ++ " error(s)"

namespace Report

def isClean (r : Report) : Bool := r.diagnostics.isEmpty

def hasErrors (r : Report) : Bool := r.diagnostics.any Diagnostic.isError

/-- How many diagnostics have a severity. -/
def count (r : Report) (severity : Severity) : Nat :=
  (r.diagnostics.filter fun d => d.severity = severity).length

/-- The linters that found something, in order and each once. -/
def sources (r : Report) : List String :=
  ((r.diagnostics.map Diagnostic.source).eraseDups).mergeSort fun a b => decide (a ≤ b)

/-- The diagnostics of each linter. -/
def grouped (r : Report) : List (String × List Diagnostic) :=
  r.sources.map fun source => (source, r.diagnostics.filter fun d => d.source = source)

/-- How many diagnostics each linter has. -/
def counts (r : Report) : List (String × Nat) :=
  r.grouped.map fun group => (group.1, group.2.length)

/-- A report without errors passes, warnings or not. -/
def ensureClean (r : Report) : Except ValidationFailure Unit :=
  let errors := r.count .error
  if errors = 0 then .ok () else .error ⟨errors⟩

/-! ### Text -/

/-- Fills up with blanks on the right. -/
def padRight (width : Nat) (s : String) : String :=
  s ++ String.ofList (List.replicate (width - s.length) ' ')

/-- The line of one diagnostic; columns are counted from one here. -/
def entry (lines : Lines) (d : Diagnostic) : String :=
  let place := lines.lineColumn d.start
  "  " ++ toString place.line ++ ":" ++ toString (place.column + 1) ++ " "
    ++ padRight 7 d.severity.name ++ " " ++ d.display ++ "\n"

/-- The report of a text for people: a header for each linter and a line for each diagnostic. -/
def render (r : Report) (text : String) : String :=
  let lines := Lines.ofText text
  String.join (r.grouped.map fun group =>
    group.1 ++ " (" ++ toString group.2.length ++ ")\n" ++ String.join (group.2.map (entry lines)))

/-! ### JSON -/

def toJson (r : Report) : Json :=
  .object [("diagnostics", .array (r.diagnostics.map Diagnostic.toJson))]

/-- The groups as an object. -/
def groupedJson (r : Report) : Json :=
  .object (r.grouped.map fun group => (group.1, .array (group.2.map Diagnostic.toJson)))

open Json in
def record : Record Report where
  name := "struct LintReport"
  initial := ⟨[]⟩
  fields := [.mandatory "diagnostics" (Decoder.list Diagnostic.record.decoder) fun _ ds => ⟨ds⟩]

/-- Reads a report from its JSON text. -/
def parse (text : String) : Except Json.Error Report := record.parse text

end Report

end ResourceApi.Lint
