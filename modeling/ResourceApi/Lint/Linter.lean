import ResourceApi.Lint.Report

/-!
Linters turn a text into diagnostics. They never fail: a text they cannot read is a finding.
-/

namespace ResourceApi.Lint

structure Linter where
  name : String
  lint : String → List Diagnostic

/-- The diagnostics of several linters on one text, one linter after the other. -/
def Report.run (linters : List Linter) (text : String) : Report :=
  ⟨linters.flatMap fun linter => linter.lint text⟩

end ResourceApi.Lint
