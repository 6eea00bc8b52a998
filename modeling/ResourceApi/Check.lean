import ResourceApi.Lint.Builtin
import ResourceApi.OpenApi.Compile

/-!
Checks of a resource description: it is linted and compiled, and neither looks at what the other
finds.
-/

namespace ResourceApi

/-- What a check of a text finds: the report of the linters, and the document if there is one. -/
structure Check where
  report : Lint.Report
  document : Except Description.Error OpenApi.Document

namespace Check

/-- Checks a text with some of the linters. -/
def run (linters : List Lint.Builtin) (text : String) : Check where
  report := Lint.Report.run (linters.map Lint.Builtin.linter) text
  document := Description.compileText text

/-- The document, if no linter reports an error. -/
def publishable (c : Check) : Option OpenApi.Document :=
  if c.report.hasErrors then none else c.document.toOption

end Check

end ResourceApi
