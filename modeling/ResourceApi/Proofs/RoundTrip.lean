import ResourceApi.Lint.Report
import ResourceApi.Proofs.OpenApi.Documents

/-!
What is written is read back. Documents, descriptions and reports come back from their texts as they
were, whatever characters their strings and keys have and with all keys in the same order. So a text
that is read and written once does not change any more.
-/

namespace ResourceApi

open Json

/-! ### Reports -/

namespace Lint

theorem Severity.decodes : Decodes decoder (asChoice? (all.map name) ofName?) := decodes_choice _ _

namespace Diagnostic

def parts : List (TreeField Diagnostic) := [
  .mandatory "source" decodes_string fun d s => { d with source := s },
  .mandatory "from" decodes_natural fun d n => { d with start := n },
  .mandatory "to" decodes_natural fun d n => { d with stop := n },
  .mandatory "severity" Severity.decodes fun d s => { d with severity := s },
  .mandatory "message" decodes_string fun d s => { d with message := s },
  .defaulted "code" decodes_string.optional fun d c => { d with code := c }]

/-- The diagnostic that a tree stands for. -/
def ofTree? : Json → Option Diagnostic := asRecord? parts record.initial

theorem decodes : Decodes record.decoder ofTree? := Decodes.record rfl

/-- Places in a text are numbers of 64 bits. -/
structure Sized (d : Diagnostic) : Prop where
  start : d.start < Nat.pow 2 64
  stop : d.stop < Nat.pow 2 64

theorem encodes {depth : Nat} {d : Diagnostic} (h : d.Sized) :
    Encodes ofTree? (depth + 1) d.toJson d := by
  rw [toJson, ← List.append_nil (Option.toList _)]
  have hseverity : Encodes (asChoice? (Severity.all.map Severity.name) Severity.ofName?) depth
      (.string d.severity.name) d.severity := encodes_choice d.severity.ofName?_name
  refine .record (by decide) <| .string <| .mandatory decodes_natural (encodes_natural h.start) <|
    .mandatory decodes_natural (encodes_natural h.stop) <|
    .mandatory Severity.decodes hseverity <|
    .string <| .optional decodes_string rfl ?_ ?_ .nil
  · exact fun code _ => encodes_string code
  · simp

end Diagnostic

namespace Report

def parts : List (TreeField Report) :=
  [.mandatory "diagnostics" Diagnostic.decodes.list fun _ ds => ⟨ds⟩]

/-- The report that a tree stands for. -/
def ofTree? : Json → Option Report := asRecord? parts record.initial

theorem decodes : Decodes record.decoder ofTree? := Decodes.record rfl

theorem encodes {depth : Nat} {r : Report} (h : ∀ d ∈ r.diagnostics, d.Sized) :
    Encodes ofTree? (depth + 3) r.toJson r :=
  .record (List.nodup_singleton _) <|
    .mandatory Diagnostic.decodes.list (.list fun d hd => Diagnostic.encodes (h d hd)) .nil

end Report

end Lint

/-! ### Texts -/

theorem Description.parse_toJson (d : Description) :
    parse d.toJson.compact = .ok d ∧ parse d.toJson.pretty = .ok d := by
  obtain ⟨hcompact, hpretty⟩ := Encodes.parse decodes d.encodes
  rw [parse, parse, hcompact, hpretty]
  exact ⟨rfl, rfl⟩

/-- Reading inverts writing: every document, every description and every report is read back from
its text as it was, with the keys of its dictionaries in the same order. A document that is read
from any text and written does not change if it is read and written again. -/
theorem reading_inverts_writing :
    (∀ d : OpenApi.Document, OpenApi.Document.parse d.jsonText = .ok d) ∧
    (∀ text written : String,
      (OpenApi.Document.parse text).map OpenApi.Document.jsonText = .ok written →
      (OpenApi.Document.parse written).map OpenApi.Document.jsonText = .ok written) ∧
    (∀ d : Description, Description.parse d.toJson.compact = .ok d ∧
      Description.parse d.toJson.pretty = .ok d) ∧
    (∀ r : Lint.Report, (∀ d ∈ r.diagnostics, d.Sized) →
      Lint.Report.parse r.toJson.compact = .ok r ∧ Lint.Report.parse r.toJson.pretty = .ok r) := by
  have hdocument : ∀ d : OpenApi.Document, OpenApi.Document.parse d.jsonText = .ok d :=
    fun d => (Encodes.parse OpenApi.Document.decodes d.encodes).2
  refine ⟨hdocument, ?_, Description.parse_toJson, ?_⟩
  · intro text written h
    obtain ⟨d, -, rfl⟩ := map_eq_ok h
    rw [hdocument d]
    rfl
  · intro r hr
    exact Encodes.parse Lint.Report.decodes (Lint.Report.encodes hr)

/-- Written by hand with arrays for the records and with escapes. -/
def positionalText : String :=
  "[\"\\u0041\", [\"\\n\", \"\", \"\", [\"\", \"\", \"\"]], [], []," ++
  " \x7b\"/\\\"\": [[], [\"get\", \"\", \"\", [\"\\ud83d\\ude00\"], " ++
  "\x7b\"200\": [\x7b\x7d, \"\", \x7b\x7d]\x7d]]\x7d, [\x7b\x7d, \x7b\x7d]]"

def positionalDocument : OpenApi.Document where
  openapi := "A"
  info := ⟨"\n", "", "", ⟨"", "", ""⟩⟩
  servers := []
  tags := []
  paths := ⟨[("/\"", ⟨[], ⟨"get", "", "", ["😀"],
    ⟨[("200", .inline ⟨.empty, "", .empty⟩)], by decide⟩⟩, none, none, none⟩)], by decide⟩
  components := ⟨.empty, .empty⟩

/-- The message is a control character. -/
def bellReport : Lint.Report := ⟨[⟨"schema", 3, 7, .hint, "\u0007", some "title"⟩]⟩

/-- The text changes when it is written again for the first time, and not any more after that. -/
theorem reading_inverts_writing_positional :
    (OpenApi.Document.parse positionalText).map OpenApi.Document.jsonText =
      .ok positionalDocument.jsonText ∧ positionalText ≠ positionalDocument.jsonText ∧
    (OpenApi.Document.parse positionalDocument.jsonText).map OpenApi.Document.jsonText =
      .ok positionalDocument.jsonText ∧
    Lint.Report.parse bellReport.toJson.compact = .ok bellReport := by
  obtain ⟨-, hwritten, -, hreport⟩ := reading_inverts_writing
  have hparse : OpenApi.Document.parse positionalText = .ok positionalDocument :=
    eq_ok_of_toOption (by decide +kernel)
  have hfirst : (OpenApi.Document.parse positionalText).map OpenApi.Document.jsonText =
      .ok positionalDocument.jsonText := congrArg (Except.map OpenApi.Document.jsonText) hparse
  refine ⟨hfirst, by decide +kernel, hwritten _ _ hfirst, (hreport _ ?_).1⟩
  intro d hd
  rw [List.mem_singleton.mp hd]
  exact ⟨by decide, by decide⟩

end ResourceApi
