import ResourceApi.Lint.SchemaLinter
import ResourceApi.Proofs.Json.Escapes
import ResourceApi.Proofs.Json.Progress
import ResourceApi.Proofs.Schema.Places
import ResourceApi.Proofs.Text.Lines

/-!
What a linter makes of a validator. A text that is no JSON is one finding about the whole text. Of
any other text each objection of the validator is one finding, in the order of the objections: it
starts where the value that is objected to starts, and it ends with the line on which that value
starts. All that is asked of the validator is that it objects to values of the document and names
them by their pointers; the validator for the schemas that are covered here does so.
-/

namespace ResourceApi

/-! ### Validators -/

namespace Schema

/-- The token of a step in a pointer: first all tildes are written `~0`, then all slashes `~1`. -/
def escapedToken (step : Json.Step) : String :=
  String.ofList (Text.replaceAll '/' [] ['~', '1']
    (Text.replaceAll '~' [] ['~', '0'] step.token.toList))

/-- The pointer that a path is printed as, with a slash before each token. -/
inductive Prints : Json.Path → String → Prop where
  | root : Prints [] ""
  | step {path : Json.Path} {pointer : String} (h : Prints path pointer) (step : Json.Step) :
      Prints (path ++ [step]) (pointer ++ "/" ++ escapedToken step)

/-- Whatever schema the validator has read and whatever document it is given, it objects to values
that are in the document, and it names them by the pointers of their paths. -/
def Validator.PointsInside (validator : Validator) : Prop :=
  ∀ schema validate, validator schema = .ok validate →
    ∀ document : Json, document.DistinctKeys → ∀ x ∈ validate document,
      ∃ path, (document.at? path).isSome ∧ Prints path x.pointer

theorem ofPath_concat (path : Json.Path) (step : Json.Step) :
    Json.Pointer.ofPath (path ++ [step]) =
      Json.Pointer.ofPath path ++ "/" ++ escapedToken step := by
  rw [Json.Pointer.ofPath, List.foldl_append]
  exact Json.Pointer.push_eq_replaceAll _ _

theorem Prints.eq_ofPath {path : Json.Path} {pointer : String} (h : Prints path pointer) :
    pointer = Json.Pointer.ofPath path := by
  induction h with
  | root => rfl
  | step h step ih => rw [ofPath_concat, ← ih]

theorem prints_ofPath (path : Json.Path) : Prints path (Json.Pointer.ofPath path) := by
  induction path using List.reverseRecOn with
  | nil => exact .root
  | append_singleton path step ih =>
      rw [ofPath_concat]
      exact ih.step step

theorem validator_pointsInside : validator.PointsInside := by
  intro schema validate hvalidate document hdocument x hx
  obtain ⟨d, -, rfl⟩ : ∃ d, Document.check schema = .ok d ∧ Document.validate d = validate := by
    rw [validator] at hvalidate
    cases hcheck : Document.check schema with
    | error reason =>
        rw [hcheck] at hvalidate
        cases hvalidate
    | ok d =>
        rw [hcheck] at hvalidate
        exact ⟨d, rfl, Except.ok.inj hvalidate⟩
  obtain ⟨violation, hviolation, rfl⟩ := List.mem_map.mp hx
  exact ⟨violation.path, d.inside_violations hdocument _ hviolation, prints_ofPath _⟩

end Schema

namespace Lint

open Json.Spans (Cursor.isBlank)

/-- The finding that an objection is: from the first character of the value at its path to the end
of the line, which is not empty and lies inside the text. -/
inductive PointsAt (source text : String) (document : Json) (spans : Json.Spans) :
    Schema.Objection → Diagnostic → Prop where
  | value {x : Schema.Objection} {path : Json.Path} {node : Json} {span : Span} {first : Char}
      {stop : Nat} (hpath : Schema.Prints path x.pointer) (hnode : document.at? path = some node)
      (hspan : spans.find? x.pointer = some span) (hholds : span.Holds text node)
      (hfirst : text.toList[span.start]? = some first) (hblank : Cursor.isBlank first = false)
      (hstop : stop =
        span.start + (Lines.restOfLine (text.toList.drop span.start)).length)
      (hlt : span.start < stop) (hle : stop ≤ text.length) :
      PointsAt source text document spans x
        ⟨source, span.start, stop, .error, x.message, none⟩

/-! ### Lines of values -/

section Line

variable {text : String} {start : Nat} {first : Char}

/-- From a character that is no blank the line goes on at least to behind that character. -/
theorem lt_restOfLine (hfirst : text.toList[start]? = some first)
    (hblank : Cursor.isBlank first = false) :
    0 < (Lines.restOfLine (text.toList.drop start)).length := by
  rw [Cursor.isBlank, Bool.or_eq_false_iff, Bool.or_eq_false_iff] at hblank
  obtain ⟨⟨-, hlf⟩, hcr⟩ := hblank
  obtain ⟨hlt, rfl⟩ := List.getElem?_eq_some_iff.mp hfirst
  rw [List.drop_eq_getElem_cons hlt,
    Lines.restOfLine_cons (of_decide_eq_false hlf) fun h => of_decide_eq_false hcr h.1]
  exact Nat.succ_pos _

/-- Going to the line and column of a character that is no blank and back leads to the character,
and to what is left of the line there. -/
theorem offset_and_lineEnd (hfirst : text.toList[start]? = some first)
    (hblank : Cursor.isBlank first = false) :
    let place := (Lines.ofText text).lineColumn start
    (Lines.ofText text).offset place.line place.column = start ∧
    (Lines.ofText text).lineEnd place.line =
      start + (Lines.restOfLine (text.toList.drop start)).length := by
  obtain ⟨hlt, hget⟩ := List.getElem?_eq_some_iff.mp hfirst
  have hsplit : text.toList = text.toList.take start ++ text.toList.drop start :=
    (List.take_append_drop start text.toList).symm
  have hlength : (text.toList.take start).length = start :=
    List.length_take_of_le (Nat.le_of_lt hlt)
  have hhead : (text.toList.drop start).head? ≠ some '\n' := by
    rw [List.head?_drop, hfirst]
    rintro ⟨⟩
    cases hblank
  have hplace := Lines.lineColumn_ofText hsplit
  have hoffset := Lines.offset_ofText hsplit
  have hend := Lines.lineEnd_ofText hsplit hhead
  rw [hlength] at hplace hoffset hend
  simp only [hplace]
  exact ⟨hoffset, hend⟩

end Line

namespace SchemaLinter

/-- An objection is found where its value starts, on that line. -/
theorem pointsAt_diagnostic (c : SchemaLinter) {text : String} {document : Json}
    {spans : Json.Spans} (hspans : Json.Spans.parse text = .ok spans) {x : Schema.Objection}
    {path : Json.Path} (hpath : Schema.Prints path x.pointer) {node : Json}
    (hnode : document.at? path = some node) {span : Span}
    (hspan : spans.find? x.pointer = some span) (hholds : span.Holds text node) :
    PointsAt c.name text document spans x (c.diagnostic spans (Lines.ofText text) x) := by
  obtain ⟨first, hfirst, hblank⟩ := Json.Spans.starts_of_find? hspans hspan
  obtain ⟨hoffset, hend⟩ := offset_and_lineEnd hfirst hblank
  have hrest := lt_restOfLine hfirst hblank
  have hle := Lines.length_restOfLine_le (text.toList.drop span.start)
  have hinside := (List.getElem?_eq_some_iff.mp hfirst).1
  rw [List.length_drop, String.length_toList] at hle
  rw [String.length_toList] at hinside
  simp only [diagnostic, startOf, hspan, hoffset, hend]
  exact .value hpath hnode hspan hholds hfirst hblank rfl (by omega) (by omega)

theorem ofSchemaBy_eq_ok {validator : Schema.Validator} {name : String} {schema : Json}
    {c : SchemaLinter} : ofSchemaBy validator name schema = .ok c ↔
      ∃ validate, validator (withoutIdentity schema) = .ok validate ∧ c = ⟨name, validate⟩ := by
  rw [ofSchemaBy]
  cases validator (withoutIdentity schema) with
  | error reason => simp
  | ok validate => simp [eq_comm]

/-- A linter is made of a schema with a validator that objects to nothing outside the document. A
text that is no JSON is reported as a whole. In any other text each objection is reported once, from
the start of the value that is objected to to the end of that line. -/
theorem lint_points_at_violations {validator : Schema.Validator}
    (hvalidator : validator.PointsInside) {name : String} {schema : Json} {c : SchemaLinter}
    (hc : ofSchemaBy validator name schema = .ok c) (text : String) :
    (∀ e, Json.parse text = .error e →
      c.lint text = [⟨name, 0, text.length, .error, "Invalid JSON: " ++ e.message, none⟩]) ∧
    ∀ document, Json.parse text = .ok document → ∃ validate spans,
      validator (withoutIdentity schema) = .ok validate ∧ Json.Spans.parse text = .ok spans ∧
      List.Forall₂ (PointsAt name text document spans) (validate document) (c.lint text) := by
  obtain ⟨validate, hvalidate, rfl⟩ := ofSchemaBy_eq_ok.mp hc
  constructor
  · intro e he
    rw [lint, he]
    rfl
  · intro document hdocument
    obtain ⟨w, hw, rfl⟩ := Json.parse_eq_ok.mp hdocument
    obtain ⟨spans, hspans, hcovers⟩ := Json.Spans.parse_of_document hw
    refine ⟨validate, spans, hvalidate, hspans, ?_⟩
    simp only [lint, hdocument, hspans]
    rw [List.forall₂_map_right_iff, List.forall₂_same]
    intro x hx
    obtain ⟨path, hsome, hpath⟩ :=
      hvalidator _ validate hvalidate w.lastWins (Json.distinctKeys_lastWins w) x hx
    obtain ⟨node, hnode⟩ := Option.isSome_iff_exists.mp hsome
    obtain ⟨span, hspan, hholds⟩ := hcovers.find? hnode
    rw [← hpath.eq_ofPath] at hspan
    exact pointsAt_diagnostic ⟨name, validate⟩ hspans hpath hnode hspan hholds

/-- Asks for an array of strings. -/
def stringList : Json :=
  .object [("$id", .string "strings"), ("items", .object [("type", .string "string")])]

/-- A number on the second line, whose end is a carriage return and a line feed. -/
def numberInList : String := "[\"é\",\r\n  5 ]\r\n"

theorem lint_points_at_violations_second_line : ∃ c document spans,
    ofSchema "strings" stringList = .ok c ∧
    c.lint numberInList = [⟨"strings", 9, 12, .error, "5 is not of type \"string\"", none⟩] ∧
    Json.parse numberInList = .ok document ∧ Json.Spans.parse numberInList = .ok spans ∧
    PointsAt "strings" numberInList document spans ⟨"/1", "5 is not of type \"string\""⟩
      ⟨"strings", 9, 12, .error, "5 is not of type \"string\"", none⟩ := by
  have hparse : Json.parse numberInList = .ok (.array [.string "é", .number (.integer 5)]) :=
    Json.eq_ok_of_toOption (by decide +kernel)
  cases hc : ofSchema "strings" stringList with
  | error e =>
      have hok : (ofSchema "strings" stringList).isOk = true := by decide +kernel
      rw [hc] at hok
      cases hok
  | ok c =>
      obtain ⟨validate, spans, hvalidate, hspans, hfound⟩ :=
        (lint_points_at_violations Schema.validator_pointsInside hc numberInList).2 _ hparse
      have hvalidated : (Schema.validator (withoutIdentity stringList)).toOption.map
          (fun validate => validate (.array [.string "é", .number (.integer 5)])) =
          some [⟨"/1", "5 is not of type \"string\""⟩] := by
        decide +kernel
      have hlinted : (ofSchema "strings" stringList).toOption.map (fun c => c.lint numberInList) =
          some [⟨"strings", 9, 12, .error, "5 is not of type \"string\"", none⟩] := by
        decide +kernel
      rw [hvalidate] at hvalidated
      rw [hc] at hlinted
      have hobjections : validate (.array [.string "é", .number (.integer 5)]) =
          [⟨"/1", "5 is not of type \"string\""⟩] := Option.some.inj hvalidated
      have hlint : c.lint numberInList =
          [⟨"strings", 9, 12, .error, "5 is not of type \"string\"", none⟩] :=
        Option.some.inj hlinted
      rw [hobjections, hlint] at hfound
      refine ⟨c, _, spans, rfl, hlint, hparse, hspans, ?_⟩
      cases hfound with
      | cons hpoints _ => exact hpoints

end SchemaLinter

end Lint

end ResourceApi
