import ResourceApi.Proofs.Command.Agreement
import ResourceApi.Proofs.Json.Messages
import ResourceApi.Proofs.Json.Overlooking
import ResourceApi.Proofs.Json.Rendering
import ResourceApi.Proofs.Lint.Parameters

/-!
Which texts are no JSON. Linters of both kinds read a text with the strict reader and agree on this.
The compiler reads descriptions with a typed reader; it refuses a text that linters call no JSON,
unless all that is wrong with the text is a value beyond a limit of the strict reader in a member
that no description asks for.
-/

namespace ResourceApi

open Json Reader

/-! ### What descriptions ask for -/

def Contact.outline : Outline := .record [("name", .leaf), ("email", .leaf), ("url", .leaf)]

def Resource.outline : Outline := .record [("name", .leaf), ("plural", .leaf), ("readonly", .leaf)]

/-- The parts of a text that are looked at when a description is read. -/
def Description.outline : Outline :=
  .record [("title", .leaf), ("description", .leaf), ("contact", Contact.outline),
    ("resources", .list Resource.outline)]

theorem Contact.agrees (depth : Nat) :
    Agrees outline.passesOver depth (Contact.record.decoder depth) :=
  .record (.cons (.mandatory (agrees_string _) _ _) (.cons (.mandatory (agrees_string _) _ _)
    (.cons (.mandatory (agrees_string _) _ _) .nil))) depth

theorem Resource.agrees (depth : Nat) :
    Agrees outline.passesOver depth (Resource.record.decoder depth) := by
  have hreadonly (depth : Nat) :
      Agrees Outline.leaf.passesOver depth (Decoder.optional Decoder.bool depth) :=
    .optional rfl (agrees_bool _ depth)
  exact .record (.cons (.mandatory (agrees_string _) _ _) (.cons (.mandatory (agrees_string _) _ _)
    (.cons (.defaulted hreadonly _ _) .nil))) depth

theorem Description.agrees (depth : Nat) :
    Agrees outline.passesOver depth (Description.record.decoder depth) := by
  have hresources (depth : Nat) : Agrees (Outline.list Resource.outline).passesOver depth
      (Decoder.list Resource.record.decoder depth) :=
    .list Resource.agrees fun _ _ => rfl
  exact .record (.cons (.mandatory (agrees_string _) _ _) (.cons (.mandatory (agrees_string _) _ _)
    (.cons (.mandatory Contact.agrees _ _) (.cons (.mandatory hresources _ _) .nil)))) depth

namespace Description

/-- This error is all about a value in a member that no description asks for. The value follows the
grammar, and it is beyond a limit of the strict reader. -/
def Overlooks (text : String) (e : Json.Error) : Prop :=
  ∃ path depth rest f after, ComesTo depthLimit text.toList path depth rest ∧
    outline.passesOver path = true ∧ skipValue rest = .ok ((), after) ∧
    value depth rest = .error f ∧ f.AtLimit ∧ e = f.toError text.toList

/-- Where a description is read from a text that is no JSON, the reason is overlooked. -/
theorem overlooks_of_parse {text : String} {d : Description} {e : Json.Error}
    (hread : parse text = .ok d) (hparse : Json.parse text = .error e) : Overlooks text e := by
  have hrun : record.parse text = .ok d := by
    rw [parse] at hread
    cases h : record.parse text with
    | error e =>
        rw [h] at hread
        cases hread
    | ok c =>
        rw [h] at hread
        exact congrArg Except.ok (Except.ok.inj hread)
  obtain ⟨trail, hrecord, htrail⟩ := run_eq_ok hrun
  rcases agrees depthLimit hrecord with
    ⟨v, hv⟩ | ⟨path, depth, rest, f, after, hcomes, hpath, hskip, hf, hlimit⟩
  · rw [Json.parse, run, hv] at hparse
    simp only [skipBlank_blank htrail] at hparse
    cases hparse
  · refine ⟨path, depth, rest, f, after, hcomes, hpath, hskip, hf, hlimit, ?_⟩
    rw [Json.parse, run, hcomes.error hf hlimit] at hparse
    exact (Except.error.inj hparse).symm

end Description

/-! ### Messages of violations -/

namespace Schema

theorem startsApart_of_opens {s : String} (h : ∃ c t, s.toList = c :: t ∧ Opens c) :
    Text.StartsApart 'I' s := by
  obtain ⟨c, t, hs, hc⟩ := h
  refine ⟨c, t, hs, ?_⟩
  rintro rfl
  revert hc
  decide

theorem startsApart_compact (v : Json) : Text.StartsApart 'I' v.compact :=
  startsApart_of_opens (opens_compactChars v)

/-- What is wrong with a value is said by its text, the name of a member or a word of its own. -/
theorem startsApart_message (v : Json) (f : Fault) : Text.StartsApart 'I' (f.message v) := by
  have htext := startsApart_compact v
  unfold Fault.message
  dsimp only
  cases f with
  | never => exact .append ⟨'F', _, rfl, by decide⟩ _
  | kinds ks =>
      match ks with
      | [] => exact (htext.append _).append _
      | [k] => exact (htext.append _).append _
      | _ :: _ :: _ => exact (htext.append _).append _
  | constant c => exact (startsApart_compact c).append _
  | required name => exact (startsApart_of_opens (opens_quote name)).append _
  | unexpected keys => exact .append (.append (.append ⟨'A', _, rfl, by decide⟩ _) _) _
  | noneOf keyword =>
      dsimp only
      rw [String.ofList_append, String.ofList_append, String.ofList_append,
        String.ofList_toList]
      exact ((htext.append _).append _).append _
  | uniqueItems | severalOf => exact htext.append _
  | forbidden written => exact ((startsApart_compact written).append _).append _
  | pattern => exact ((htext.append _).append _).append _
  | format => exact ((htext.append _).append _).append _
  | _ => exact (htext.append _).append _

end Schema

/-! ### Linters -/

namespace Lint

/-- All that a linter finds in a text is that it is no JSON. -/
def Linter.FindsNoJson (l : Linter) (text : String) : Prop :=
  ∃ e, l.lint text = [.ofParseFailure l.name text e]

theorem CheckedRuleSet.findsNoJson_iff (c : CheckedRuleSet) (text : String) :
    c.toLinter.FindsNoJson text ↔ ∃ e, Json.parse text = .error e := by
  change (∃ e, c.lint text = [.ofParseFailure c.name text e]) ↔ _
  unfold lint
  cases hparse : Json.parse text with
  | error e => exact ⟨fun _ => ⟨e, rfl⟩, fun _ => ⟨e, rfl⟩⟩
  | ok document =>
      refine ⟨?_, fun ⟨e, he⟩ => by cases he⟩
      rintro ⟨e, he⟩
      -- A violation carries the name of its rule, which a parse failure does not have.
      have hmem := List.mem_of_mem_head? (Option.mem_def.mpr (congrArg List.head? he))
      obtain ⟨rule, -, hrule⟩ := List.mem_flatMap.mp hmem
      obtain ⟨part, -, hpart⟩ := List.mem_map.mp hrule
      cases congrArg Diagnostic.code hpart

/-- No objection against a document reads like the failure of a text that is no JSON. -/
def SchemaLinter.SpeaksOtherwise (c : SchemaLinter) : Prop :=
  ∀ document, ∀ x ∈ c.validate document, ¬ "Invalid JSON: ".toList <+: x.message.toList

/-- The messages of the validator for the schemas that are covered here start with the text of a
value or with a word of their own. -/
theorem SchemaLinter.speaksOtherwise {c : SchemaLinter} {d : Schema.Document}
    (hd : c.validate = d.validate) : c.SpeaksOtherwise := by
  intro document x hx hbegins
  rw [hd] at hx
  obtain ⟨violation, -, rfl⟩ := List.mem_map.mp hx
  obtain ⟨c, t, hmessage, hc⟩ :=
    Schema.startsApart_message violation.value violation.fault
  rw [Schema.Violation.message, hmessage] at hbegins
  exact hc (List.cons_prefix_cons.mp hbegins).1.symm

theorem SchemaLinter.findsNoJson_iff {c : SchemaLinter} (hc : c.SpeaksOtherwise) (text : String) :
    c.toLinter.FindsNoJson text ↔ ∃ e, Json.parse text = .error e := by
  change (∃ e, c.lint text = [.ofParseFailure c.name text e]) ↔ _
  unfold lint
  cases hparse : Json.parse text with
  | error e => exact ⟨fun _ => ⟨e, rfl⟩, fun _ => ⟨e, rfl⟩⟩
  | ok document =>
      refine ⟨?_, fun ⟨e, he⟩ => by cases he⟩
      rintro ⟨e, he⟩
      -- Neither has a name of a rule here, so it is the message that tells them apart.
      have hmem := List.mem_of_mem_head? (Option.mem_def.mpr (congrArg List.head? he))
      obtain ⟨x, hx, hdiagnostic⟩ := List.mem_map.mp hmem
      have hsame : x.message = "Invalid JSON: " ++ e.message :=
        congrArg Diagnostic.message hdiagnostic
      refine absurd ?_ (hc document x hx)
      rw [hsame, String.toList_append]
      exact List.prefix_append _ _

end Lint

/-! ### The command that compiles -/

/-- A description that is not read is not compiled, and nothing is written or printed. -/
theorem Command.Run.compile_of_error {config? : Option String} {c : Compile} {s : Session}
    {text : String} {e : Description.Error} (hinput : (on (input c.input) s).1 = .ok text)
    (h : Description.parse text = .error e) :
    ∃ failure, on (compile config? c) s = (.error failure, s) := by
  have hsame : ∀ (settings : Config), on (do
      let text ← input c.input
      let d ← orFail (Description.parse text) (.description c.input)
      output c.output (d.compile.text (c.format.getD settings.format))) s =
        (.error (.description c.input e), s) := by
    intro settings
    rw [on_bind_of_ok (Prod.ext hinput (on_input c.input)), h]
    exact on_bind_of_error (on_orFail _ _)
  cases hconfig : (on (config config?) s).1 with
  | error failure => exact ⟨failure, on_bind_of_error (Prod.ext hconfig (on_config config?))⟩
  | ok settings =>
      refine ⟨.description c.input e, ?_⟩
      rw [compile, on_bind_of_ok (Prod.ext hconfig (on_config config?)), hsame]

namespace Lint

open Command (Compile Session) in
/-- **Linters agree on what is no JSON**, as long as a validator says nothing that reads like it, as
none does for the schemas that are covered here. So does the compiler: a text that they call no JSON
is not compiled, and nothing is written for it, unless the error they give is one that is
overlooked. -/
theorem readers_agree_on_json (rules : CheckedRuleSet) (schema : SchemaLinter) (text : String) :
    (schema.SpeaksOtherwise →
      (rules.toLinter.FindsNoJson text ↔ schema.toLinter.FindsNoJson text)) ∧
    (∀ d : Schema.Document, schema.validate = d.validate → schema.SpeaksOtherwise) ∧
    (rules.toLinter.FindsNoJson text → ∃ e,
      rules.lint text = [.ofParseFailure rules.name text e] ∧
      schema.lint text = [.ofParseFailure schema.name text e] ∧
      (Description.Overlooks text e ∨ (∃ f, Description.compileText text = .error f) ∧
        ∀ (config? : Option String) (c : Compile) (s : Session),
          (Command.Run.on (Command.Run.input c.input) s).1 = .ok text →
          ∃ failure, Command.Run.on (Command.Run.compile config? c) s = (.error failure, s))) := by
  refine ⟨fun hschema => ?_, fun d hd => SchemaLinter.speaksOtherwise hd, fun h => ?_⟩
  · exact (rules.findsNoJson_iff text).trans (SchemaLinter.findsNoJson_iff hschema text).symm
  obtain ⟨e, he⟩ := (rules.findsNoJson_iff text).mp h
  refine ⟨e, by rw [CheckedRuleSet.lint, he], by rw [SchemaLinter.lint, he], ?_⟩
  cases hread : Description.parse text with
  | ok d => exact .inl (Description.overlooks_of_parse hread he)
  | error f =>
      refine .inr ⟨⟨f, by rw [Description.compileText, hread]; rfl⟩, fun config? c s hinput => ?_⟩
      exact Command.Run.compile_of_error hinput hread

/-- A description with a member of its own, whose value is beyond the range of doubles. -/
def hugeNumber : String := descriptionText ",\"x\":1e999"

theorem exists_parse_hugeNumber : ∃ e, Json.parse hugeNumber = .error e := by
  have hparse : (Json.parse hugeNumber).toOption = none :=
    Option.isNone_iff_eq_none.mp (by decide +kernel)
  cases h : Json.parse hugeNumber with
  | error e => exact ⟨e, rfl⟩
  | ok v =>
      rw [h] at hparse
      cases hparse

theorem exists_compiled_hugeNumber : ∃ doc, Description.compileText hugeNumber = .ok doc := by
  have hread : (Description.parse hugeNumber).toOption.isSome = true := by decide +kernel
  obtain ⟨d, hd⟩ := Option.isSome_iff_exists.mp hread
  exact ⟨d.compile, Description.compileText_eq_ok.mpr ⟨d, Json.eq_ok_of_toOption hd, rfl⟩⟩

/-- The built-in linters call this text no JSON, and it compiles. -/
theorem hugeNumber_compiles : Builtin.generatorSyntax.linter.FindsNoJson hugeNumber ∧
    Builtin.parameters.linter.FindsNoJson hugeNumber ∧
    ∃ doc, Description.compileText hugeNumber = .ok doc :=
  ⟨(CheckedRuleSet.generatorSyntax.findsNoJson_iff hugeNumber).mpr exists_parse_hugeNumber,
    (SchemaLinter.findsNoJson_iff (SchemaLinter.speaksOtherwise rfl) hugeNumber).mpr
      exists_parse_hugeNumber,
    exists_compiled_hugeNumber⟩

theorem readers_agree_on_json_hugeNumber :
    CheckedRuleSet.generatorSyntax.toLinter.FindsNoJson hugeNumber ∧
      (SchemaLinter.parameters "parameters").SpeaksOtherwise ∧
      (SchemaLinter.parameters "parameters").toLinter.FindsNoJson hugeNumber ∧
      ∃ e, Description.Overlooks hugeNumber e := by
  obtain ⟨hagree, hspeaks, hcompiled⟩ :=
    readers_agree_on_json .generatorSyntax (.parameters "parameters") hugeNumber
  have hfound := (CheckedRuleSet.generatorSyntax.findsNoJson_iff hugeNumber).mpr
    exists_parse_hugeNumber
  have hotherwise := hspeaks ⟨Schema.parameters, []⟩ rfl
  refine ⟨hfound, hotherwise, (hagree hotherwise).mp hfound, ?_⟩
  obtain ⟨e, -, -, hoverlooks | ⟨⟨f, hf⟩, -⟩⟩ := hcompiled hfound
  · exact ⟨e, hoverlooks⟩
  · obtain ⟨doc, hdoc⟩ := exists_compiled_hugeNumber
    rw [hf] at hdoc
    cases hdoc

end Lint

end ResourceApi
