import Mathlib.Data.List.Flatten
import Mathlib.Data.List.Forall2
import ResourceApi.Lint.Checked
import ResourceApi.Proofs.Json.Places
import ResourceApi.Proofs.Json.Selecting

/-!
What a checked rule set says of a text. A text that is no JSON is one finding about the whole text.
Of any other text every enabled rule reports the parts that violate its assertion, each once, in the
order in which they are picked and at the place where they stand.
-/

namespace ResourceApi.Lint

/-- The values of a kind. An integer is a number that was read as one. -/
inductive OfKind : Json.Kind → Json → Prop where
  | array (items : List Json) : OfKind .array (.array items)
  | boolean (b : Bool) : OfKind .boolean (.bool b)
  | integer (i : Int) : OfKind .integer (.number (.integer i))
  | null : OfKind .null .null
  | number (n : Json.Number) : OfKind .number (.number n)
  | object (members : Entries Json) : OfKind .object (.object members)
  | string (s : String) : OfKind .string (.string s)

/-- The assertion of a rule fails on a value, if patterns mean what the engine takes them for. -/
inductive Violates (engine : Pattern.Engine) (rule : Rule) : Json → Prop where
  | required {members : Entries Json} {key : String} (hkey : key ∈ rule.assertion.required)
      (hmissing : key ∉ members.keys) : Violates engine rule (.object members)
  | kind {v : Json} {kind : Json.Kind} (hkind : rule.assertion.kind = some kind)
      (hv : ¬ OfKind kind v) : Violates engine rule v
  | pattern {s source : String} {isMatched : String → Bool}
      (hsource : rule.assertion.pattern = some source) (hengine : engine source = some isMatched)
      (hs : isMatched s = false) : Violates engine rule (.string s)
  | minItems {items : List Json} {least : Nat} (hleast : rule.assertion.minItems = some least)
      (hitems : items.length < least) : Violates engine rule (.array items)

/-- The diagnostics of a rule on the parts that it picks: one for each part that violates it, on the
characters of that part, and none for the others. -/
inductive Reported (engine : Pattern.Engine) (source text : String) (spans : Json.Spans)
    (rule : Rule) : List Json.Selected → List Diagnostic → Prop where
  | none : Reported engine source text spans rule [] []
  | kept {part : Json.Selected} {parts : List Json.Selected} {found : List Diagnostic}
      (hkept : ¬ Violates engine rule part.value)
      (h : Reported engine source text spans rule parts found) :
      Reported engine source text spans rule (part :: parts) found
  | violated {part : Json.Selected} {parts : List Json.Selected} {found : List Diagnostic}
      {span : Span} (hviolates : Violates engine rule part.value)
      (hspan : spans.find? part.pointer = some span) (hholds : span.Holds text part.value)
      (h : Reported engine source text spans rule parts found) :
      Reported engine source text spans rule (part :: parts)
        (⟨source, span.start, span.stop, rule.severity, rule.message, some rule.name⟩ :: found)

theorem holds_iff_ofKind {kind : Json.Kind} {v : Json} :
    kind.holds Json.Kind.isInteger v = true ↔ OfKind kind v := by
  constructor
  · intro h
    cases kind with
    | integer =>
        cases v with
        | number n =>
            cases n with
            | integer i => exact .integer i
            | real x => cases h
        | null | bool | string | array | object => cases h
    | array | boolean | null | number | object | string => cases v <;> first | constructor | cases h
  · rintro ⟨⟩ <;> rfl

/-! ### Rules that have been read -/

namespace CheckedRule

variable {engine : Pattern.Engine} {rule : Rule} {c : CheckedRule}

/-- A checked rule is its rule with the selector and the pattern that its texts stand for. -/
structure Reads (engine : Pattern.Engine) (rule : Rule) (c : CheckedRule) : Prop where
  rule_eq : c.rule = rule
  selector : Json.Selector.parse rule.given = .ok c.selector
  pattern : c.pattern = rule.assertion.pattern.bind engine

theorem reads_of_ofRuleBy (h : ofRuleBy engine rule = .ok c) : Reads engine rule c := by
  unfold ofRuleBy at h
  split at h
  · cases h
  · rename_i selector hselector
    split at h
    · rename_i hnone
      obtain rfl := Except.ok.inj h
      exact ⟨rfl, hselector, by rw [hnone]; rfl⟩
    · rename_i source hsource
      split at h
      · rename_i isMatched hengine
        obtain rfl := Except.ok.inj h
        exact ⟨rfl, hselector, by rw [hsource, Option.bind_some, hengine]⟩
      · cases h

theorem hasRequired_eq_false {keys : List String} {v : Json} :
    hasRequired keys v = false ↔
      ∃ members, v = .object members ∧ ∃ key ∈ keys, key ∉ Entries.keys members := by
  cases v with
  | object members =>
      simp only [hasRequired, List.all_eq_false, Json.object.injEq, exists_eq_left',
        Bool.not_eq_true, Option.isSome_eq_false_iff, Option.isNone_iff_eq_none,
        Entries.find?_eq_none]
  | null | bool | number | string | array => simp [hasRequired]

theorem matchesPattern_eq_false {pattern : Option (String → Bool)} {v : Json} :
    matchesPattern pattern v = false ↔
      ∃ isMatched s, pattern = some isMatched ∧ v = .string s ∧ isMatched s = false := by
  cases pattern with
  | none => simp [matchesPattern]
  | some isMatched => cases v <;> simp [matchesPattern]

theorem hasItems_eq_false {least : Option Nat} {v : Json} :
    hasItems least v = false ↔
      ∃ n items, least = some n ∧ v = .array items ∧ items.length < n := by
  cases least with
  | none => simp [hasItems]
  | some n => cases v <;> simp [hasItems]

theorem getD_kind_eq_false {kind : Option Json.Kind} {v : Json} :
    (kind.map fun k => k.holds Json.Kind.isInteger v).getD true = false ↔
      ∃ k, kind = some k ∧ ¬ OfKind k v := by
  cases kind <;> simp [← holds_iff_ofKind]

/-- The check of a rule that has been read fails on exactly the values that violate the rule. -/
theorem holds_eq_false (h : Reads engine rule c) (v : Json) :
    c.holds v = false ↔ Violates engine rule v := by
  rw [holds, h.rule_eq]
  simp only [Bool.and_eq_false_iff, hasRequired_eq_false, matchesPattern_eq_false,
    hasItems_eq_false, getD_kind_eq_false]
  constructor
  · rintro (((⟨members, rfl, key, hkey, hmissing⟩ | ⟨kind, hkind, hv⟩) |
      ⟨isMatched, s, hpattern, rfl, hs⟩) | ⟨least, items, hleast, rfl, hitems⟩)
    · exact .required hkey hmissing
    · exact .kind hkind hv
    · rw [h.pattern] at hpattern
      obtain ⟨source, hsource, hread⟩ := Option.bind_eq_some_iff.mp hpattern
      exact .pattern hsource hread hs
    · exact .minItems hleast hitems
  · rintro (⟨hkey, hmissing⟩ | ⟨hkind, hv⟩ | ⟨hsource, hengine, hs⟩ | ⟨hleast, hitems⟩)
    · exact .inl (.inl (.inl ⟨_, rfl, _, hkey, hmissing⟩))
    · exact .inl (.inl (.inr ⟨_, hkind, hv⟩))
    · refine .inl (.inr ⟨_, _, ?_, rfl, hs⟩)
      rw [h.pattern, hsource, Option.bind_some, hengine]
    · exact .inr ⟨_, _, hleast, rfl, hitems⟩

/-- The violations of a rule are reported where the parts stand, whatever span is offered for parts
without a place. -/
theorem reported_violations {source text : String} {spans : Json.Spans}
    (h : Reads engine rule c) {document : Json} (whole : Span)
    (hspans : ∀ part ∈ c.selector.select document, ∃ span,
      spans.find? part.pointer = some span ∧ span.Holds text part.value) :
    Reported engine source text spans rule (c.selector.select document)
      (c.violations source document spans whole) := by
  unfold violations
  generalize c.selector.select document = parts at hspans ⊢
  induction parts with
  | nil => exact .none
  | cons part parts ih =>
      obtain ⟨⟨span, hspan, hholds⟩, hspans⟩ := List.forall_mem_cons.mp hspans
      cases hpart : c.holds part.value with
      | true =>
          rw [List.filter_cons_of_neg (by simp [hpart])]
          refine .kept (fun hviolates => ?_) (ih hspans)
          rw [(holds_eq_false h part.value).mpr hviolates] at hpart
          cases hpart
      | false =>
          rw [List.filter_cons_of_pos (by simp [hpart]), List.map_cons, hspan, Option.getD_some,
            diagnostic, h.rule_eq]
          exact .violated ((holds_eq_false h part.value).mp hpart) hspan hholds (ih hspans)

end CheckedRule

/-! ### Rule sets that have been read -/

theorem forall₂_of_mapM {α β ε : Type} {f : α → Except ε β} {as : List α} {bs : List β}
    (h : as.mapM f = .ok bs) : List.Forall₂ (fun a b => f a = .ok b) as bs := by
  induction as generalizing bs with
  | nil =>
      rw [List.mapM_nil] at h
      obtain rfl := Except.ok.inj h
      exact .nil
  | cons a as ih =>
      rw [List.mapM_cons] at h
      cases ha : f a with
      | error e =>
          rw [ha] at h
          cases h
      | ok b =>
          cases has : as.mapM f with
          | error e =>
              rw [ha, has] at h
              cases h
          | ok rest =>
              rw [ha, has] at h
              obtain rfl := Except.ok.inj h
              exact .cons ha (ih has)

namespace CheckedRuleSet

variable {engine : Pattern.Engine}

theorem reads_of_ofRuleSetBy {s : RuleSet} {c : CheckedRuleSet}
    (h : ofRuleSetBy engine s = .ok c) :
    c.name = s.name ∧
      List.Forall₂ (CheckedRule.Reads engine) (s.rules.filter fun rule => rule.enabled) c.rules := by
  obtain ⟨rules, hrules, rfl⟩ := Json.map_eq_ok h
  exact ⟨rfl, (forall₂_of_mapM hrules).imp fun _ _ => CheckedRule.reads_of_ofRuleBy⟩

variable {source text : String} {spans : Json.Spans} {document : Json}

/-- What each rule reports, one rule after the other. -/
theorem reported_evaluate {rules : List Rule} {checked : List CheckedRule}
    (h : List.Forall₂ (CheckedRule.Reads engine) rules checked) (whole : Span)
    (hspans : ∀ path node, document.at? path = some node → ∃ span,
      spans.find? (Json.Pointer.ofPath path) = some span ∧ span.Holds text node)
    (hdocument : document.DistinctKeys) :
    List.Forall₂ (fun rule group => ∃ selector, Json.Selector.parse rule.given = .ok selector ∧
      Reported engine source text spans rule (selector.select document) group) rules
      (checked.map fun rule => rule.violations source document spans whole) := by
  induction h with
  | nil => exact .nil
  | @cons rule c rules checked hrule _ ih =>
      refine .cons ⟨c.selector, hrule.selector, ?_⟩ ih
      refine CheckedRule.reported_violations hrule whole fun part hpart => ?_
      exact hspans part.path part.value (Json.Selector.stands_of_mem_select hdocument hpart)

/-- Spans that are found are not replaced, so it does not matter which span would be taken for a
part without a place. -/
theorem evaluate_congr (c : CheckedRuleSet) (first second : Span)
    (hspans : ∀ rule ∈ c.rules, ∀ part ∈ rule.selector.select document,
      (spans.find? part.pointer).isSome) :
    c.evaluate document spans first = c.evaluate document spans second := by
  refine List.flatMap_congr fun rule hrule => List.map_congr_left fun part hpart => ?_
  obtain ⟨span, hspan⟩ :=
    Option.isSome_iff_exists.mp (hspans rule hrule part (List.mem_of_mem_filter hpart))
  rw [hspan, Option.getD_some, Option.getD_some]

/-- A rule set that can be used reports exactly the violations of its enabled rules, each on the
characters of the part that violates its rule, whatever engine reads the patterns. -/
theorem lint_reports_violations {s : RuleSet} {c : CheckedRuleSet}
    (h : ofRuleSetBy engine s = .ok c) (text : String) :
    (∀ e, Json.parse text = .error e →
      c.lint text = [⟨s.name, 0, text.length, .error, "Invalid JSON: " ++ e.message, none⟩]) ∧
    ∀ document, Json.parse text = .ok document → ∃ spans groups,
      Json.Spans.parse text = .ok spans ∧ c.lint text = groups.flatten ∧
      List.Forall₂ (fun rule group => ∃ selector, Json.Selector.parse rule.given = .ok selector ∧
        Reported engine s.name text spans rule (selector.select document) group)
        (s.rules.filter fun rule => rule.enabled) groups ∧
      ∀ whole, c.evaluate document spans whole = c.lint text := by
  obtain ⟨hname, hrules⟩ := reads_of_ofRuleSetBy h
  constructor
  · intro e he
    rw [lint, he, ← hname]
    rfl
  · intro document hdocument
    obtain ⟨w, hw, rfl⟩ := Json.parse_eq_ok.mp hdocument
    obtain ⟨spans, hspans, hcovers⟩ := Json.Spans.parse_of_document hw
    have hlint : c.lint text = c.evaluate (Json.lastWins w) spans ⟨0, text.length⟩ := by
      rw [lint, hdocument, hspans]
      rfl
    refine ⟨spans, _, hspans, ?_, reported_evaluate hrules ⟨0, text.length⟩
      (fun _ _ => hcovers.find?) (Json.distinctKeys_lastWins w), fun whole => ?_⟩
    · rw [hlint, evaluate, List.flatMap, hname]
    · rw [hlint]
      refine evaluate_congr c whole _ fun rule _ part hpart => ?_
      obtain ⟨span, hspan, -⟩ := hcovers.find?
        (Json.Selector.stands_of_mem_select (Json.distinctKeys_lastWins w) hpart)
      exact Option.isSome_iff_exists.mpr ⟨span, hspan⟩

/-- Two rules, of which one is switched off. -/
def titleRules : RuleSet where
  name := "titles"
  description := ""
  documentationUrl := none
  rules := [.requiring "title-required" "$" ["title"] "No title",
    { Rule.requiring "disabled" "$" ["name"] "No name" with enabled := false }]

theorem lint_reports_violations_without_title :
    ∃ c, ofRuleSet titleRules = .ok c ∧ ∃ span,
      c.lint "\x7b\x7d" = [⟨"titles", Span.start span, span.stop, .error, "No title",
        some "title-required"⟩] ∧ span.Holds "\x7b\x7d" (.object []) := by
  obtain ⟨c, hc⟩ : ∃ c, ofRuleSet titleRules = .ok c := ⟨_, rfl⟩
  obtain ⟨spans, groups, -, hlint, hgroups, -⟩ :=
    (lint_reports_violations hc "\x7b\x7d").2 (.object [])
      (Json.eq_ok_of_toOption (by decide +kernel))
  refine ⟨c, hc, ?_⟩
  cases hgroups with
  | cons hgroup hnone =>
      cases hnone
      obtain ⟨selector, hselector, hreported⟩ := hgroup
      obtain rfl := Except.ok.inj hselector
      cases hreported with
      | kept hkept => exact absurd (.required List.mem_cons_self (by simp [Entries.keys])) hkept
      | violated hviolates hspan hholds hreported =>
          cases hreported
          exact ⟨_, hlint, hholds⟩

end CheckedRuleSet

end ResourceApi.Lint
