import ResourceApi.Lint.SchemaLinter
import ResourceApi.Proofs.Lint.GeneratorSyntax
import ResourceApi.Proofs.Schema.Accepted

/-!
Assertions of rules as schemas. An assertion without a pattern has the keywords of a schema, and as a
rule about the whole document it finds fault with the same documents as that schema does, but for one
kind: a rule takes only those numbers for integers that were read as integers of 64 bits, and a schema
all numbers without a fraction.
-/

namespace ResourceApi.Lint

open Schema (violations violations_all_eq_nil violations_check_eq_nil faultUnless_eq_nil)

/-- A schema whose members are all accepted can be used. -/
theorem SchemaLinter.ofSchema_eq_ok {entries : Entries Json} (hentries : entries.keys.Nodup)
    (h : ∀ entry ∈ entries, ∀ references, Schema.Document.Accepts references entry.1 entry.2)
    {schema : Json} (hschema : withoutIdentity schema = .object entries) {name : String} :
    ofSchema name schema = .ok ⟨name, (Schema.Document.ofJson (.object entries)).validate⟩ := by
  rw [ofSchema, ofSchemaBy, hschema, Schema.validator, Schema.Document.check_eq_ok hentries h]
  rfl

namespace Assertion

/-- The members of a schema that demands what an assertion demands: the required keys, which may be
left out if there are none, the kind and the least number of items, in any order. Besides, a schema
may say which schema it is and in which language it is written. -/
structure SaidBy (a : Assertion) (entries : Entries Json) : Prop where
  distinct : entries.keys.Nodup
  required : entries.find? "required" = some (.array (a.required.map .string)) ∨
    a.required = [] ∧ entries.find? "required" = none
  kind : entries.find? "type" = a.kind.map fun k => .string k.name
  minItems : entries.find? "minItems" = a.minItems.map .ofNat
  only : ∀ key ∈ entries.keys, key ∈ ["$schema", "$id", "required", "type", "minItems"]

variable {a : Assertion} {entries : Entries Json}

theorem SaidBy.swapOut (h : a.SaidBy entries) (key : String)
    (hkey : key ∉ ["required", "type", "minItems"]) : a.SaidBy (entries.swapOut key) := by
  simp only [List.mem_cons, List.not_mem_nil, or_false, not_or] at hkey
  obtain ⟨hrequired, htype, hminItems⟩ := hkey
  constructor
  · exact Entries.nodup_keys_swapOut h.distinct
  · rw [Entries.find?_swapOut_of_ne h.distinct (Ne.symm hrequired)]
    exact h.required
  · rw [Entries.find?_swapOut_of_ne h.distinct (Ne.symm htype)]
    exact h.kind
  · rw [Entries.find?_swapOut_of_ne h.distinct (Ne.symm hminItems)]
    exact h.minItems
  · exact fun other hother => h.only other ((Entries.mem_keys_swapOut h.distinct).mp hother).1

/-- Without what only identifies the schema, the members are those of the assertion. -/
theorem SaidBy.exists_plain (h : a.SaidBy entries) : ∃ plain,
    SchemaLinter.withoutIdentity (.object entries) = .object plain ∧ a.SaidBy plain ∧
      ∀ key ∈ Entries.keys plain, key ∈ ["required", "type", "minItems"] := by
  have hschema := h.swapOut "$schema" (by decide)
  have hid := hschema.swapOut "$id" (by decide)
  refine ⟨_, rfl, hid, fun key hkey => ?_⟩
  obtain ⟨hkey', hneId⟩ := (Entries.mem_keys_swapOut hschema.distinct).mp hkey
  obtain ⟨-, hneSchema⟩ := (Entries.mem_keys_swapOut h.distinct).mp hkey'
  have hmem := hid.only key hkey
  simpa [hneId, hneSchema] using hmem

/-- What holds of the members of such a schema holds of one member for each part of the assertion. -/
theorem SaidBy.forall_mem (h : a.SaidBy entries)
    (hplain : ∀ key ∈ entries.keys, key ∈ ["required", "type", "minItems"])
    {P : String × Json → Prop} (hnone : a.required = [] → P ("required", .array [])) :
    (∀ entry ∈ entries, P entry) ↔ P ("required", .array (a.required.map .string)) ∧
      (∀ k, a.kind = some k → P ("type", .string k.name)) ∧
      ∀ least, a.minItems = some least → P ("minItems", .ofNat least) := by
  constructor
  · intro hall
    have hfind : ∀ {key v}, entries.find? key = some v → P (key, v) := fun hfind =>
      hall _ (Entries.mem_of_find? hfind)
    refine ⟨?_, fun k hk => ?_, fun least hleast => ?_⟩
    · rcases h.required with hrequired | ⟨hnil, -⟩
      · exact hfind hrequired
      · rw [hnil]
        exact hnone hnil
    · exact hfind (by rw [h.kind, hk, Option.map_some])
    · exact hfind (by rw [h.minItems, hleast, Option.map_some])
  · rintro ⟨hrequired, hkind, hminItems⟩ ⟨key, v⟩ hentry
    have hfind := Entries.find?_of_mem h.distinct hentry
    have hkey := hplain key (List.mem_map_of_mem hentry)
    simp only [List.mem_cons, List.not_mem_nil, or_false] at hkey
    rcases hkey with rfl | rfl | rfl
    · rcases h.required with hsome | ⟨-, hnone⟩
      · obtain rfl := Option.some.inj (hsome.symm.trans hfind)
        exact hrequired
      · rw [hnone] at hfind
        cases hfind
    · rw [h.kind] at hfind
      obtain ⟨k, hk, rfl⟩ := Option.map_eq_some_iff.mp hfind
      exact hkind k hk
    · rw [h.minItems] at hfind
      obtain ⟨least, hleast, rfl⟩ := Option.map_eq_some_iff.mp hfind
      exact hminItems least hleast

/-! ### What the schema demands -/

theorem SaidBy.accepted (h : a.SaidBy entries) (hrequired : a.required.Nodup) (name : String) :
    ∃ plain, SchemaLinter.ofSchema name (.object entries) =
        .ok ⟨name, (Schema.Document.ofJson (.object plain)).validate⟩ ∧
      a.SaidBy plain ∧ ∀ key ∈ Entries.keys plain, key ∈ ["required", "type", "minItems"] := by
  obtain ⟨plain, hwithout, hsaid, hplain⟩ := h.exists_plain
  refine ⟨plain, SchemaLinter.ofSchema_eq_ok hsaid.distinct ?_ hwithout, hsaid, hplain⟩
  have hnames : ∀ references, Schema.Document.Accepts references "required"
      (.array (a.required.map .string)) := fun _ => Schema.Document.accepts_required hrequired
  rw [hsaid.forall_mem hplain fun hnil => by simpa [hnil] using hnames]
  exact ⟨hnames, fun k _ _ => Schema.Document.accepts_kind k,
    fun least _ _ => Schema.Document.accepts_minItems least⟩

theorem mem_partsOf {known : Option (List (String × Schema))} {restricted : Bool} {s : Schema} :
    s ∈ Schema.partsOf known restricted entries ↔
      ∃ entry ∈ entries, s ∈ Schema.partOf known restricted entry := by
  induction entries with
  | nil => simp [Schema.partsOf]
  | cons entry entries ih => simp [Schema.partsOf, ih]

section Valid

variable {refs : Schema.Meaning} {known : Option (List (String × Schema))} {restricted : Bool}
  {path : Json.Path} {v : Json}

/-- A value meets the part of a schema that one member stands for. -/
def Meets (refs : Schema.Meaning) (known : Option (List (String × Schema))) (restricted : Bool)
    (path : Json.Path) (v : Json) (entry : String × Json) : Prop :=
  ∀ s ∈ Schema.partOf known restricted entry, violations refs s path v = []

theorem violations_ofJson (href : "$ref" ∉ entries.keys) :
    violations refs (Schema.ofJson (.object entries)) path v = [] ↔
      ∀ entry ∈ entries, Meets refs (Schema.knownOf entries)
        ((entries.find? "additionalProperties").any Schema.restricts) path v entry := by
  rw [Schema.ofJson, Entries.find?_eq_none.mpr href]
  dsimp only
  rw [violations_all_eq_nil]
  simp only [mem_partsOf, Meets]
  exact ⟨fun h entry hentry s hs => h s ⟨entry, hentry, hs⟩,
    fun h s ⟨entry, hentry, hs⟩ => h entry hentry s hs⟩

theorem meets_check {keyword : String} {u : Json} {c : Schema.Check}
    (hc : Schema.partOf known restricted (keyword, u) = [.check c]) :
    Meets refs known restricted path v (keyword, u) ↔ c.faults v = [] := by
  rw [Meets, hc, List.forall_mem_singleton, violations_check_eq_nil]

theorem meets_required {keys : List String} :
    Meets refs known restricted path v ("required", .array (keys.map .string)) ↔
      CheckedRule.hasRequired keys v = true := by
  have hkeys : (keys.map Json.string).mapM Schema.stringOf? = some keys := by
    induction keys with
    | nil => rfl
    | cons key keys ih => simp [ih, Schema.stringOf?]
  have hpart : Schema.partOf known restricted ("required", .array (keys.map .string)) =
      [.check (.required keys)] := by
    rw [Schema.partOf]
    simp [Schema.Check.ofKeyword?, hkeys]
  rw [meets_check hpart]
  cases v with
  | object members =>
      simp [Schema.Check.faults, CheckedRule.hasRequired, Option.isSome_iff_ne_none]
  | null | bool | number | string | array =>
      simp [Schema.Check.faults, CheckedRule.hasRequired]

theorem meets_kind {k : Json.Kind} :
    Meets refs known restricted path v ("type", .string k.name) ↔
      k.holds Json.Kind.isWhole v = true := by
  have hpart : Schema.partOf known restricted ("type", .string k.name) =
      [.check (.kinds [k])] := by
    cases k <;> rfl
  rw [meets_check hpart, Schema.Check.faults, faultUnless_eq_nil, List.any_cons, List.any_nil,
    Bool.or_false]

theorem meets_minItems {least : Nat} :
    Meets refs known restricted path v ("minItems", .ofNat least) ↔
      CheckedRule.hasItems (some least) v = true := by
  have hpart : Schema.partOf known restricted ("minItems", .ofNat least) =
      [.check (.minItems least)] := rfl
  rw [meets_check hpart]
  cases v with
  | array items => rw [Schema.Check.faults, faultUnless_eq_nil, CheckedRule.hasItems]
  | null | bool | number | string | object => simp [Schema.Check.faults, CheckedRule.hasItems]

/-- A value meets the schema of an assertion if it has the required keys and enough items and is of
the kind, where any number without a fraction is an integer. -/
theorem SaidBy.violations_eq_nil (h : a.SaidBy entries)
    (hplain : ∀ key ∈ entries.keys, key ∈ ["required", "type", "minItems"]) :
    violations refs (Schema.ofJson (.object entries)) path v = [] ↔
      CheckedRule.hasRequired a.required v = true ∧
      (∀ k, a.kind = some k → k.holds Json.Kind.isWhole v = true) ∧
      CheckedRule.hasItems a.minItems v = true := by
  have href : "$ref" ∉ entries.keys := fun hmem => absurd (hplain _ hmem) (by decide)
  have hempty : CheckedRule.hasRequired [] v = true := by cases v <;> rfl
  have hitems : (∀ least, a.minItems = some least → CheckedRule.hasItems (some least) v = true) ↔
      CheckedRule.hasItems a.minItems v = true := by
    cases a.minItems with
    | none => simp [CheckedRule.hasItems]
    | some least => simp
  rw [violations_ofJson href, h.forall_mem hplain fun _ => meets_required.mpr hempty]
  simp only [meets_required, meets_kind, meets_minItems, hitems]

end Valid

end Assertion

/-! ### What the rule demands -/

/-- A number that was read as a double and has no fraction. -/
def IsWholeDouble (v : Json) : Prop := ∃ x : Binary64, v = .number (.real x) ∧ x.isWhole = true

theorem holds_isWhole_iff {k : Json.Kind} {v : Json} : k.holds Json.Kind.isWhole v = true ↔
    k.holds Json.Kind.isInteger v = true ∨ k = .integer ∧ IsWholeDouble v := by
  cases k with
  | integer =>
      cases v with
      | number n => cases n <;> simp [Json.Kind.holds, Json.Kind.isWhole, Json.Kind.isInteger,
          IsWholeDouble]
      | null | bool | string | array | object => simp [Json.Kind.holds, IsWholeDouble]
  | array | boolean | null | number | object | string => cases v <;> simp [Json.Kind.holds]

theorem not_isInteger_of_wholeDouble {v : Json} (h : IsWholeDouble v) :
    Json.Kind.integer.holds Json.Kind.isInteger v = false := by
  obtain ⟨x, rfl, -⟩ := h
  rfl

section Rule

variable {rule : Rule} {text : String}

/-- A rule about the whole document, ready for use. -/
def wholeDocument (name : String) (rule : Rule) : CheckedRuleSet :=
  ⟨name, [⟨rule, ⟨"$", []⟩, none⟩]⟩

theorem ofRuleSet_single {s : RuleSet} (hrules : s.rules = [rule]) (henabled : rule.enabled = true)
    (hgiven : rule.given = "$") (hpattern : rule.assertion.pattern = none) :
    CheckedRuleSet.ofRuleSet s = .ok (wholeDocument s.name rule) := by
  have hselector : Json.Selector.parse rule.given = .ok ⟨"$", []⟩ := by
    rw [hgiven]
    decide +kernel
  have hrule : CheckedRule.ofRuleBy Pattern.plainEngine rule = .ok ⟨rule, ⟨"$", []⟩, none⟩ := by
    rw [CheckedRule.ofRuleBy, hselector]
    dsimp only
    rw [hpattern]
  rw [CheckedRuleSet.ofRuleSet, CheckedRuleSet.ofRuleSetBy, hrules,
    List.filter_cons_of_pos henabled, List.filter_nil, List.mapM_cons, hrule]
  rfl

theorem lint_wholeDocument {name : String} {v : Json} (hv : Json.parse text = .ok v) :
    (wholeDocument name rule).lint text = [] ↔
      CheckedRule.hasRequired rule.assertion.required v = true ∧
      (∀ k, rule.assertion.kind = some k → k.holds Json.Kind.isInteger v = true) ∧
      CheckedRule.hasItems rule.assertion.minItems v = true := by
  have hkind : (rule.assertion.kind.map fun k => k.holds Json.Kind.isInteger v).getD true = true ↔
      ∀ k, rule.assertion.kind = some k → k.holds Json.Kind.isInteger v = true := by
    cases rule.assertion.kind <;> simp
  simp only [CheckedRuleSet.lint_eq_nil, hv, Except.ok.injEq, exists_eq_left', wholeDocument,
    List.forall_mem_singleton, Json.Selector.select, List.foldl_nil, CheckedRule.holds,
    CheckedRule.matchesPattern, Bool.and_eq_true, hkind, and_assoc, true_and]

theorem SchemaLinter.lint_eq_nil_iff {name : String} {d : Schema.Document} {v : Json}
    (hv : Json.parse text = .ok v) :
    SchemaLinter.lint ⟨name, d.validate⟩ text = [] ↔ d.violations v = [] := by
  simp [SchemaLinter.lint, hv, Schema.Document.validate_eq_nil]

theorem Assertion.SaidBy.lint_eq_nil_iff {a : Assertion} {entries : Entries Json}
    (h : a.SaidBy entries) (hplain : ∀ key ∈ entries.keys, key ∈ ["required", "type", "minItems"])
    (name : String) {v : Json} (hv : Json.parse text = .ok v) :
    SchemaLinter.lint ⟨name, (Schema.Document.ofJson (.object entries)).validate⟩ text = [] ↔
      CheckedRule.hasRequired a.required v = true ∧
      (∀ k, a.kind = some k → k.holds Json.Kind.isWhole v = true) ∧
      CheckedRule.hasItems a.minItems v = true := by
  rw [SchemaLinter.lint_eq_nil_iff hv]
  exact h.violations_eq_nil hplain

/-- A rule about the whole document and the schema that says the same both can be used. On JSON texts
they report something or nothing alike, but that a rule that asks for an integer reports a double
without a fraction, of which the schema reports nothing. -/
theorem rule_agrees_but_for_whole_doubles {s : RuleSet} {entries : Entries Json}
    (hrules : s.rules = [rule]) (henabled : rule.enabled = true) (hgiven : rule.given = "$")
    (hpattern : rule.assertion.pattern = none) (hrequired : rule.assertion.required.Nodup)
    (hentries : rule.assertion.SaidBy entries) (name : String) :
    ∃ c d, CheckedRuleSet.ofRuleSet s = .ok c ∧ SchemaLinter.ofSchema name (.object entries) = .ok d ∧
      ∀ text v, Json.parse text = .ok v →
        (c.lint text ≠ [] ↔
          d.lint text ≠ [] ∨ rule.assertion.kind = some .integer ∧ IsWholeDouble v) ∧
        (rule.assertion.kind = some .integer → IsWholeDouble v → d.lint text = []) := by
  obtain ⟨plain, hschema, hsaid, hplain⟩ := hentries.accepted hrequired name
  refine ⟨wholeDocument s.name rule, _, ofRuleSet_single hrules henabled hgiven hpattern, hschema,
    fun text v hv => ?_⟩
  have hkind : (∀ k, rule.assertion.kind = some k → k.holds Json.Kind.isWhole v = true) ↔
      (∀ k, rule.assertion.kind = some k → k.holds Json.Kind.isInteger v = true) ∨
        rule.assertion.kind = some .integer ∧ IsWholeDouble v := by
    cases rule.assertion.kind with
    | none => simp
    | some k => simp [holds_isWhole_iff]
  have hvalid := hsaid.lint_eq_nil_iff hplain name hv
  rw [hkind] at hvalid
  have hdouble : rule.assertion.kind = some .integer ∧ IsWholeDouble v →
      CheckedRule.hasRequired rule.assertion.required v = true ∧
      CheckedRule.hasItems rule.assertion.minItems v = true ∧
      ¬ ∀ k, rule.assertion.kind = some k → k.holds Json.Kind.isInteger v = true := by
    rintro ⟨hinteger, hwhole⟩
    have hnot := not_isInteger_of_wholeDouble hwhole
    obtain ⟨x, rfl, -⟩ := hwhole
    refine ⟨rfl, by cases rule.assertion.minItems <;> rfl, fun hall => ?_⟩
    rw [hall _ hinteger] at hnot
    cases hnot
  constructor
  · by_cases hcase : rule.assertion.kind = some .integer ∧ IsWholeDouble v
    · have hrule : (wholeDocument s.name rule).lint text ≠ [] := fun hnil =>
        (hdouble hcase).2.2 ((lint_wholeDocument hv).mp hnil).2.1
      exact iff_of_true hrule (.inr hcase)
    · rw [or_iff_left hcase] at hvalid
      rw [or_iff_left hcase, ne_eq, ne_eq, lint_wholeDocument hv, hvalid]
  · intro hinteger hwhole
    obtain ⟨hkeys, hitems, -⟩ := hdouble ⟨hinteger, hwhole⟩
    exact hvalid.mpr ⟨hkeys, .inr ⟨hinteger, hwhole⟩, hitems⟩

/-- Objects with two keys. -/
def orderRule : Rule := .ofAssertion "order" "$" ⟨["id", "name"], some .object, none, some 2⟩ "No order"

/-- The same as a schema, with the keywords in another order and an identity. -/
def orderSchema : Entries Json :=
  [("type", .string "object"), ("$id", .string "order"), ("minItems", .ofNat 2),
    ("required", .array [.string "id", .string "name"])]

theorem rule_agrees_but_for_whole_doubles_order : ∃ c d,
    CheckedRuleSet.ofRuleSet ⟨"orders", "", none, [orderRule]⟩ = .ok c ∧
    SchemaLinter.ofSchema "order" (.object orderSchema) = .ok d ∧
    c.lint "\x7b\"id\":1\x7d" ≠ [] ∧ d.lint "\x7b\"id\":1\x7d" ≠ [] := by
  have hrules : (⟨"orders", "", none, [orderRule]⟩ : RuleSet).rules = [orderRule] := rfl
  have hsaid : orderRule.assertion.SaidBy orderSchema :=
    ⟨by decide, .inl rfl, rfl, rfl, by decide⟩
  obtain ⟨c, d, hc, hd, hagree⟩ :=
    rule_agrees_but_for_whole_doubles hrules rfl rfl rfl (by decide) hsaid "order"
  have hparse : Json.parse "\x7b\"id\":1\x7d" = .ok (.object [("id", .number (.integer 1))]) :=
    Json.eq_ok_of_toOption (by decide +kernel)
  have hrule : c.lint "\x7b\"id\":1\x7d" ≠ [] := by
    rw [ofRuleSet_single rfl rfl rfl rfl] at hc
    obtain rfl := Except.ok.inj hc
    rw [ne_eq, lint_wholeDocument hparse]
    exact fun h => absurd h.1 (by decide)
  rcases (hagree _ _ hparse).1.mp hrule with hschema | ⟨hkind, -⟩
  · exact ⟨c, d, hc, hd, hrule, hschema⟩
  · cases hkind

/-- The whole document is an integer. -/
def integerRule : Rule := .ofAssertion "integer" "$" ⟨[], some .integer, none, none⟩ "No integer"

/-- The least integer that needs more than 64 bits. -/
def wideInteger : String := "18446744073709551616"

/-- Not every rule about the whole document agrees with the schema that says the same: what the schema
takes for an integer may be none for the rule. -/
theorem wide_integer_is_none_for_rules :
    ¬ ∀ (s : RuleSet) (rule : Rule) (entries : Entries Json) (name : String) (c : CheckedRuleSet)
      (d : SchemaLinter), s.rules = [rule] → rule.enabled = true → rule.given = "$" →
      rule.assertion.pattern = none → rule.assertion.required.Nodup →
      rule.assertion.SaidBy entries → CheckedRuleSet.ofRuleSet s = .ok c →
      SchemaLinter.ofSchema name (.object entries) = .ok d →
      ∀ text v, Json.parse text = .ok v → (c.lint text ≠ [] ↔ d.lint text ≠ []) := by
  intro h
  have hsaid : integerRule.assertion.SaidBy [("type", .string "integer")] :=
    ⟨by decide, .inr ⟨rfl, rfl⟩, rfl, rfl, by decide⟩
  have hschema : SchemaLinter.ofSchema "integer" (.object [("type", .string "integer")]) =
      .ok ⟨"integer", (Schema.Document.ofJson (.object [("type", .string "integer")])).validate⟩ := by
    refine SchemaLinter.ofSchema_eq_ok hsaid.distinct ?_ rfl
    rw [List.forall_mem_singleton]
    exact fun _ => Schema.Document.accepts_kind .integer
  have hparse : Json.parse wideInteger = .ok (.number (.real ⟨false, Nat.pow 2 52, 12⟩)) :=
    Json.eq_ok_of_toOption (by decide +kernel)
  have hreported := h ⟨"integers", "", none, [integerRule]⟩ integerRule _ "integer" _ _ rfl rfl rfl
    rfl .nil hsaid (ofRuleSet_single rfl rfl rfl rfl) hschema wideInteger _ hparse
  refine hreported.mp (fun hrule => ?_) ((hsaid.lint_eq_nil_iff (by decide) _ hparse).mpr ?_)
  · have hinteger := ((lint_wholeDocument hparse).mp hrule).2.1 .integer rfl
    cases hinteger
  · refine ⟨rfl, ?_, rfl⟩
    rintro k ⟨⟩
    decide +kernel

end Rule

end ResourceApi.Lint
