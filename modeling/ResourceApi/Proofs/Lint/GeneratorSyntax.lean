import ResourceApi.Lint.Builtin
import ResourceApi.Proofs.Lint.Violations
import ResourceApi.Proofs.Pattern.Matching

/-!
What the built-in rules for resource descriptions say of a text on which they report nothing. Rules
about the members of an object say nothing of values of other kinds, so a document, a contact and a
resource escape them if they are no objects; only for the list of resources a rule demands its kind.
-/

namespace ResourceApi

/-! ### Parts that are picked -/

namespace Json

namespace Selector

variable {P : Selected → Prop} {s : Selected}

theorem forall_mem_child {name : String} : (∀ part ∈ (Segment.child name).pick s, P part) ↔
    ∀ u, s.value.member? name = some u → P ⟨s.path ++ [.key name], u⟩ := by
  simp only [Segment.pick, childAt, Option.mem_toList, Option.map_eq_some_iff,
    forall_exists_index, and_imp, forall_apply_eq_imp_iff₂]

theorem forall_mem_wildcard : (∀ part ∈ Segment.wildcard.pick s, P part) ↔
    ∀ child ∈ s.value.children, P ⟨s.path ++ [child.1], child.2⟩ := by
  simp only [Segment.pick, List.forall_mem_map]

end Selector

theorem exists_object_of_member? {v u : Json} {key : String} (h : v.member? key = some u) :
    ∃ members, v = .object members := by
  cases v with
  | object members => exact ⟨members, rfl⟩
  | null | bool | number | string | array => cases h

theorem forall_mem_children_array {items : List Json} {P : Json → Prop} :
    (∀ child ∈ (Json.array items).children, P child.2) ↔ ∀ item ∈ items, P item := by
  rw [children]
  constructor
  · intro h item hitem
    obtain ⟨i, hi, rfl⟩ := List.getElem_of_mem hitem
    exact h (.index i, items[i]) (List.mem_mapIdx.mpr ⟨i, hi, rfl⟩)
  · intro h child hchild
    obtain ⟨i, hi, rfl⟩ := List.mem_mapIdx.mp hchild
    exact h _ (List.getElem_mem hi)

end Json

namespace Lint

/-! ### Texts without diagnostics -/

namespace CheckedRuleSet

variable {s : RuleSet} {c : CheckedRuleSet} {text : String}

theorem evaluate_eq_nil {document : Json} {spans : Json.Spans} {whole : Span} :
    c.evaluate document spans whole = [] ↔
      ∀ rule ∈ c.rules, ∀ part ∈ rule.selector.select document, rule.holds part.value = true := by
  simp only [evaluate, CheckedRule.violations, List.flatMap_eq_nil_iff, List.map_eq_nil_iff,
    List.filter_eq_nil_iff, Bool.not_eq_true', Bool.not_eq_false]

theorem lint_eq_nil : c.lint text = [] ↔ ∃ v, Json.parse text = .ok v ∧
    ∀ rule ∈ c.rules, ∀ part ∈ rule.selector.select v, rule.holds part.value = true := by
  cases hparse : Json.parse text with
  | error e => simp [lint, hparse]
  | ok v => simp [lint, hparse, evaluate_eq_nil]

end CheckedRuleSet

/-- No part that a rule picks violates it. -/
def Rule.Kept (rule : Rule) (v : Json) : Prop :=
  ∀ selector, Json.Selector.parse rule.given = .ok selector →
    ∀ part ∈ selector.select v, ¬ Violates Pattern.plainEngine rule part.value

theorem Rule.kept_iff (rule : Rule) {selector : Json.Selector} {v : Json}
    (h : Json.Selector.parse rule.given = .ok selector) :
    rule.Kept v ↔ ∀ part ∈ selector.select v, ¬ Violates Pattern.plainEngine rule part.value := by
  simp only [Kept, h, Except.ok.injEq, forall_eq']

theorem CheckedRule.forall_holds_iff {rule : Rule} {c : CheckedRule}
    (h : Reads Pattern.plainEngine rule c) (v : Json) :
    (∀ part ∈ c.selector.select v, c.holds part.value = true) ↔ rule.Kept v := by
  have hpart : ∀ u, c.holds u = true ↔ ¬ Violates Pattern.plainEngine rule u := fun u => by
    rw [← holds_eq_false h u, Bool.not_eq_false]
  constructor
  · intro hall selector hselector part hmem
    obtain rfl := Except.ok.inj (h.selector.symm.trans hselector)
    exact (hpart part.value).mp (hall part hmem)
  · exact fun hkept part hmem => (hpart part.value).mpr (hkept _ h.selector part hmem)

/-- A rule set that can be used reports nothing on exactly the JSON texts that keep all its enabled
rules. -/
theorem CheckedRuleSet.lint_eq_nil_of_ofRuleSet {s : RuleSet} {c : CheckedRuleSet}
    (h : ofRuleSet s = .ok c) {text : String} :
    c.lint text = [] ↔ ∃ v, Json.parse text = .ok v ∧
      ∀ rule ∈ s.rules, rule.enabled = true → rule.Kept v := by
  obtain ⟨-, hrules⟩ := reads_of_ofRuleSetBy h
  have hkept : ∀ v, (∀ rule ∈ c.rules, ∀ part ∈ rule.selector.select v,
      rule.holds part.value = true) ↔
      ∀ rule ∈ s.rules.filter fun rule => rule.enabled, rule.Kept v := by
    intro v
    generalize (s.rules.filter fun rule => rule.enabled) = rules, c.rules = checked at hrules ⊢
    induction hrules with
    | nil => simp
    | cons hrule _ ih =>
        rw [List.forall_mem_cons, List.forall_mem_cons, ih, CheckedRule.forall_holds_iff hrule]
  simp only [lint_eq_nil, hkept, List.mem_filter, and_imp]

/-! ### What single rules say -/

def IsObject (v : Json) : Prop := ∃ members, v = .object members

/-- The value is a string with an ASCII letter, digit or underscore. -/
def HasWord (v : Json) : Prop :=
  ∃ s, v = .string s ∧ ∃ c ∈ s.toList, c.isAlphanum = true ∨ c = '_'

/-- The set of characters in the pattern of words. -/
def wordSet : Pattern.CharSet :=
  .unionAll [.range 'A' 'Z', .range 'a' 'z', .range '0' '9', .single '_']

theorem plainEngine_wordPattern :
    Pattern.plainEngine Rule.wordPattern = some (Pattern.many 1 none (.one wordSet)).matchesIn := by
  have hread : Pattern.ofText? .plain Rule.wordPattern = some (.many 1 none (.one wordSet)) := by
    decide +kernel
  rw [Pattern.plainEngine, hread, Option.map_some]

theorem contains_wordSet {c : Char} :
    wordSet.contains c = true ↔ c.isAlphanum = true ∨ c = '_' := by
  unfold Char.isAlphanum Char.isAlpha Char.isUpper Char.isLower Char.isDigit
  simp only [wordSet, Pattern.CharSet.unionAll, List.foldr_cons, List.foldr_nil,
    Pattern.CharSet.contains, Char.le_def, Bool.or_eq_true, Bool.and_eq_true, decide_eq_true_eq,
    Bool.or_false, ge_iff_le, or_assoc]

namespace Violates

variable {engine : Pattern.Engine} {v : Json} {name given message : String}

theorem not_requiring_iff {key : String} :
    ¬ Violates engine (.requiring name given [key] message) v ↔
    (IsObject v → ∃ u, v.member? key = some u) := by
  constructor
  · rintro h ⟨members, rfl⟩
    cases hfind : Entries.find? key members with
    | some u => exact ⟨u, hfind⟩
    | none => exact absurd (.required List.mem_cons_self (Entries.find?_eq_none.mp hfind)) h
  · intro h hviolates
    cases hviolates with
    | required hkey hmissing =>
        obtain rfl := List.mem_singleton.mp hkey
        obtain ⟨u, hu⟩ := h ⟨_, rfl⟩
        rw [Json.member?, Entries.find?_eq_none.mpr hmissing] at hu
        cases hu
    | kind hkind => cases hkind
    | pattern hsource => cases hsource
    | minItems hleast => cases hleast

theorem not_ofKind_iff {kind : Json.Kind} :
    ¬ Violates engine (.ofKind name given kind message) v ↔ OfKind kind v := by
  constructor
  · intro h
    by_contra hv
    exact h (.kind rfl hv)
  · intro h hviolates
    cases hviolates with
    | required hkey => cases hkey
    | kind hkind hv =>
        obtain rfl := Option.some.inj hkind
        exact hv h
    | pattern hsource => cases hsource
    | minItems hleast => cases hleast

theorem ofKind_boolean : OfKind .boolean v ↔ ∃ b, v = .bool b := by
  constructor
  · intro h
    cases h with
    | boolean b => exact ⟨b, rfl⟩
  · rintro ⟨b, rfl⟩
    exact .boolean b

theorem not_nonEmptyString_iff :
    ¬ Violates Pattern.plainEngine (.nonEmptyString name given message) v ↔ HasWord v := by
  have hword : ∀ s : String, (Pattern.many 1 none (.one wordSet)).matchesIn s = true ↔
      ∃ c ∈ s.toList, c.isAlphanum = true ∨ c = '_' := by
    intro s
    rw [Pattern.matchesIn_some_iff]
    simp only [contains_wordSet]
  constructor
  · intro h
    cases v with
    | string s =>
        refine ⟨s, rfl, (hword s).mp ?_⟩
        by_contra hs
        exact h (.pattern rfl plainEngine_wordPattern (Bool.of_not_eq_true hs))
    | null | bool | number | array | object => exact absurd (.kind rfl (by rintro ⟨⟩)) h
  · rintro ⟨s, rfl, hs⟩ hviolates
    cases hviolates with
    | kind hkind hv =>
        obtain rfl := Option.some.inj hkind
        exact hv (.string s)
    | pattern hsource hengine hnot =>
        obtain rfl := Option.some.inj hsource
        obtain rfl := Option.some.inj (plainEngine_wordPattern.symm.trans hengine)
        rw [(hword s).mpr hs] at hnot
        cases hnot

theorem not_nonEmptyArray_iff :
    ¬ Violates engine (.ofAssertion name given
      { Assertion.trivial with kind := some .array, minItems := some 1 } message) v ↔
      ∃ items, v = .array items ∧ items ≠ [] := by
  constructor
  · intro h
    cases v with
    | array items =>
        refine ⟨items, rfl, ?_⟩
        rintro rfl
        exact h (.minItems rfl Nat.zero_lt_one)
    | null | bool | number | string | object => exact absurd (.kind rfl (by rintro ⟨⟩)) h
  · rintro ⟨items, rfl, hitems⟩ hviolates
    cases hviolates with
    | kind hkind hv =>
        obtain rfl := Option.some.inj hkind
        exact hv (.array items)
    | minItems hleast hlength =>
        obtain rfl := Option.some.inj hleast
        exact hitems (List.length_eq_zero_iff.mp (Nat.lt_one_iff.mp hlength))

end Violates

/-! ### What the built-in rules say -/

/-- A member with the key is there, and it is a string with a word character. -/
def HasWordAt (key : String) (v : Json) : Prop := ∃ u, v.member? key = some u ∧ HasWord u

/-- Requiring a key and a word of the member with this key says nothing of values that are no
objects. -/
theorem required_and_word_iff {key : String} {v : Json} :
    ((IsObject v → ∃ u, v.member? key = some u) ∧ ∀ u, v.member? key = some u → HasWord u) ↔
      (IsObject v → HasWordAt key v) := by
  constructor
  · rintro ⟨hrequired, hword⟩ hobject
    obtain ⟨u, hu⟩ := hrequired hobject
    exact ⟨u, hu, hword u hu⟩
  · intro h
    refine ⟨fun hobject => ?_, fun u hu => ?_⟩
    · obtain ⟨u, hu, -⟩ := h hobject
      exact ⟨u, hu⟩
    · obtain ⟨w, hw, hword⟩ := h (Json.exists_object_of_member? hu)
      obtain rfl := Option.some.inj (hu.symm.trans hw)
      exact hword

/-- The paths of the built-in rules, with what they pick. -/
def generatorPaths : List (String × List Json.Selector.Segment) :=
  [("$", []), ("$.title", [.child "title"]), ("$.description", [.child "description"]),
    ("$.contact", [.child "contact"]), ("$.contact.email", [.child "contact", .child "email"]),
    ("$.contact.name", [.child "contact", .child "name"]),
    ("$.contact.url", [.child "contact", .child "url"]), ("$.resources", [.child "resources"]),
    ("$.resources[*]", [.child "resources", .wildcard]),
    ("$.resources[*].name", [.child "resources", .wildcard, .child "name"]),
    ("$.resources[*].plural", [.child "resources", .wildcard, .child "plural"]),
    ("$.resources[*].readonly", [.child "resources", .wildcard, .child "readonly"])]

theorem parse_generatorPaths : ∀ path ∈ generatorPaths,
    Json.Selector.parse path.1 = .ok ⟨path.1, path.2⟩ := by
  simp only [generatorPaths, List.forall_mem_cons, List.not_mem_nil, false_imp_iff,
    implies_true, and_true]
  exact ⟨rfl, rfl, rfl, rfl, rfl, rfl, rfl, rfl, rfl, rfl, rfl, rfl⟩

section Kept

variable {name given message : String} {selector : Json.Selector} {v : Json}

theorem kept_requiring (h : Json.Selector.parse given = .ok selector) {key : String} :
    ((Rule.requiring name given [key] message).enabled = true →
      (Rule.requiring name given [key] message).Kept v) ↔
      ∀ part ∈ selector.select v, IsObject part.value → ∃ u, part.value.member? key = some u := by
  simp only [Rule.kept_iff (.requiring name given [key] message) h,
    Violates.not_requiring_iff]
  exact forall_prop_of_true rfl

theorem kept_nonEmptyString (h : Json.Selector.parse given = .ok selector) :
    ((Rule.nonEmptyString name given message).enabled = true →
      (Rule.nonEmptyString name given message).Kept v) ↔
      ∀ part ∈ selector.select v, HasWord part.value := by
  simp only [Rule.kept_iff (.nonEmptyString name given message) h,
    Violates.not_nonEmptyString_iff]
  exact forall_prop_of_true rfl

theorem kept_boolean (h : Json.Selector.parse given = .ok selector) :
    ((Rule.ofKind name given .boolean message).enabled = true →
      (Rule.ofKind name given .boolean message).Kept v) ↔
      ∀ part ∈ selector.select v, ∃ b, part.value = .bool b := by
  simp only [Rule.kept_iff (.ofKind name given .boolean message) h,
    Violates.not_ofKind_iff, Violates.ofKind_boolean]
  exact forall_prop_of_true rfl

theorem kept_nonEmptyArray (h : Json.Selector.parse given = .ok selector) :
    ((Rule.ofAssertion name given
      { Assertion.trivial with kind := some .array, minItems := some 1 } message).enabled = true →
      (Rule.ofAssertion name given
        { Assertion.trivial with kind := some .array, minItems := some 1 } message).Kept v) ↔
      ∀ part ∈ selector.select v, ∃ items, part.value = .array items ∧ items ≠ [] := by
  simp only [Rule.kept_iff (.ofAssertion name given
    { Assertion.trivial with kind := some .array, minItems := some 1 } message) h,
    Violates.not_nonEmptyArray_iff]
  exact forall_prop_of_true rfl

end Kept

theorem forall_member_iff {key : String} {v : Json} {P : Json → Prop} :
    (IsObject v → ∀ u, v.member? key = some u → P u) ↔ ∀ u, v.member? key = some u → P u :=
  ⟨fun h u hu => h (Json.exists_object_of_member? hu) u hu, fun h _ => h⟩

/-- Only objects are looked at. -/
def IfObject (P : Json → Prop) (v : Json) : Prop := IsObject v → P v

/-- The value must be an object. -/
def AsObject (P : Json → Prop) (v : Json) : Prop := IsObject v ∧ P v

def DescribesContact (v : Json) : Prop :=
  HasWordAt "email" v ∧ HasWordAt "name" v ∧ HasWordAt "url" v

def DescribesResource (v : Json) : Prop :=
  HasWordAt "name" v ∧ HasWordAt "plural" v ∧
    ∀ u, v.member? "readonly" = some u → ∃ b, u = .bool b

/-- What makes a value a description of an API, where `part` says how contacts and resources are
looked at. -/
def DescribesApi (part : (Json → Prop) → Json → Prop) (v : Json) : Prop :=
  HasWordAt "title" v ∧ HasWordAt "description" v ∧
    (∃ contact, v.member? "contact" = some contact ∧ part DescribesContact contact) ∧
    ∃ items, v.member? "resources" = some (.array items) ∧ items ≠ [] ∧
      ∀ item ∈ items, part DescribesResource item

/-- What the built-in rules say of the parts of a value. The selectors are read once; then each rule
is a statement about members, and the two rules for one member make a pair. -/
theorem kept_generatorSyntax_iff_parts {v : Json} :
    (∀ rule ∈ RuleSet.generatorSyntax.rules, rule.enabled = true → rule.Kept v) ↔
      (IsObject v → HasWordAt "title" v) ∧ (IsObject v → HasWordAt "description" v) ∧
      (IsObject v → ∃ u, v.member? "contact" = some u) ∧
      (∀ u, v.member? "contact" = some u → IfObject DescribesContact u) ∧
      (IsObject v → ∃ u, v.member? "resources" = some u) ∧
      (∀ u, v.member? "resources" = some u → ∃ items, u = .array items ∧ items ≠ []) ∧
      ∀ u, v.member? "resources" = some u →
        ∀ child ∈ u.children, IfObject DescribesResource child.2 := by
  have hpaths := parse_generatorPaths
  simp only [generatorPaths, List.forall_mem_cons, List.not_mem_nil, false_imp_iff,
    implies_true, and_true] at hpaths
  obtain ⟨hroot, htitle, hdescription, hcontact, hemail, hname, hurl, hresources, hresource,
    hitemName, hplural, hreadonly⟩ := hpaths
  simp only [RuleSet.generatorSyntax, List.forall_mem_cons, List.not_mem_nil, false_imp_iff,
    implies_true, and_true, kept_requiring hroot, kept_nonEmptyString htitle,
    kept_nonEmptyString hdescription, kept_requiring hcontact, kept_nonEmptyString hemail,
    kept_nonEmptyString hname, kept_nonEmptyString hurl, kept_nonEmptyArray hresources,
    kept_requiring hresource, kept_nonEmptyString hitemName, kept_nonEmptyString hplural,
    kept_boolean hreadonly, Json.Selector.select, List.foldl_cons, List.foldl_nil,
    List.forall_mem_flatMap, Json.Selector.forall_mem_child, Json.Selector.forall_mem_wildcard]
  simp only [IfObject, DescribesContact, DescribesResource, imp_and, forall_and,
    ← required_and_word_iff, forall_member_iff, and_assoc]

/-- What the built-in rules say together. -/
theorem kept_generatorSyntax_iff {v : Json} :
    (∀ rule ∈ RuleSet.generatorSyntax.rules, rule.enabled = true → rule.Kept v) ↔
      IfObject (DescribesApi IfObject) v := by
  rw [kept_generatorSyntax_iff_parts]
  constructor
  · rintro ⟨htitle, hdescription, hcontact, hdescribed, hresources, harray, hitems⟩ hobject
    refine ⟨htitle hobject, hdescription hobject, ?_, ?_⟩
    · obtain ⟨contact, hmember⟩ := hcontact hobject
      exact ⟨contact, hmember, hdescribed contact hmember⟩
    · obtain ⟨u, hmember⟩ := hresources hobject
      obtain ⟨items, rfl, hne⟩ := harray u hmember
      exact ⟨items, hmember, hne, Json.forall_mem_children_array.mp (hitems _ hmember)⟩
  · intro h
    have hcontact : ∀ u, v.member? "contact" = some u → IfObject DescribesContact u := by
      intro u hu
      obtain ⟨-, -, ⟨contact, hmember, hdescribed⟩, -⟩ := h (Json.exists_object_of_member? hu)
      obtain rfl := Option.some.inj (hu.symm.trans hmember)
      exact hdescribed
    have hresources : ∀ u, v.member? "resources" = some u → ∃ items, u = .array items ∧
        items ≠ [] ∧ ∀ item ∈ items, IfObject DescribesResource item := by
      intro u hu
      obtain ⟨-, -, -, items, hmember, hne, hitems⟩ := h (Json.exists_object_of_member? hu)
      obtain rfl := Option.some.inj (hu.symm.trans hmember)
      exact ⟨items, rfl, hne, hitems⟩
    refine ⟨fun hobject => (h hobject).1, fun hobject => (h hobject).2.1, fun hobject => ?_,
      hcontact, fun hobject => ?_, fun u hu => ?_, fun u hu => ?_⟩
    · obtain ⟨-, -, ⟨contact, hmember, -⟩, -⟩ := h hobject
      exact ⟨contact, hmember⟩
    · obtain ⟨-, -, -, items, hmember, -⟩ := h hobject
      exact ⟨_, hmember⟩
    · obtain ⟨items, rfl, hne, -⟩ := hresources u hu
      exact ⟨items, rfl, hne⟩
    · obtain ⟨items, rfl, -, hitems⟩ := hresources u hu
      exact Json.forall_mem_children_array.mpr hitems

/-- The built-in rules report nothing on exactly the JSON texts of values that describe an API as
far as they are objects: nothing is asked of a document, a contact or a resource of another kind. -/
theorem generatorSyntax_reports_nothing_iff (text : String) :
    Builtin.generatorSyntax.linter.lint text = [] ↔
      ∃ v, Json.parse text = .ok v ∧ IfObject (DescribesApi IfObject) v := by
  have hlint : Builtin.generatorSyntax.linter.lint text =
      CheckedRuleSet.generatorSyntax.lint text := rfl
  rw [hlint, CheckedRuleSet.lint_eq_nil_of_ofRuleSet CheckedRuleSet.ofRuleSet_generatorSyntax]
  simp only [kept_generatorSyntax_iff]

/-- A description whose only resource is a string. -/
def namedResourceText : String :=
  "\x7b\"title\":\"T\",\"description\":\"D\","
    ++ "\"contact\":\x7b\"name\":\"A\",\"email\":\"a@b.nl\",\"url\":\"a:b\"\x7d,"
    ++ "\"resources\":[\"orders\"]\x7d"

/-- Not every text without diagnostics is an object with a contact and resources that are objects.
-/
theorem generatorSyntax_misses_other_kinds :
    ¬ ∀ text, Builtin.generatorSyntax.linter.lint text = [] →
      ∃ v, Json.parse text = .ok v ∧ AsObject (DescribesApi AsObject) v := by
  intro h
  have hlint : Builtin.generatorSyntax.linter.lint namedResourceText = [] :=
    List.isEmpty_iff.mp (by decide +kernel)
  obtain ⟨v, hv, -, -, -, -, items, hitems, -, hall⟩ := h namedResourceText hlint
  have hresources : (Json.parse namedResourceText).toOption.bind (Json.member? "resources") =
      some (.array [.string "orders"]) := by
    decide +kernel
  rw [hv] at hresources
  obtain rfl := Json.array.inj (Option.some.inj (hitems.symm.trans hresources))
  obtain ⟨⟨members, hmembers⟩, -⟩ := hall _ List.mem_cons_self
  cases hmembers

end Lint

end ResourceApi
