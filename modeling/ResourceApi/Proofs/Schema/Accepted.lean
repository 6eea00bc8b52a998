import ResourceApi.Proofs.Schema.Valid

/-!
What the schema of schemas accepts: lists of distinct names, names of kinds and counts. An object is
a schema if the value of each of its keywords is one that the keyword may have.
-/

namespace ResourceApi.Schema

variable {refs : Meaning} {path : Json.Path} {v : Json}

/-! ### Members of objects -/

/-- Without repeated keys, what is said about known members is said about the members that there
are. -/
theorem violations_properties_eq_nil_of_nodup {known : List (String × Schema)}
    {entries : Entries Json} (hknown : (Entries.keys known).Nodup) (hentries : entries.keys.Nodup) :
    violations refs (.properties known) path (.object entries) = [] ↔
      ∀ entry ∈ entries, ∀ s, Entries.find? entry.1 known = some s →
        violations refs s (path ++ [.key entry.1]) entry.2 = [] := by
  rw [violations_properties_eq_nil]
  constructor
  · intro h entry hentry s hs
    exact h (entry.1, s) (Entries.mem_of_find? hs) entry.2 (Entries.find?_of_mem hentries hentry)
  · intro h entry hentry u hu
    exact h (entry.1, u) (Entries.mem_of_find? hu) entry.2 (Entries.find?_of_mem hknown hentry)

/-! ### Distinct values -/

theorem allDistinct_eq_true {equal : Json → Json → Bool} {vs : List Json} :
    allDistinct equal vs = true ↔ vs.Pairwise fun v u => equal v u = false := by
  induction vs with
  | nil => simp [allDistinct]
  | cons v vs ih =>
      rw [allDistinct, List.pairwise_cons, Bool.and_eq_true, ih, Bool.not_eq_true',
        List.any_eq_false]
      simp only [Bool.not_eq_true]

theorem hasUniqueItems_strings {names : List String} (h : names.Nodup) :
    hasUniqueItems (names.map .string) = true := by
  have hdistinct : ∀ number, allDistinct (Json.equalBy number) (names.map .string) = true := by
    intro number
    rw [allDistinct_eq_true, List.pairwise_map]
    exact h.imp fun hne => by simpa [Json.equalBy] using hne
  rw [hasUniqueItems]
  split
  · exact hdistinct Json.Number.sameDouble
  · exact hdistinct Json.Number.sameKind

/-! ### References -/

namespace Document

variable {d : Document} {n : Nat} {references : List String}

theorem violations_reference {pointer : String} {s : Schema} (h : d.target? pointer = some s) :
    Schema.violations (d.meaning (n + 1)) (.reference pointer) path v =
      Schema.violations (d.meaning n) s path v := by
  rw [Schema.violations, meaning, h]

theorem target?_of_mem (references : List String) {pointer : String} {s : Schema}
    (h : (pointer, s) ∈ schemaDefinitions) :
    (schemaOfSchemas references).target? pointer = some s := by
  have hkeys : (Entries.keys schemaDefinitions).Nodup := by decide +kernel
  have hroot : rootReference ∉ Entries.keys schemaDefinitions := by decide +kernel
  have hpointer : pointer ≠ rootReference := by
    rintro rfl
    exact hroot (List.mem_map_of_mem h)
  rw [target?, if_neg hpointer]
  exact Entries.find?_of_mem hkeys h

theorem violations_stringArray {names : List String} (h : names.Nodup) :
    Schema.violations ((schemaOfSchemas references).meaning (n + 1)) (defined "stringArray") path
      (.array (names.map .string)) = [] := by
  have htarget := target?_of_mem references (.tail _ (.tail _ (.tail _ (.tail _ (.head _)))))
  rw [defined, violations_reference htarget, violations_all_eq_nil, List.forall_mem_cons,
    List.forall_mem_cons, List.forall_mem_singleton]
  refine ⟨violations_ofKind_eq_nil.mpr rfl, ?_, ?_⟩
  · rw [violations_items_eq_nil]
    intro i u hu
    obtain ⟨name, -, rfl⟩ := List.mem_map.mp (List.mem_of_getElem? hu)
    exact violations_ofKind_eq_nil.mpr rfl
  · rw [violations_check_eq_nil, Check.faults, faultUnless_eq_nil]
    exact hasUniqueItems_strings h

theorem violations_count (m : Nat) :
    Schema.violations ((schemaOfSchemas references).meaning (n + 2))
      (defined "nonNegativeIntegerDefault0") path (.ofNat m) = [] := by
  have hdefault := target?_of_mem references (.tail _ (.tail _ (.head _)))
  have hcount := target?_of_mem references (.tail _ (.head _))
  rw [defined, violations_reference hdefault, violations_all_eq_nil, List.forall_mem_singleton,
    violations_all_eq_nil, List.forall_mem_cons, List.forall_mem_singleton, defined,
    violations_reference hcount, violations_all_eq_nil, List.forall_mem_cons,
    List.forall_mem_singleton]
  refine ⟨⟨violations_ofKind_eq_nil.mpr rfl, ?_⟩, violations_all_eq_nil.mpr (by simp)⟩
  rw [Json.ofNat, violations_check_eq_nil, Check.faults, faultUnless_eq_nil]
  have hcompare : Json.Number.compare (.integer m) (.integer 0) ≠ .lt := by
    rw [Json.Number.compare, Json.Number.toFraction, Json.Number.toFraction, ne_eq,
      Int.compare_eq_lt]
    omega
  exact decide_eq_true hcompare

theorem violations_kindName (k : Json.Kind) :
    Schema.violations ((schemaOfSchemas references).meaning (n + 1)) (defined "simpleTypes") path
      (.string k.name) = [] := by
  have htarget := target?_of_mem references (.tail _ (.tail _ (.tail _ (.head _))))
  rw [defined, violations_reference htarget, violations_all_eq_nil, List.forall_mem_singleton,
    violations_check_eq_nil, Check.faults, faultUnless_eq_nil]
  have hk : k ∈ Json.Kind.all := by cases k <;> decide
  exact List.any_eq_true.mpr
    ⟨.string k.name, List.mem_map_of_mem hk, by simp [Json.equal, Json.equalBy]⟩

/-- A value of a keyword is accepted if references are followed at least twice. -/
def Accepts (references : List String) (keyword : String) (v : Json) : Prop :=
  ∀ s, Entries.find? keyword (keywords references) = some s → ∀ n path,
    Schema.violations ((schemaOfSchemas references).meaning (n + 2)) s path v = []

theorem violations_schemaOfSchemas {entries : Entries Json} (hentries : entries.keys.Nodup)
    (h : ∀ entry ∈ entries, Accepts references entry.1 entry.2) :
    (schemaOfSchemas references).violations (.object entries) = [] := by
  have hnames : Entries.keys (keywords references) = Entries.keys (keywords []) := rfl
  have hkeywords : (Entries.keys (keywords references)).Nodup := by
    rw [hnames]
    decide +kernel
  obtain ⟨n, hn⟩ :
      ∃ n, (schemaOfSchemas references).referenceLimit (.object entries) = n + 2 := by
    refine ⟨(schemaOfSchemas references).referenceLimit (.object entries) - 2, ?_⟩
    have hlimit : (schemaOfSchemas references).referenceLimit (.object entries) =
        6 * ((Json.object entries).depth + 1) := rfl
    omega
  have hroot : (schemaOfSchemas references).root =
      .all [.check (.kinds [.boolean, .object]), .properties (keywords references)] := rfl
  rw [violations, hn, hroot, violations_all_eq_nil, List.forall_mem_cons,
    List.forall_mem_singleton, violations_properties_eq_nil_of_nodup hkeywords hentries]
  exact ⟨violations_check_eq_nil.mpr rfl, fun entry hentry s hs => h entry hentry s hs n _⟩

theorem check_eq_ok {entries : Entries Json} (hentries : entries.keys.Nodup)
    (h : ∀ entry ∈ entries, ∀ references, Accepts references entry.1 entry.2) :
    check (.object entries) = .ok (ofJson (.object entries)) := by
  rw [check, violations_schemaOfSchemas hentries fun entry hentry => h entry hentry _]

theorem accepts_required {names : List String} (h : names.Nodup) :
    Accepts references "required" (.array (names.map .string)) := by
  rintro s ⟨⟩ n path
  exact violations_stringArray h

theorem accepts_kind (k : Json.Kind) : Accepts references "type" (.string k.name) := by
  rintro s ⟨⟩ n path
  exact violations_any_eq_nil.mpr ⟨_, List.mem_cons_self, violations_kindName k⟩

theorem accepts_minItems (least : Nat) : Accepts references "minItems" (.ofNat least) := by
  rintro s ⟨⟩ n path
  exact violations_count least

end Document

end ResourceApi.Schema
