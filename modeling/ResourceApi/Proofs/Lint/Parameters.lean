import ResourceApi.Lint.Builtin
import ResourceApi.Proofs.Descriptions
import ResourceApi.Proofs.Schema.Valid

/-!
The linter of resource descriptions and the reader of resource descriptions. A text without
diagnostics says everything that a description needs; it is refused only where it repeats the name
of a field, which the linter does not see.
-/

namespace ResourceApi

/-! ### What valid values say -/

namespace Schema

variable {refs : Meaning} {path : Json.Path} {v : Json}

theorem eq_string_of_all {parts : List Schema} (hparts : ofKind .string ∈ parts)
    (h : violations refs (.all parts) path v = []) : ∃ s, v = .string s := by
  have hkind := violations_all_eq_nil.mp h _ hparts
  exact holds_string.mp (violations_ofKind_eq_nil.mp hkind)

theorem eq_object_of_all {parts : List Schema} (hparts : ofKind .object ∈ parts)
    (h : violations refs (.all parts) path v = []) : ∃ entries, v = .object entries := by
  have hkind := violations_all_eq_nil.mp h _ hparts
  exact holds_object.mp (violations_ofKind_eq_nil.mp hkind)

section Members

variable {entries : Entries Json} {names : List String} {known : List (String × Schema)}
  {parts : List Schema}

theorem exists_required (hnames : .check (.required names) ∈ parts)
    (h : violations refs (.all parts) path (.object entries) = []) {key : String}
    (hkey : key ∈ names) : ∃ u, (Json.object entries).member? key = some u := by
  have hcheck := violations_all_eq_nil.mp h _ hnames
  exact Option.isSome_iff_exists.mp (violations_required_eq_nil.mp hcheck key hkey)

/-- A member that is required and known is there, and it is valid. -/
theorem exists_member (hnames : .check (.required names) ∈ parts)
    (hknown : .properties known ∈ parts)
    (h : violations refs (.all parts) path (.object entries) = []) (key : String) {s : Schema}
    (hkey : key ∈ names) (hs : (key, s) ∈ known) :
    ∃ u, (Json.object entries).member? key = some u ∧
      violations refs s (path ++ [.key key]) u = [] := by
  obtain ⟨u, hu⟩ := exists_required hnames h hkey
  have hmembers := violations_properties_eq_nil.mp (violations_all_eq_nil.mp h _ hknown)
  exact ⟨u, hu, hmembers (key, s) hs u hu⟩

theorem exists_string_member (hnames : .check (.required names) ∈ parts)
    (hknown : .properties known ∈ parts)
    (h : violations refs (.all parts) path (.object entries) = []) (key : String)
    {stringParts : List Schema} (hkey : key ∈ names) (hs : (key, .all stringParts) ∈ known)
    (hstring : ofKind .string ∈ stringParts) :
    ∃ s, (Json.object entries).member? key = some (.string s) := by
  obtain ⟨u, hu, hvalid⟩ := exists_member hnames hknown h key hkey hs
  obtain ⟨s, rfl⟩ := eq_string_of_all hstring hvalid
  exact ⟨s, hu⟩

/-- A member of an object without unknown members is valid. -/
theorem valid_of_closed (hknown : .closed known ∈ parts)
    (h : violations refs (.all parts) path (.object entries) = []) (key : String) {s : Schema}
    (hs : Entries.find? key known = some s) {u : Json}
    (hu : (Json.object entries).member? key = some u) :
    violations refs s (path ++ [.key key]) u = [] := by
  have hclosed := violations_closed_eq_nil.mp (violations_all_eq_nil.mp h _ hknown)
  obtain ⟨t, ht, hvalid⟩ := hclosed (key, u) (Entries.mem_of_find? hu)
  obtain rfl := Option.some.inj (hs.symm.trans ht)
  exact hvalid

theorem exists_string_closed (hnames : .check (.required names) ∈ parts)
    (hknown : .closed known ∈ parts)
    (h : violations refs (.all parts) path (.object entries) = []) (key : String)
    {stringParts : List Schema} (hkey : key ∈ names)
    (hs : Entries.find? key known = some (.all stringParts))
    (hstring : ofKind .string ∈ stringParts) :
    ∃ s, (Json.object entries).member? key = some (.string s) := by
  obtain ⟨u, hu⟩ := exists_required hnames h hkey
  obtain ⟨s, rfl⟩ := eq_string_of_all hstring (valid_of_closed hknown h key hs hu)
  exact ⟨s, hu⟩

end Members

theorem exists_contact (h : violations refs contact path v = []) :
    ∃ c : Contact, c.StandsIn v := by
  obtain ⟨entries, rfl⟩ := eq_object_of_all (by simp) h
  have hmember := exists_string_member (.tail _ (.head _))
    (.tail _ (.tail _ (.head _))) h
  obtain ⟨name, hname⟩ := hmember "name" (by simp) (.head _) (.head _)
  obtain ⟨email, hemail⟩ := hmember "email" (by simp)
    (.tail _ (.head _)) (.head _)
  obtain ⟨url, hurl⟩ := hmember "url" (by simp)
    (.tail _ (.tail _ (.head _))) (.head _)
  exact ⟨⟨name, email, url⟩, hname, hemail, hurl⟩

theorem exists_resource (h : violations refs resource path v = []) :
    ∃ r : Resource, r.StandsIn v := by
  obtain ⟨entries, rfl⟩ := eq_object_of_all (by simp) h
  have hmember := exists_string_closed (.tail _ (.head _))
    (.tail _ (.tail _ (.head _))) h
  obtain ⟨name, hname⟩ := hmember "name" (by simp) rfl (.head _)
  obtain ⟨plural, hplural⟩ := hmember "plural" (by simp) rfl (.head _)
  cases hreadonly : (Json.object entries).member? "readonly" with
  | none => exact ⟨⟨name, plural, none⟩, hname, hplural, hreadonly⟩
  | some u =>
      have hvalid := valid_of_closed (.tail _ (.tail _ (.head _))) h "readonly" rfl hreadonly
      obtain ⟨b, rfl⟩ := holds_boolean.mp (violations_ofKind_eq_nil.mp hvalid)
      exact ⟨⟨name, plural, some b⟩, hname, hplural, hreadonly⟩

theorem exists_resources (h : violations refs resources path v = []) :
    ∃ items, v = .array items ∧ ∃ rs : List Resource, List.Forall₂ Resource.StandsIn rs items := by
  have hall := violations_all_eq_nil.mp h
  obtain ⟨items, rfl⟩ := holds_array.mp (violations_ofKind_eq_nil.mp (hall _ (.head _)))
  have hitems := violations_items_eq_nil.mp
    (hall _ (.tail _ (.tail _ (.head _))))
  have hexists : ∀ item ∈ items, ∃ r : Resource, r.StandsIn item := by
    intro item hitem
    obtain ⟨i, hi⟩ := List.mem_iff_getElem?.mp hitem
    exact exists_resource (hitems i item hi)
  refine ⟨items, rfl, ?_⟩
  clear hall hitems h
  induction items with
  | nil => exact ⟨[], .nil⟩
  | cons item items ih =>
      obtain ⟨hitem, hexists⟩ := List.forall_mem_cons.mp hexists
      obtain ⟨r, hr⟩ := hitem
      obtain ⟨rs, hrs⟩ := ih hexists
      exact ⟨r :: rs, .cons hr hrs⟩

/-- A valid value says everything that a description needs. -/
theorem exists_description (h : violations refs parameters path v = []) :
    ∃ d : Description, d.StandsIn v := by
  obtain ⟨entries, rfl⟩ := eq_object_of_all (by simp) h
  have hrequired : .check (.required ["title", "description", "contact", "resources"]) ∈
      [properties [("title", nonEmptyString), ("description", nonEmptyString),
        ("contact", contact), ("resources", resources)],
      .check (.required ["title", "description", "contact", "resources"]), ofKind .object] :=
    .tail _ (.head _)
  have hmember := exists_member hrequired (.head _) h
  have hstring := exists_string_member hrequired (.head _) h
  obtain ⟨title, htitle⟩ := hstring "title" (by simp) (.head _) (.head _)
  obtain ⟨description, hdescription⟩ := hstring "description" (by simp)
    (.tail _ (.head _)) (.head _)
  obtain ⟨u, hu, hvalid⟩ := hmember "contact" (by simp)
    (.tail _ (.tail _ (.head _)))
  obtain ⟨c, hc⟩ := exists_contact hvalid
  obtain ⟨array, harray, hvalid⟩ := hmember "resources" (by simp) (.tail _
    (.tail _ (.tail _ (.head _))))
  obtain ⟨items, rfl, rs, hrs⟩ := exists_resources hvalid
  exact ⟨⟨title, description, c, rs⟩, htitle, hdescription, ⟨u, hu, hc⟩, items, harray, hrs⟩

end Schema

/-! ### Texts without diagnostics -/

namespace Lint

theorem SchemaLinter.lint_eq_nil {c : SchemaLinter} {text : String} (h : c.lint text = []) :
    ∃ v, Json.parse text = .ok v ∧ c.validate v = [] := by
  unfold SchemaLinter.lint at h
  cases hparse : Json.parse text with
  | error e =>
      rw [hparse] at h
      cases h
  | ok v =>
      rw [hparse] at h
      exact ⟨v, rfl, List.map_eq_nil_iff.mp h⟩

theorem exists_valid {text : String} (h : Builtin.parameters.linter.lint text = []) :
    ∃ v, Json.parse text = .ok v ∧
      (⟨Schema.parameters, []⟩ : Schema.Document).violations v = [] := by
  obtain ⟨v, hparse, hvalid⟩ := SchemaLinter.lint_eq_nil h
  exact ⟨v, hparse, Schema.Document.validate_eq_nil.mp hvalid⟩

/-- A text in which the linter finds nothing compiles exactly if it repeats no field, and then the
document is made from what the linted tree holds. -/
theorem linted_descriptions_compile {text : String}
    (h : Builtin.parameters.linter.lint text = []) :
    ∃ v w, Json.parse text = .ok v ∧
      Json.Reader.run (Json.Reader.everyMember Json.Reader.depthLimit) text = .ok w ∧
      ((∃ doc, Description.compileText text = .ok doc) ↔ ¬ Description.RepeatsField w) ∧
      ∀ doc, Description.compileText text = .ok doc →
        ∃ d, Description.parse text = .ok d ∧ doc = d.compile ∧ d.StandsIn v := by
  obtain ⟨v, hparse, hvalid⟩ := exists_valid h
  obtain ⟨d, hd⟩ := Schema.exists_description hvalid
  obtain ⟨w, hw, rfl⟩ := Json.parse_eq_ok.mp hparse
  have hread : ∀ {e}, Description.parse text = .ok e ↔ ¬ Description.RepeatsField w ∧ e = d :=
    Description.parse_eq_ok hw hd
  refine ⟨_, w, hparse, Json.everyMember_eq_ok.mpr hw, ⟨?_, ?_⟩, ?_⟩
  · rintro ⟨doc, hdoc⟩
    obtain ⟨e, he, -⟩ := Description.compileText_eq_ok.mp hdoc
    exact (hread.mp he).1
  · intro hfields
    exact ⟨d.compile, Description.compileText_eq_ok.mpr ⟨d, hread.mpr ⟨hfields, rfl⟩, rfl⟩⟩
  · intro doc hdoc
    obtain ⟨e, he, rfl⟩ := Description.compileText_eq_ok.mp hdoc
    obtain ⟨-, rfl⟩ := hread.mp he
    exact ⟨e, he, rfl, hd⟩

/-- A short description, with more members at its end. -/
def descriptionText (more : String) : String :=
  "\x7b\"title\":\"T\",\"description\":\"D\","
    ++ "\"contact\":\x7b\"name\":\"A\",\"email\":\"a@b.nl\",\"url\":\"a:b\"\x7d,"
    ++ "\"resources\":[\x7b\"name\":\"a\",\"plural\":\"b\"\x7d]" ++ more ++ "\x7d"

theorem linted_descriptions_compile_repeated_title :
    (∃ v d, Json.parse (descriptionText "") = .ok v ∧
      Description.compileText (descriptionText "") = .ok (Description.compile d) ∧ d.StandsIn v) ∧
    Builtin.parameters.linter.lint (descriptionText ",\"title\":\"U\"") = [] ∧
    ¬ ∃ doc, Description.compileText (descriptionText ",\"title\":\"U\"") = .ok doc := by
  have honce : Builtin.parameters.linter.lint (descriptionText "") = [] :=
    List.isEmpty_iff.mp (by decide +kernel)
  have htwice : Builtin.parameters.linter.lint (descriptionText ",\"title\":\"U\"") = [] :=
    List.isEmpty_iff.mp (by decide +kernel)
  refine ⟨?_, htwice, ?_⟩
  · obtain ⟨v, w, hv, -, -, hholds⟩ := linted_descriptions_compile honce
    have hread : (Description.parse (descriptionText "")).toOption.isSome = true := by
      decide +kernel
    obtain ⟨d, hd⟩ := Option.isSome_iff_exists.mp hread
    have hdoc := Description.compileText_eq_ok.mpr ⟨d, Json.eq_ok_of_toOption hd, rfl⟩
    obtain ⟨e, -, heq, he⟩ := hholds _ hdoc
    exact ⟨v, e, hv, heq ▸ hdoc, he⟩
  · obtain ⟨v, w, -, hw, hcompiles, -⟩ := linted_descriptions_compile htwice
    rw [hcompiles, not_not]
    have htitle : ((Json.Reader.run (Json.Reader.everyMember Json.Reader.depthLimit)
        (descriptionText ",\"title\":\"U\"")).toOption.any fun w =>
          decide (1 < w.countKey "title")) = true := by
      decide +kernel
    rw [hw] at htitle
    exact .root ⟨"title", List.mem_cons_self, of_decide_eq_true htitle⟩

end Lint

end ResourceApi
