import ResourceApi.Proofs.Lint.Parameters
import ResourceApi.Proofs.Naming.Plain
import ResourceApi.Proofs.OpenApi.OperationIds
import ResourceApi.Proofs.Pattern.Matching

/-!
Names in compiled descriptions. The linter of descriptions asks for plain names, so what is compiled
from a text without diagnostics has paths, schema keys and identifiers of a simple form.
-/

namespace ResourceApi

/-! ### Plain names -/

namespace Schema

open Naming (IsPlain)

variable {refs : Meaning} {path : Json.Path} {v : Json}

theorem isAlpha_of_letters {c : Char}
    (h : (Pattern.CharSet.union (.range 'A' 'Z') (.range 'a' 'z')).contains c = true) :
    c.isAlpha = true := by
  simp only [Pattern.CharSet.contains, Char.le_def, Bool.or_eq_true, Bool.and_eq_true,
    decide_eq_true_eq] at h
  unfold Char.isAlpha Char.isUpper Char.isLower
  simp only [Bool.or_eq_true, Bool.and_eq_true, decide_eq_true_eq]
  exact h

/-- A string with the pattern of names is a plain name. -/
theorem isPlain_of_words {s : String} (h : violations refs words path (.string s) = []) :
    IsPlain s := by
  have hcheck := violations_all_eq_nil.mp h _ (List.mem_cons_of_mem _ List.mem_cons_self)
  rw [violations_check_eq_nil, Check.faults, faultUnless_eq_nil] at hcheck
  obtain ⟨c, rest, hs, hfirst, hrest⟩ := Pattern.exists_cons_of_matchesIn hcheck
  refine ⟨c, rest, hs, isAlpha_of_letters hfirst, fun d hd => ?_⟩
  have hset := hrest d hd
  rw [Pattern.CharSet.unionAll, List.foldr_cons, Pattern.CharSet.contains, Bool.or_eq_true] at hset
  rcases hset with hletter | hset
  · exact .inl (Text.isAlphanum_of_isAlpha (isAlpha_of_letters hletter))
  · simp only [List.foldr_cons, List.foldr_nil, Pattern.CharSet.contains, Bool.or_eq_true,
      Bool.and_eq_true, decide_eq_true_eq, Char.le_def, Bool.false_eq_true, or_false] at hset
    rcases hset with hdigit | hset
    · left
      rw [Char.isAlphanum, Char.isDigit, Bool.or_eq_true, Bool.and_eq_true, decide_eq_true_eq,
        decide_eq_true_eq]
      exact .inr hdigit
    · exact .inr hset

theorem isPlain_of_resource (h : violations refs resource path v = []) {r : Resource}
    (hr : r.StandsIn v) : IsPlain r.name ∧ IsPlain r.plural := by
  obtain ⟨entries, rfl⟩ := eq_object_of_all (by simp) h
  have hmember := valid_of_closed (.tail _ (.tail _ (.head _))) h
  exact ⟨isPlain_of_words (hmember "name" rfl hr.name),
    isPlain_of_words (hmember "plural" rfl hr.plural)⟩

theorem exists_standsIn {resources : List Resource} {items : List Json}
    (h : List.Forall₂ Resource.StandsIn resources items) {r : Resource} (hr : r ∈ resources) :
    ∃ (i : Nat) (item : Json), items[i]? = some item ∧ r.StandsIn item := by
  obtain ⟨hlength, hstands⟩ := List.forall₂_iff_get.mp h
  obtain ⟨i, hi, rfl⟩ := List.getElem_of_mem hr
  have hitem : i < items.length := hlength ▸ hi
  exact ⟨i, items[i], List.getElem?_eq_getElem hitem, hstands i hi hitem⟩

theorem isPlain_of_parameters (h : violations refs parameters path v = []) {d : Description}
    (hd : d.StandsIn v) : ∀ r ∈ d.resources, IsPlain r.name ∧ IsPlain r.plural := by
  obtain ⟨entries, rfl⟩ := eq_object_of_all (by simp) h
  obtain ⟨items, hitems, hstands⟩ := hd.resources
  have hresources := violations_properties_eq_nil.mp (violations_all_eq_nil.mp h _ (.head _))
    ("resources", resources) (by simp) _ hitems
  have hall := violations_items_eq_nil.mp (violations_all_eq_nil.mp hresources _
    (.tail _ (.tail _ (.head _))))
  intro r hr
  obtain ⟨i, item, hitem, hstands⟩ := exists_standsIn hstands hr
  exact isPlain_of_resource (hall i item hitem) hstands

end Schema

/-! ### Names in documents -/

namespace Description

open Naming OpenApi

variable {d : Description}

theorem isHyphenated_of_mem_segments
    (h : ∀ r ∈ d.resources, IsPlain r.name ∧ IsPlain r.plural) {segment : String}
    (hsegment : segment ∈ d.segments) : IsHyphenated segment := by
  obtain ⟨r, hr, rfl⟩ := List.mem_map.mp (List.mem_eraseDups.mp hsegment)
  exact (h r hr).2.kebabCase

theorem isCapitalised_of_mem_schemas
    (h : ∀ r ∈ d.resources, IsPlain r.name ∧ IsPlain r.plural) {key : String}
    (hkey : key ∈ d.schemas.keys) : IsCapitalised key := by
  rw [keys_schemas, List.mem_eraseDups] at hkey
  obtain ⟨r, hr, rfl⟩ := List.mem_map.mp hkey
  exact (h r hr).1.upperCamelCase

theorem exists_verb_of_mem_operationIds
    (h : ∀ r ∈ d.resources, IsPlain r.name ∧ IsPlain r.plural) {id : String}
    (hid : id ∈ d.compile.operationIds) :
    ∃ verb ∈ verbs, ∃ name, id = verb ++ name ∧ IsCapitalised name := by
  obtain ⟨action, haction, rfl⟩ := List.mem_map.mp (d.perm_operationIds.subset hid)
  obtain ⟨r, hr, haction⟩ := List.mem_flatMap.mp haction
  obtain ⟨hname, hplural⟩ := h r ((Resource.survivors_sublist _).subset hr)
  refine ⟨action.1, Resource.verb_mem_of_mem_actions haction, action.2, rfl, ?_⟩
  rcases List.mem_append.mp haction with haction | haction
  · obtain ⟨verb, -, rfl⟩ := List.mem_map.mp haction
    exact hplural.upperCamelCase
  · obtain ⟨verb, -, rfl⟩ := List.mem_map.mp haction
    exact hname.upperCamelCase

end Description

namespace Lint

open Naming

/-- A text without diagnostics gives plain names to all that is compiled from it. -/
theorem isPlain_of_lint {text : String} (h : Builtin.parameters.linter.lint text = [])
    {d : Description} (hd : Description.parse text = .ok d) :
    ∀ r ∈ d.resources, IsPlain r.name ∧ IsPlain r.plural := by
  obtain ⟨v, hparse, hvalid⟩ := exists_valid h
  obtain ⟨e, he⟩ := Schema.exists_description hvalid
  obtain ⟨w, hw, rfl⟩ := Json.parse_eq_ok.mp hparse
  obtain ⟨-, rfl⟩ := (Description.parse_eq_ok hw he).mp hd
  exact Schema.isPlain_of_parameters hvalid he

/-- What is compiled from a text without diagnostics has a pair of paths for each hyphenated lower
case name, capitalised schema keys, and identifiers made of a verb and a capitalised name. -/
theorem linted_names_are_simple {text : String} (h : Builtin.parameters.linter.lint text = [])
    {doc : OpenApi.Document} (hdoc : Description.compileText text = .ok doc) :
    (∃ segments : List String, doc.paths.keys =
        segments.flatMap (fun segment => ["/" ++ segment, "/" ++ segment ++ "/{id}"]) ∧
      ∀ segment ∈ segments, IsHyphenated segment) ∧
    (∀ key ∈ doc.components.schemas.keys, IsCapitalised key) ∧
    ∀ id ∈ doc.operationIds, ∃ verb ∈ ["list", "create", "retrieve", "edit", "remove"],
      ∃ name, id = verb ++ name ∧ IsCapitalised name := by
  obtain ⟨d, hd, rfl⟩ := Description.compileText_eq_ok.mp hdoc
  have hplain := isPlain_of_lint h hd
  exact ⟨⟨d.segments, d.keys_paths, fun _ => Description.isHyphenated_of_mem_segments hplain⟩,
    fun _ => Description.isCapitalised_of_mem_schemas hplain,
    fun _ => Description.exists_verb_of_mem_operationIds hplain⟩

/-- A description with capitals, digits, blanks and underscores in its names. -/
def mixedNames : String :=
  "\x7b\"title\":\"T\",\"description\":\"D\","
    ++ "\"contact\":\x7b\"name\":\"A\",\"email\":\"a@b.nl\",\"url\":\"a:b\"\x7d,"
    ++ "\"resources\":[\x7b\"name\":\"x_ 1y\",\"plural\":\"XMLFiles  v2\"\x7d]\x7d"

theorem linted_names_are_simple_mixed :
    Builtin.parameters.linter.lint mixedNames = [] ∧
    ∃ doc, Description.compileText mixedNames = .ok doc ∧
      doc.paths.keys = ["/xml-files-v2", "/xml-files-v2/{id}"] ∧
      doc.components.schemas.keys = ["X1y"] ∧ IsCapitalised "X1y" ∧
      ∃ segments : List String, doc.paths.keys =
          segments.flatMap (fun segment => ["/" ++ segment, "/" ++ segment ++ "/{id}"]) ∧
        ∀ segment ∈ segments, IsHyphenated segment := by
  have hlint : Builtin.parameters.linter.lint mixedNames = [] :=
    List.isEmpty_iff.mp (by decide +kernel)
  have hkeys : (Description.compileText mixedNames).toOption.map (fun doc =>
      (doc.paths.keys, doc.components.schemas.keys)) =
        some (["/xml-files-v2", "/xml-files-v2/{id}"], ["X1y"]) := by
    decide +kernel
  obtain ⟨doc, hdoc, hkeys⟩ := Option.map_eq_some_iff.mp hkeys
  obtain ⟨hpaths, hschemas⟩ := Prod.mk.inj hkeys
  have hcompiled := Json.eq_ok_of_toOption hdoc
  obtain ⟨hsegments, hcapitalised, -⟩ := linted_names_are_simple hlint hcompiled
  exact ⟨hlint, doc, hcompiled, hpaths, hschemas,
    hcapitalised "X1y" (by rw [hschemas]; exact List.mem_cons_self), hsegments⟩

end Lint

end ResourceApi
