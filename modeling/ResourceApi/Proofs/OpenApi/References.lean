import ResourceApi.Proofs.Json.Pointers
import ResourceApi.Proofs.OpenApi.Survivors
import ResourceApi.Proofs.OpenApi.Targets

/-!
A compiled description refers to nothing that it lacks. References inside the document are pointers
to the schema of a resource or to the parameter of items; resources that lose their paths to a later
one keep their schemas and their tags, so every pointer resolves and every tag is listed.
-/

namespace ResourceApi

/-! ### Pointers to names -/

namespace Json.Pointer

theorem escapeChar_of_not_isMark {c : Char} (h : ¬ Text.IsMark c) : escapeChar c = [c] := by
  rw [Text.IsMark, not_or] at h
  rw [escapeChar, if_neg h.2, if_neg h.1]

/-- A token without marks is written into a pointer as it is. -/
theorem push_of_unmarked {token : String} (h : Text.Unmarked token.toList) (pointer : String) :
    push pointer token = pointer ++ ("/" ++ token) := by
  have hescape : token.toList.flatMap escapeChar = token.toList := by
    rw [List.flatMap_congr fun c hc => escapeChar_of_not_isMark (h c hc), List.flatMap_singleton']
  have hslash : String.ofList ('/' :: token.toList) = "/" ++ token := by
    rw [← String.toList_inj, String.toList_ofList, String.toList_append]
    rfl
  rw [push, hescape, hslash]

/-- The tokens of a pointer to a shared definition. -/
theorem tokens_components {kind name : String} (hkind : Text.Unmarked kind.toList)
    (hname : Text.Unmarked name.toList) :
    tokens ("/" ++ ("components/" ++ (kind ++ ("/" ++ name)))) = ["components", kind, name] := by
  have hpointer : "/" ++ ("components/" ++ (kind ++ ("/" ++ name))) =
      ofTokens ["components", kind, name] := by
    simp only [ofTokens, List.foldl_cons, List.foldl_nil]
    rw [push_of_unmarked hname, push_of_unmarked hkind, push_of_unmarked (by decide)]
    simp only [← String.append_assoc]
    rfl
  rw [hpointer, tokens_ofTokens]

end Json.Pointer

namespace OpenApi.Document

variable (doc : Document) (name : String)

theorem resolve?_schemas : doc.toJson.resolve? ["components", "schemas", name] =
    (doc.components.schemas.get? name).map Schema.toJson := by
  rw [Dict.get?, ← Entries.find?_map]
  exact Option.bind_fun_some _

theorem resolve?_parameters : doc.toJson.resolve? ["components", "parameters", name] =
    (doc.components.parameters.get? name).map Parameter.toJson := by
  rw [Dict.get?, ← Entries.find?_map]
  exact Option.bind_fun_some _

end OpenApi.Document

/-! ### Operations of resources -/

namespace Resource

open OpenApi

/-- The responses that the operations of a resource give. -/
inductive Answers (r : Resource) : Response → Prop where
  | body (description : String) (headers : List String) :
      Answers r (r.bodyResponse description headers)
  | shared (status : String) : Answers r (sharedResponse status)

attribute [simp] Answers.body Answers.shared

/-- All operations of a resource stand under its tag and answer with its schema or with a shared
response. -/
theorem exists_operation {r : Resource} {path : String} {item : PathItem}
    (hitem : (path, item) ∈ r.pathEntries) {method : String} {o : Operation}
    (ho : (method, o) ∈ item.operations) : ∃ id text responses,
      o = r.operation id text responses ∧ ∀ response ∈ responses, r.Answers response.2 := by
  simp only [pathEntries, List.mem_cons, List.not_mem_nil, or_false, Prod.mk.injEq] at hitem
  rcases hitem with ⟨-, rfl⟩ | ⟨-, rfl⟩
  · rcases PathItem.mem_operations.mp ho with ⟨-, rfl⟩ | ⟨-, h⟩ | ⟨-, h⟩ | ⟨-, h⟩
    · exact ⟨_, _, _, rfl, by simp⟩
    · cases h
    · obtain ⟨-, h⟩ := Option.ite_none_left_eq_some.mp h
      obtain rfl := Option.some.inj h
      exact ⟨_, _, _, rfl, by simp⟩
    · cases h
  · rcases PathItem.mem_operations.mp ho with ⟨-, rfl⟩ | ⟨-, h⟩ | ⟨-, h⟩ | ⟨-, h⟩
    · exact ⟨_, _, _, rfl, by simp⟩
    · obtain ⟨-, h⟩ := Option.ite_none_left_eq_some.mp h
      obtain rfl := Option.some.inj h
      exact ⟨_, _, _, rfl, by simp⟩
    · cases h
    · obtain ⟨-, h⟩ := Option.ite_none_left_eq_some.mp h
      obtain rfl := Option.some.inj h
      exact ⟨_, _, _, rfl, by simp⟩

/-- What references of a resource point at: its schema, the parameter of items, or something in the
shared definitions. -/
inductive PointsAt (r : Resource) : String → Prop where
  | schema : PointsAt r ("#/" ++ ("components/" ++ ("schemas" ++ ("/" ++ r.schemaName))))
  | parameter : PointsAt r ("#/" ++ ("components/" ++ ("parameters" ++ ("/" ++ idParameter))))
  | shared (place : String) : PointsAt r (sharedComponents ++ place)

theorem Answers.pointsAt {r : Resource} {response : Response} (h : r.Answers response) {t : String}
    (ht : t ∈ response.targets) : r.PointsAt t := by
  cases h with
  | shared status =>
      obtain rfl := List.mem_singleton.mp ht
      rw [String.append_assoc]
      exact .shared _
  | body description headers =>
      rcases List.mem_append.mp ht with ht | ht
      · obtain ⟨entry, hentry, rfl⟩ := List.mem_map.mp ht
        obtain ⟨header, -, rfl⟩ := List.mem_map.mp (Dict.mem_of_mem_ofEntries hentry)
        rw [String.append_assoc]
        exact .shared _
      · obtain ⟨entry, hentry, rfl⟩ := List.mem_map.mp ht
        obtain rfl := List.mem_singleton.mp (Dict.mem_of_mem_ofEntries hentry)
        exact .schema

theorem pointsAt_of_mem_targets {r : Resource} {path : String} {item : PathItem}
    (hitem : (path, item) ∈ r.pathEntries) {t : String} (ht : t ∈ item.targets) : r.PointsAt t := by
  rcases List.mem_append.mp ht with ht | ht
  · simp only [pathEntries, List.mem_cons, List.not_mem_nil, or_false, Prod.mk.injEq] at hitem
    rcases hitem with ⟨-, rfl⟩ | ⟨-, rfl⟩
    · cases ht
    · obtain rfl := List.mem_singleton.mp ht
      exact .parameter
  · obtain ⟨⟨method, o⟩, ho, ht⟩ := List.mem_flatMap.mp ht
    obtain ⟨id, text, responses, rfl, hresponses⟩ := exists_operation hitem ho
    obtain ⟨entry, hentry, ht⟩ := List.mem_flatMap.mp ht
    exact (hresponses entry (Dict.mem_of_mem_ofEntries hentry)).pointsAt ht

end Resource

namespace Description

open OpenApi Resource

theorem exists_pointsAt {d : Description} {t : String} (h : t ∈ d.compile.targets) :
    ∃ r ∈ d.resources, r.PointsAt t := by
  obtain ⟨⟨path, item⟩, hitem, ht⟩ := List.mem_flatMap.mp h
  obtain ⟨r, hr, hentry⟩ := mem_paths.mp hitem
  exact ⟨r, (survivors_sublist _).subset hr, pointsAt_of_mem_targets hentry ht⟩

/-- Every resource has its schema, also if other resources have the same one. -/
theorem exists_schema {d : Description} {r : Resource} (h : r ∈ d.resources) :
    ∃ s, d.compile.components.schemas.get? r.schemaName = some s := by
  have hkey : r.schemaName ∈ d.schemas.keys := by
    rw [keys_schemas, List.mem_eraseDups]
    exact List.mem_map.mpr ⟨r, h, rfl⟩
  rw [← Option.isSome_iff_exists, ← Option.ne_none_iff_isSome]
  exact fun hnone => Entries.find?_eq_none.mp hnone hkey

theorem shared_ne_local (place rest : String) : sharedComponents ++ place ≠ "#/" ++ rest := by
  intro h
  have hhead := congrArg (fun s : String => s.toList.head?) h
  simp only [String.toList_append] at hhead
  revert hhead
  simp [sharedComponents]

/-! ### Trees of operations -/

/-- A tag in the tree is one of an operation. -/
theorem exists_operation_of_at? {doc : Document} {path method : String} {i : Nat} {tag : String}
    (h : doc.toJson.at? [.key "paths", .key path, .key method, .key "tags", .index i] =
      some (.string tag)) :
    ∃ item o, (path, item) ∈ doc.paths.entries ∧ (method, o) ∈ item.operations ∧
      tag ∈ o.tags := by
  have hpaths : (Entries.find? path (doc.paths.entries.map fun entry =>
      (entry.1, entry.2.toJson))).bind (fun v =>
        v.at? [.key method, .key "tags", .index i]) = some (.string tag) := h
  rw [Entries.find?_map] at hpaths
  obtain ⟨v, hv, hitem⟩ := Option.bind_eq_some_iff.mp hpaths
  obtain ⟨item, hfound, rfl⟩ := Option.map_eq_some_iff.mp hv
  obtain ⟨u, hu, htags⟩ := Option.bind_eq_some_iff.mp hitem
  rcases List.mem_append.mp (Entries.mem_of_find? hu) with hmember | hmember
  · split at hmember
    · cases hmember
    · obtain ⟨-, rfl⟩ := Prod.mk.inj (List.mem_singleton.mp hmember)
      cases htags
  · obtain ⟨⟨key, o⟩, ho, heq⟩ := List.mem_map.mp hmember
    obtain ⟨rfl, rfl⟩ := Prod.mk.inj heq
    have hlist : (o.tags.map Json.string)[i]?.bind some = some (.string tag) := htags
    rw [Option.bind_fun_some] at hlist
    obtain ⟨found, htag, heq⟩ := List.mem_map.mp (List.mem_of_getElem? hlist)
    obtain rfl := Json.string.inj heq
    exact ⟨item, o, Entries.mem_of_find? hfound, ho, htag⟩

/-- The tags of the operations are those of the resources. -/
theorem exists_tagName {d : Description} {path method : String} {item : PathItem} {o : Operation}
    (hitem : (path, item) ∈ d.compile.paths.entries) (ho : (method, o) ∈ item.operations)
    {tag : String} (htag : tag ∈ o.tags) : ∃ r ∈ d.resources, r.tagName = tag := by
  obtain ⟨r, hr, hentry⟩ := mem_paths.mp hitem
  obtain ⟨id, text, responses, rfl, -⟩ := exists_operation hentry ho
  exact ⟨r, (survivors_sublist _).subset hr, (List.mem_singleton.mp htag).symm⟩

theorem at?_tag {d : Description} {r : Resource} (h : r ∈ d.resources) : ∃ j,
    d.compile.toJson.at? [.key "tags", .index j, .key "name"] = some (.string r.tagName) := by
  obtain ⟨j, hj⟩ := List.mem_iff_getElem?.mp h
  have htag : ((d.resources.map Resource.tag).map Tag.toJson)[j]? = some r.tag.toJson := by
    rw [List.getElem?_map, List.getElem?_map, hj]
    rfl
  refine ⟨j, ?_⟩
  have hat : d.compile.toJson.at? [.key "tags", .index j, .key "name"] =
      ((d.resources.map Resource.tag).map Tag.toJson)[j]?.bind fun v => v.at? [.key "name"] := rfl
  rw [hat, htag]
  rfl

/-- Each reference inside the document is a pointer to a schema or to the parameter of items, which
the document has; each tag of an operation is listed. -/
theorem references_resolve (d : Description) :
    (∀ path rest, d.compile.toJson.at? (path ++ [.key "$ref"]) = some (.string ("#/" ++ rest)) →
      ∃ v, d.compile.toJson.resolve? (Json.Pointer.tokens ("/" ++ rest)) = some v ∧
        ((∃ name s, rest = "components/schemas/" ++ name ∧
            d.compile.components.schemas.get? name = some s ∧ v = s.toJson) ∨
          ∃ p, rest = "components/parameters/id" ∧
            d.compile.components.parameters.get? "id" = some p ∧ v = p.toJson)) ∧
    ∀ path method i tag,
      d.compile.toJson.at? [.key "paths", .key path, .key method, .key "tags", .index i] =
        some (.string tag) →
      ∃ j, d.compile.toJson.at? [.key "tags", .index j, .key "name"] = some (.string tag) := by
  constructor
  · intro path rest h
    obtain ⟨r, hr, hpoints⟩ := exists_pointsAt (d.compile.eachReference path _ h)
    generalize ht : "#/" ++ rest = t at hpoints
    cases hpoints with
    | schema =>
        obtain rfl := (String.append_right_inj _).mp ht
        obtain ⟨s, hs⟩ := exists_schema hr
        have hname : Text.Unmarked r.schemaName.toList := Naming.unmarked_upperCamelCase r.name
        rw [Json.Pointer.tokens_components (by decide) hname, Document.resolve?_schemas]
        refine ⟨s.toJson, congrArg _ hs, .inl ⟨r.schemaName, s, ?_, hs, rfl⟩⟩
        simp only [← String.append_assoc]
        rfl
    | parameter =>
        obtain rfl := (String.append_right_inj _).mp ht
        rw [Json.Pointer.tokens_components (by decide) (by decide), Document.resolve?_parameters]
        exact ⟨_, rfl, .inr ⟨_, rfl, rfl, rfl⟩⟩
    | shared place => exact absurd ht.symm (shared_ne_local place rest)
  · intro path method i tag h
    obtain ⟨item, o, hitem, ho, htag⟩ := exists_operation_of_at? h
    obtain ⟨r, hr, rfl⟩ := exists_tagName hitem ho htag
    exact at?_tag hr

/-- Two resources with one collection path, two schemas and two tags. -/
def sharedPath : Description where
  title := "T"
  description := "D"
  contact := ⟨"A", "a@b.nl", "a:b"⟩
  resources := [⟨"user", "people", none⟩, ⟨"person", "People", none⟩]

theorem references_resolve_shared_path :
    sharedPath.compile.paths.keys = ["/people", "/people/{id}"] ∧
    (∃ v, sharedPath.compile.toJson.resolve? ["components", "parameters", "id"] = some v) ∧
    ∃ j, sharedPath.compile.toJson.at? [.key "tags", .index j, .key "name"] =
      some (.string "People") := by
  have hkeys : sharedPath.compile.paths.keys = ["/people", "/people/{id}"] := by decide +kernel
  have hreference : sharedPath.compile.toJson.at?
      ([.key "paths", .key "/people/{id}", .key "parameters", .index 0] ++ [.key "$ref"]) =
        some (.string ("#/" ++ "components/parameters/id")) := by
    decide +kernel
  have htag : sharedPath.compile.toJson.at?
      [.key "paths", .key "/people", .key "get", .key "tags", .index 0] =
        some (.string "People") := by
    decide +kernel
  have htokens : Json.Pointer.tokens ("/" ++ "components/parameters/id") =
      ["components", "parameters", "id"] := by
    decide +kernel
  obtain ⟨v, hv, -⟩ := (references_resolve sharedPath).1 _ _ hreference
  rw [htokens] at hv
  exact ⟨hkeys, ⟨v, hv⟩, (references_resolve sharedPath).2 _ _ _ _ htag⟩

end Description

end ResourceApi
