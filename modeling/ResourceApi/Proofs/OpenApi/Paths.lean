import ResourceApi.OpenApi.Compile
import ResourceApi.Proofs.Dictionaries
import ResourceApi.Proofs.Naming

/-!
The paths of a compiled description. Resources whose plurals have the same kebab case share a pair
of paths; the first of them gives the pair its place, the last one makes its entries. No pair is
ever split, since the path of a collection has one segment and the path of an item has two.
-/

namespace ResourceApi

/-! ### Pairs of paths -/

namespace Resource

/-- The one segment of the collection path. -/
def segment (r : Resource) : String := Naming.kebabCase r.plural

theorem slash_not_mem_segment (r : Resource) : '/' ∉ r.segment.toList :=
  Naming.slash_not_mem_kebabCase r.plural

/-- The path of the collection and that of an item. -/
def pathPair (segment : String) : List String := ["/" ++ segment, "/" ++ segment ++ "/\x7bid\x7d"]

/-- The entries of a resource. -/
def pathEntries (r : Resource) : Entries OpenApi.PathItem :=
  [(r.collectionPath, r.collectionItem), (r.itemPath, r.singleItem)]

theorem collectionPath_eq (r : Resource) : r.collectionPath = "/" ++ r.segment := rfl

theorem itemPath_eq (r : Resource) : r.itemPath = "/" ++ r.segment ++ "/\x7bid\x7d" := by
  have hid : "/\x7b" ++ (OpenApi.idParameter ++ "\x7d") = "/\x7bid\x7d" := by decide
  rw [itemPath, collectionPath_eq, String.append_assoc, String.append_assoc, hid]

theorem keys_pathEntries (r : Resource) : Entries.keys r.pathEntries = pathPair r.segment := by
  rw [pathPair, ← itemPath_eq, ← collectionPath_eq]
  rfl

section Segments

variable {a b x : String}

/-- A collection path is not the path of an item. -/
theorem collection_ne_item (ha : '/' ∉ a.toList) : "/" ++ a ≠ "/" ++ b ++ "/\x7bid\x7d" := by
  intro h
  rw [String.append_assoc, String.append_right_inj] at h
  apply ha
  rw [h, String.toList_append]
  exact List.mem_append_right _ (by decide)

theorem nodup_pathPair (ha : '/' ∉ a.toList) : (pathPair a).Nodup := by
  rw [pathPair, List.nodup_cons, List.mem_singleton]
  exact ⟨collection_ne_item ha, List.nodup_singleton _⟩

theorem eq_of_mem_pathPair (ha : '/' ∉ a.toList) (hb : '/' ∉ b.toList) (hxa : x ∈ pathPair a)
    (hxb : x ∈ pathPair b) : a = b := by
  simp only [pathPair, List.mem_cons, List.not_mem_nil, or_false] at hxa hxb
  rcases hxa with rfl | rfl <;> rcases hxb with hxb | hxb
  · exact (String.append_right_inj _).mp hxb
  · exact absurd hxb (collection_ne_item ha)
  · exact absurd hxb.symm (collection_ne_item hb)
  · exact (String.append_right_inj _).mp ((String.append_left_inj _).mp hxb)

end Segments

/-! ### The last resource with a segment -/

/-- The resource has the segment, and no later one has it. -/
structure LastWith (segment : String) (resources : List Resource) (r : Resource) : Prop where
  segment_eq : r.segment = segment
  last : ∃ before after, resources = before ++ r :: after ∧
    ∀ other ∈ after, other.segment ≠ segment

theorem exists_lastWith {segment : String} {resources : List Resource}
    (h : segment ∈ resources.map Resource.segment) : ∃ r, LastWith segment resources r := by
  induction resources with
  | nil => cases h
  | cons r resources ih =>
      by_cases hlater : segment ∈ resources.map Resource.segment
      · obtain ⟨last, hsegment, before, after, rfl, hafter⟩ := ih hlater
        exact ⟨last, hsegment, r :: before, after, rfl, hafter⟩
      · rw [List.map_cons, List.mem_cons] at h
        have hr := (h.resolve_right hlater).symm
        refine ⟨r, hr, [], resources, rfl, ?_⟩
        intro other hother heq
        exact hlater (List.mem_map.mpr ⟨other, hother, heq⟩)

theorem keys_flatMap_pathEntries (resources : List Resource) :
    Entries.keys (resources.flatMap pathEntries) =
      (resources.map Resource.segment).flatMap pathPair := by
  rw [Entries.keys, List.map_flatMap, List.flatMap_map]
  apply List.flatMap_congr
  intro r _
  exact keys_pathEntries r

/-- The last resource with a segment makes the entries of its paths. -/
theorem LastWith.find? {segment : String} {resources : List Resource} {r : Resource}
    (h : LastWith segment resources r) {path : String} {item : OpenApi.PathItem}
    (hentry : (path, item) ∈ r.pathEntries) :
    Entries.find? path (resources.flatMap pathEntries).reverse = some item := by
  obtain ⟨rfl, before, after, rfl, hafter⟩ := h
  have hpath : path ∈ pathPair r.segment := by
    rw [← keys_pathEntries]
    exact List.mem_map.mpr ⟨_, hentry, rfl⟩
  -- Later resources have other segments, so none of their paths is this one.
  have hlater : Entries.find? path (after.flatMap pathEntries).reverse = none := by
    rw [Entries.find?_eq_none, Entries.keys, List.map_reverse, List.mem_reverse]
    intro hmem
    have hkeys : path ∈ (after.map Resource.segment).flatMap pathPair := by
      rwa [← keys_flatMap_pathEntries]
    obtain ⟨segment, hsegment, hmem⟩ := List.mem_flatMap.mp hkeys
    obtain ⟨other, hother, rfl⟩ := List.mem_map.mp hsegment
    exact hafter other hother
      (eq_of_mem_pathPair other.slash_not_mem_segment r.slash_not_mem_segment hmem hpath)
  have hhere : Entries.find? path r.pathEntries.reverse = some item := by
    apply Entries.find?_of_mem
    · rw [Entries.keys, List.map_reverse, List.nodup_reverse]
      have hnodup := nodup_pathPair r.slash_not_mem_segment
      rwa [← keys_pathEntries] at hnodup
    · exact List.mem_reverse.mpr hentry
  rw [List.flatMap_append, List.flatMap_cons, List.reverse_append, List.reverse_append,
    List.append_assoc, Entries.find?_append, hlater, Option.none_or, Entries.find?_append, hhere,
    Option.some_or]

/-! ### Operations that change something -/

theorem isSome_post (r : Resource) : r.collectionItem.post.isSome = !r.isReadonly := by
  rw [collectionItem]
  cases r.isReadonly <;> rfl

theorem isSome_put (r : Resource) : r.singleItem.put.isSome = !r.isReadonly := by
  rw [singleItem]
  cases r.isReadonly <;> rfl

theorem isSome_delete (r : Resource) : r.singleItem.delete.isSome = !r.isReadonly := by
  rw [singleItem]
  cases r.isReadonly <;> rfl

end Resource

namespace Description

open Resource

/-- The segments of the resources, each where it is used first. -/
def segments (d : Description) : List String := (d.resources.map Resource.segment).eraseDups

theorem keys_paths (d : Description) : d.paths.keys = d.segments.flatMap pathPair := by
  have hslash : ∀ segment ∈ d.resources.map Resource.segment, '/' ∉ segment.toList := by
    intro segment hsegment
    obtain ⟨r, -, rfl⟩ := List.mem_map.mp hsegment
    exact r.slash_not_mem_segment
  calc d.paths.keys
      = (Entries.keys (d.resources.flatMap pathEntries)).eraseDups := Dict.keys_ofEntries _
    _ = ((d.resources.map Resource.segment).flatMap pathPair).eraseDups := by
        rw [keys_flatMap_pathEntries]
    _ = d.segments.flatMap pathPair :=
        eraseDups_flatMap (fun a ha => nodup_pathPair (hslash a ha)) fun a ha b hb _ =>
          eq_of_mem_pathPair (hslash a ha) (hslash b hb)

theorem keys_schemas (d : Description) :
    d.schemas.keys = (d.resources.map Resource.schemaName).eraseDups := by
  rw [schemas, Dict.keys_ofEntries, Entries.keys, List.map_map]
  rfl

/-- Each segment has a pair of paths, in the order of the first resources with these segments. Both
entries are those of the last resource with the segment, which has the operations that change
something on both paths, or on none if it is read only. -/
theorem compiled_paths_stay_paired (d : Description) :
    d.compile.paths.keys = (d.resources.map fun r => Naming.kebabCase r.plural).eraseDups.flatMap
      (fun segment => ["/" ++ segment, "/" ++ segment ++ "/{id}"]) ∧
    (∀ segment ∈ (d.resources.map fun r => Naming.kebabCase r.plural).eraseDups,
      ∃ r, LastWith segment d.resources r ∧ ∃ collection single,
        d.compile.paths.get? ("/" ++ segment) = some collection ∧
        d.compile.paths.get? ("/" ++ segment ++ "/{id}") = some single ∧
        collection = r.collectionItem ∧ single = r.singleItem ∧
        collection.post.isSome = !r.isReadonly ∧ single.put.isSome = !r.isReadonly ∧
        single.delete.isSome = !r.isReadonly) ∧
    d.compile.components.schemas.keys =
      (d.resources.map fun r => Naming.upperCamelCase r.name).eraseDups := by
  refine ⟨keys_paths d, ?_, keys_schemas d⟩
  intro segment hsegment
  obtain ⟨r, hlast⟩ := exists_lastWith (List.mem_eraseDups.mp hsegment)
  have hget : ∀ {path item}, (path, item) ∈ r.pathEntries → d.paths.get? path = some item :=
    fun hentry => (Dict.get?_ofEntries _ _).trans (hlast.find? hentry)
  obtain rfl := hlast.segment_eq
  refine ⟨r, hlast, _, _, hget List.mem_cons_self, ?_, rfl, rfl, isSome_post r, isSome_put r,
    isSome_delete r⟩
  rw [← itemPath_eq]
  exact hget (List.mem_cons_of_mem _ List.mem_cons_self)

end Description

end ResourceApi
