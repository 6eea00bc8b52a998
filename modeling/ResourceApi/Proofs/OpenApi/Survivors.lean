import Mathlib.Data.List.Perm.Basic
import ResourceApi.Proofs.OpenApi.Paths

/-!
The resources that a compiled description still shows. Of several resources with one collection path
only the last one survives; the paths of the document are those of the surviving resources, each
with the entry that its resource makes.
-/

namespace ResourceApi

namespace Resource

/-- The resources that are the last ones with their collection paths. -/
def survivors : List Resource → List Resource
  | [] => []
  | r :: later =>
    if r.collectionPath ∈ later.map collectionPath then survivors later
    else r :: survivors later

theorem collectionPath_inj {r other : Resource} :
    r.collectionPath = other.collectionPath ↔ r.segment = other.segment := by
  rw [collectionPath_eq, collectionPath_eq, String.append_right_inj]

theorem mem_map_collectionPath {r : Resource} {resources : List Resource} :
    r.collectionPath ∈ resources.map collectionPath ↔
      ∃ other ∈ resources, other.segment = r.segment := by
  simp only [List.mem_map, collectionPath_inj]

theorem LastWith.cons {segment : String} {resources : List Resource} {r : Resource}
    (h : LastWith segment resources r) (first : Resource) :
    LastWith segment (first :: resources) r := by
  obtain ⟨hsegment, before, after, rfl, hafter⟩ := h
  exact ⟨hsegment, first :: before, after, rfl, hafter⟩

theorem lastWith_of_mem_survivors {resources : List Resource} {r : Resource}
    (h : r ∈ survivors resources) : LastWith r.segment resources r := by
  induction resources with
  | nil => cases h
  | cons first resources ih =>
      rw [survivors] at h
      split at h
      · exact (ih h).cons first
      · rename_i hlast
        rcases List.mem_cons.mp h with rfl | h
        · refine ⟨rfl, [], resources, rfl, fun other hother heq => hlast ?_⟩
          exact mem_map_collectionPath.mpr ⟨other, hother, heq⟩
        · exact (ih h).cons first

theorem survivors_sublist (resources : List Resource) :
    (survivors resources).Sublist resources := by
  induction resources with
  | nil => exact .slnil
  | cons r resources ih =>
      rw [survivors]
      split
      · exact ih.cons r
      · exact ih.cons_cons r

/-- Every segment that is used is that of a surviving resource. -/
theorem exists_survivor {resources : List Resource} {r : Resource} (h : r ∈ resources) :
    ∃ last ∈ survivors resources, last.segment = r.segment := by
  induction resources generalizing r with
  | nil => cases h
  | cons first resources ih =>
      rw [survivors]
      split
      · rename_i hlater
        rcases List.mem_cons.mp h with rfl | h
        · obtain ⟨other, hother, heq⟩ := mem_map_collectionPath.mp hlater
          obtain ⟨last, hlast, hsegment⟩ := ih hother
          exact ⟨last, hlast, hsegment.trans heq⟩
        · exact ih h
      · rcases List.mem_cons.mp h with rfl | h
        · exact ⟨r, List.mem_cons_self, rfl⟩
        · obtain ⟨last, hlast, hsegment⟩ := ih h
          exact ⟨last, List.mem_cons_of_mem _ hlast, hsegment⟩

theorem pairwise_survivors (resources : List Resource) :
    (survivors resources).Pairwise fun r other => r.segment ≠ other.segment := by
  induction resources with
  | nil => exact .nil
  | cons r resources ih =>
      rw [survivors]
      split
      · exact ih
      · rename_i hlast
        refine .cons (fun other hother heq => hlast ?_) ih
        exact mem_map_collectionPath.mpr
          ⟨other, (survivors_sublist resources).subset hother, heq.symm⟩

/-! ### Entries of surviving resources -/

theorem nodup_keys_survivors (resources : List Resource) :
    (Entries.keys ((survivors resources).flatMap pathEntries)).Nodup := by
  rw [keys_flatMap_pathEntries, List.flatMap_map, List.nodup_flatMap]
  refine ⟨fun r _ => nodup_pathPair r.slash_not_mem_segment, ?_⟩
  refine (pairwise_survivors resources).imp fun {r other} hne path hr hother => ?_
  exact hne (eq_of_mem_pathPair r.slash_not_mem_segment other.slash_not_mem_segment hr hother)

/-- The entry that stands under a path is that of a surviving resource. -/
theorem find?_pathEntries {resources : List Resource} {path : String}
    {item : OpenApi.PathItem} :
    Entries.find? path (resources.flatMap pathEntries).reverse = some item ↔
      ∃ r ∈ survivors resources, (path, item) ∈ r.pathEntries := by
  constructor
  · intro h
    have hmem := List.mem_reverse.mp (Entries.mem_of_find? h)
    obtain ⟨r, hr, hentry⟩ := List.mem_flatMap.mp hmem
    obtain ⟨last, hlast, hsegment⟩ := exists_survivor hr
    -- The last resource with the segment has an entry under the same path.
    have hpath : path ∈ Entries.keys last.pathEntries := by
      rw [keys_pathEntries, hsegment, ← keys_pathEntries]
      exact List.mem_map.mpr ⟨_, hentry, rfl⟩
    obtain ⟨⟨key, found⟩, hfound, rfl⟩ := List.mem_map.mp hpath
    obtain rfl := Option.some.inj
      (((lastWith_of_mem_survivors hlast).find? hfound).symm.trans h)
    exact ⟨last, hlast, hfound⟩
  · rintro ⟨r, hr, hentry⟩
    exact (lastWith_of_mem_survivors hr).find? hentry

end Resource

namespace Description

open Resource

theorem mem_paths {d : Description} {path : String} {item : OpenApi.PathItem} :
    (path, item) ∈ d.paths.entries ↔
      ∃ r ∈ survivors d.resources, (path, item) ∈ r.pathEntries := by
  rw [← find?_pathEntries]
  have hget : d.paths.get? path =
      Entries.find? path (d.resources.flatMap pathEntries).reverse :=
    Dict.get?_ofEntries _ _
  rw [← hget]
  exact ⟨Entries.find?_of_mem d.paths.nodup, Entries.mem_of_find?⟩

/-- The paths with their operations are those of the surviving resources. -/
theorem perm_paths (d : Description) :
    d.paths.entries.Perm ((survivors d.resources).flatMap pathEntries) := by
  have hleft := List.Nodup.of_map _ d.paths.nodup
  have hright := List.Nodup.of_map _ (nodup_keys_survivors d.resources)
  rw [List.perm_ext_iff_of_nodup hleft hright]
  rintro ⟨path, item⟩
  rw [mem_paths, List.mem_flatMap]

end Description

end ResourceApi
