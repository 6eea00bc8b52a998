import ResourceApi.Proofs.OpenApi.Survivors

/-!
The identifiers of operations. Each is a verb with a name in camel case behind it: the plural for
operations on a collection, the singular for operations on an item. No verb is the start of another
one with more letters behind it, so identifiers are the same only if verb and name are.
-/

namespace ResourceApi

namespace OpenApi

/-- The identifiers of the operations on one path. -/
def PathItem.operationIds (p : PathItem) : List String :=
  p.operations.map fun entry => entry.2.operationId

/-- The identifiers of all operations, path by path. -/
def Document.operationIds (doc : Document) : List String :=
  doc.paths.entries.flatMap fun entry => entry.2.operationIds

/-! ### Verbs -/

/-- What operations do with collections and items. -/
def verbs : List String := ["list", "create", "retrieve", "edit", "remove"]

/-- The first three letters tell the verbs apart, so nothing is lost if a name is put behind. -/
theorem eq_of_verb_append {v w a b : String} (hv : v ∈ verbs) (hw : w ∈ verbs)
    (h : v ++ a = w ++ b) : v = w ∧ a = b := by
  have hlength : ∀ verb ∈ verbs, 3 ≤ verb.toList.length := by decide
  have hfirst : v.toList.take 3 = w.toList.take 3 := by
    calc v.toList.take 3
        = (v ++ a).toList.take 3 := by
          rw [String.toList_append, List.take_append_of_le_length (hlength v hv)]
      _ = (w ++ b).toList.take 3 := by rw [h]
      _ = w.toList.take 3 := by
          rw [String.toList_append, List.take_append_of_le_length (hlength w hw)]
  have hverbs : ∀ verb ∈ verbs, ∀ other ∈ verbs,
      verb.toList.take 3 = other.toList.take 3 → verb = other := by decide
  obtain rfl := hverbs v hv w hw hfirst
  exact ⟨rfl, (String.append_right_inj _).mp h⟩

end OpenApi

namespace Resource

open OpenApi Naming

def collectionVerbs (r : Resource) : List String :=
  if r.isReadonly then ["list"] else ["list", "create"]

def itemVerbs (r : Resource) : List String :=
  if r.isReadonly then ["retrieve"] else ["retrieve", "edit", "remove"]

theorem collectionVerbs_subset (r : Resource) : r.collectionVerbs ⊆ ["list", "create"] := by
  unfold collectionVerbs
  split <;> simp

theorem itemVerbs_subset (r : Resource) : r.itemVerbs ⊆ ["retrieve", "edit", "remove"] := by
  unfold itemVerbs
  split <;> simp

/-- What is done with a collection is not done with an item. -/
theorem not_mem_itemVerbs {r other : Resource} {verb : String} (h : verb ∈ r.collectionVerbs) :
    verb ∉ other.itemVerbs := by
  have hapart : ∀ verb ∈ ["list", "create"], verb ∉ ["retrieve", "edit", "remove"] := by decide
  exact fun hitem => hapart verb (r.collectionVerbs_subset h) (other.itemVerbs_subset hitem)

/-- The operations of a resource: what is done, and the name of what it is done with. -/
def actions (r : Resource) : List (String × String) :=
  r.collectionVerbs.map (fun verb => (verb, upperCamelCase r.plural)) ++
    r.itemVerbs.map (fun verb => (verb, upperCamelCase r.name))

def operationId (action : String × String) : String := action.1 ++ action.2

theorem verb_mem_of_mem_actions {r : Resource} {action : String × String}
    (h : action ∈ r.actions) : action.1 ∈ verbs := by
  rcases List.mem_append.mp h with h | h
  · obtain ⟨verb, hverb, rfl⟩ := List.mem_map.mp h
    exact List.mem_append_left ["retrieve", "edit", "remove"] (r.collectionVerbs_subset hverb)
  · obtain ⟨verb, hverb, rfl⟩ := List.mem_map.mp h
    exact List.mem_append_right ["list", "create"] (r.itemVerbs_subset hverb)

theorem operationIds_collectionItem (r : Resource) : r.collectionItem.operationIds =
    r.collectionVerbs.map fun verb => verb ++ upperCamelCase r.plural := by
  rw [collectionItem, collectionVerbs]
  cases r.isReadonly <;> rfl

theorem operationIds_singleItem (r : Resource) : r.singleItem.operationIds =
    r.itemVerbs.map fun verb => verb ++ upperCamelCase r.name := by
  rw [singleItem, itemVerbs]
  cases r.isReadonly <;> rfl

/-- The identifiers on the two paths of a resource are those of its operations. -/
theorem operationIds_pathEntries (r : Resource) :
    (r.pathEntries.flatMap fun entry => entry.2.operationIds) = r.actions.map operationId := by
  rw [pathEntries, List.flatMap_cons, List.flatMap_cons, List.flatMap_nil, List.append_nil,
    operationIds_collectionItem, operationIds_singleItem, actions, List.map_append, List.map_map,
    List.map_map]
  rfl

/-! ### Operations of several resources -/

theorem nodup_actions (r : Resource) : r.actions.Nodup := by
  have hcollection : r.collectionVerbs.Nodup := by
    unfold collectionVerbs
    split <;> decide
  have hitem : r.itemVerbs.Nodup := by
    unfold itemVerbs
    split <;> decide
  have hinjective : ∀ name : String, Function.Injective fun verb : String => (verb, name) :=
    fun name _ _ h => (Prod.mk.inj h).1
  rw [actions, List.nodup_append]
  refine ⟨hcollection.map (hinjective _), hitem.map (hinjective _), ?_⟩
  rintro _ hleft _ hright rfl
  obtain ⟨verb, hverb, rfl⟩ := List.mem_map.mp hleft
  obtain ⟨other, hother, heq⟩ := List.mem_map.mp hright
  obtain ⟨rfl, -⟩ := Prod.mk.inj heq
  exact not_mem_itemVerbs hverb hother

/-- Resources with different names in both numbers have no operation in common. -/
theorem disjoint_actions {r other : Resource}
    (hplural : upperCamelCase r.plural ≠ upperCamelCase other.plural)
    (hname : upperCamelCase r.name ≠ upperCamelCase other.name) :
    List.Disjoint r.actions other.actions := by
  intro action hr hother
  rcases List.mem_append.mp hr with hr | hr <;> rcases List.mem_append.mp hother with hother | hother
    <;> obtain ⟨verb, hverb, rfl⟩ := List.mem_map.mp hr
    <;> obtain ⟨same, hsame, heq⟩ := List.mem_map.mp hother
    <;> obtain ⟨rfl, hsubject⟩ := Prod.mk.inj heq
  · exact hplural hsubject.symm
  · exact not_mem_itemVerbs hverb hsame
  · exact not_mem_itemVerbs hsame hverb
  · exact hname hsubject.symm

theorem list_mem_actions (r : Resource) : ("list", upperCamelCase r.plural) ∈ r.actions := by
  rw [actions, collectionVerbs]
  cases r.isReadonly <;> simp

theorem retrieve_mem_actions (r : Resource) : ("retrieve", upperCamelCase r.name) ∈ r.actions := by
  rw [actions, itemVerbs]
  cases r.isReadonly <;> simp

/-- If no operation occurs twice, then no name does that every resource has an operation for. -/
theorem nodup_map_of_nodup_actions {resources : List Resource} {verb : String}
    {subject : Resource → String} (hmem : ∀ r : Resource, (verb, subject r) ∈ r.actions)
    (h : (resources.flatMap actions).Nodup) : (resources.map subject).Nodup := by
  obtain ⟨-, hdisjoint⟩ := List.nodup_flatMap.mp h
  rw [List.Nodup, List.pairwise_map]
  refine hdisjoint.imp fun {r other} hapart heq => ?_
  exact hapart (hmem r) (heq ▸ hmem other)

theorem nodup_flatMap_actions {resources : List Resource} :
    (resources.flatMap actions).Nodup ↔
      (resources.map fun r => upperCamelCase r.plural).Nodup ∧
      (resources.map fun r => upperCamelCase r.name).Nodup := by
  constructor
  · intro h
    exact ⟨nodup_map_of_nodup_actions list_mem_actions h,
      nodup_map_of_nodup_actions retrieve_mem_actions h⟩
  · rintro ⟨hplural, hname⟩
    rw [List.Nodup, List.pairwise_map] at hplural hname
    rw [List.nodup_flatMap]
    refine ⟨fun r _ => r.nodup_actions, (hplural.and hname).imp fun {r other} hne => ?_⟩
    exact disjoint_actions hne.1 hne.2

/-- Putting verb and name together keeps operations apart. -/
theorem nodup_operationIds {resources : List Resource} :
    ((resources.flatMap actions).map operationId).Nodup ↔ (resources.flatMap actions).Nodup := by
  refine ⟨List.Nodup.of_map operationId, fun h => h.map_on fun a ha b hb heq => ?_⟩
  obtain ⟨r, -, ha⟩ := List.mem_flatMap.mp ha
  obtain ⟨other, -, hb⟩ := List.mem_flatMap.mp hb
  obtain ⟨hverb, hsubject⟩ :=
    eq_of_verb_append (verb_mem_of_mem_actions ha) (verb_mem_of_mem_actions hb) heq
  exact Prod.ext hverb hsubject

end Resource

namespace Description

open Resource Naming

/-- The identifiers of a compiled description are those of the surviving resources. -/
theorem perm_operationIds (d : Description) : d.compile.operationIds.Perm
    (((survivors d.resources).flatMap actions).map operationId) := by
  have hids : (((survivors d.resources).flatMap pathEntries).flatMap fun entry =>
      entry.2.operationIds) = ((survivors d.resources).flatMap actions).map operationId := by
    rw [List.flatMap_assoc, List.map_flatMap]
    exact List.flatMap_congr fun r _ => operationIds_pathEntries r
  rw [← hids]
  exact d.perm_paths.flatMap_right _

/-- No two operations have the same identifier exactly if the surviving resources differ in the
camel case of their plurals, and in that of their names. -/
theorem operationIds_nodup_iff (d : Description) : d.compile.operationIds.Nodup ↔
    ((survivors d.resources).map fun r => upperCamelCase r.plural).Nodup ∧
    ((survivors d.resources).map fun r => upperCamelCase r.name).Nodup := by
  rw [d.perm_operationIds.nodup_iff, nodup_operationIds, nodup_flatMap_actions]

-- Plurals can differ in kebab case, so that both have a path, and still be the same in camel case.
example : kebabCase "x 1y" ≠ kebabCase "x1y" ∧ upperCamelCase "x 1y" = upperCamelCase "x1y" := by
  decide +kernel

end Description

end ResourceApi
