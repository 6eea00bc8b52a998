import ResourceApi.OpenApi.Document
import ResourceApi.Proofs.Dictionaries
import ResourceApi.Proofs.Json.Selecting

/-!
The references of a document. Whatever stands under `$ref` anywhere in the tree of a document is a
target of one of its parameters, headers, bodies or responses; no other key of the tree is `$ref`
with a string behind it.
-/

namespace ResourceApi

namespace Json

/-! ### References in trees -/

/-- Every string that stands under `$ref` in the value satisfies a condition. -/
def EachReference (P : String → Prop) (v : Json) : Prop :=
  ∀ path target, v.at? (path ++ [.key "$ref"]) = some (.string target) → P target

variable {P : String → Prop}

theorem eachReference_of_parts {v : Json}
    (href : ∀ target, v.member? "$ref" = some (.string target) → P target)
    (hparts : ∀ step part, v.step? step = some part → EachReference P part) :
    EachReference P v := by
  intro path target h
  cases path with
  | nil =>
      obtain ⟨part, hpart, h⟩ := Option.bind_eq_some_iff.mp h
      obtain rfl := Option.some.inj h
      exact href target hpart
  | cons step path =>
      obtain ⟨part, hpart, h⟩ := Option.bind_eq_some_iff.mp h
      exact hparts step part hpart path target h

@[simp]
theorem eachReference_string (s : String) : EachReference P (.string s) :=
  eachReference_of_parts (fun _ h => by cases h) fun step _ h => by cases step <;> cases h

@[simp]
theorem eachReference_bool (b : Bool) : EachReference P (.bool b) :=
  eachReference_of_parts (fun _ h => by cases h) fun step _ h => by cases step <;> cases h

theorem eachReference_array {items : List Json} (h : ∀ item ∈ items, EachReference P item) :
    EachReference P (.array items) := by
  refine eachReference_of_parts (fun _ h => by cases h) fun step part hpart => ?_
  cases step with
  | key => cases hpart
  | index i => exact h part (List.mem_of_getElem? hpart)

theorem eachReference_object {members : Entries Json}
    (href : ∀ target, Entries.find? "$ref" members = some (.string target) → P target)
    (h : ∀ entry ∈ members, EachReference P entry.2) : EachReference P (.object members) := by
  refine eachReference_of_parts href fun step part hpart => ?_
  cases step with
  | key k => exact h (k, part) (Entries.mem_of_find? hpart)
  | index => cases hpart

/-- An object with other keys has only the references of its members. -/
theorem eachReference_fields {members : Entries Json} (hkey : "$ref" ∉ members.keys)
    (h : ∀ entry ∈ members, EachReference P entry.2) : EachReference P (.object members) := by
  refine eachReference_object (fun target htarget => ?_) h
  rw [Entries.find?_eq_none.mpr hkey] at htarget
  cases htarget

end Json

namespace OpenApi

open Json (EachReference eachReference_object eachReference_fields eachReference_array)

variable {P : String → Prop}

/-- Values in a dictionary are no strings, so no key is taken for that of a reference. -/
theorem eachReference_dict {α : Type} {f : α → Json} {d : Dict α} (hf : ∀ a s, f a ≠ .string s)
    (h : ∀ entry ∈ d.entries, EachReference P (f entry.2)) :
    EachReference P (dictToJson f d) := by
  refine eachReference_object (fun target htarget => ?_) fun entry hentry => ?_
  · rw [Entries.find?_map] at htarget
    obtain ⟨a, -, ha⟩ := Option.map_eq_some_iff.mp htarget
    exact absurd ha (hf a target)
  · obtain ⟨origin, horigin, rfl⟩ := List.mem_map.mp hentry
    exact h origin horigin

/-! ### Targets -/

def Response.targets : Response → List String
  | .reference r => [r.target]
  | .inline r =>
    (r.headers.entries.map fun entry => entry.2.target) ++
      r.content.entries.map fun entry => entry.2.schema.target

def Operation.targets (o : Operation) : List String :=
  o.responses.entries.flatMap fun entry => entry.2.targets

def PathItem.targets (p : PathItem) : List String :=
  p.parameters.map Reference.target ++ p.operations.flatMap fun entry => entry.2.targets

/-- What the references of a document point at. -/
def Document.targets (doc : Document) : List String :=
  doc.paths.entries.flatMap fun entry => entry.2.targets

theorem Reference.eachReference {r : Reference} (h : P r.target) : EachReference P r.toJson := by
  refine eachReference_object (fun target htarget => ?_) (by simp)
  rw [Entries.find?, if_pos rfl] at htarget
  obtain rfl := Json.string.inj (Option.some.inj htarget)
  exact h

theorem MediaType.eachReference {m : MediaType} (h : P m.schema.target) :
    EachReference P m.toJson :=
  eachReference_fields (by simp [Entries.keys])
    (List.forall_mem_singleton.mpr (Reference.eachReference h))

theorem InlineResponse.eachReference {r : InlineResponse}
    (h : ∀ t ∈ (Response.inline r).targets, P t) : EachReference P r.toJson := by
  obtain ⟨hheaders, hcontent⟩ := List.forall_mem_append.mp h
  rw [List.forall_mem_map] at hheaders hcontent
  have headers : EachReference P (dictToJson Reference.toJson r.headers) :=
    eachReference_dict (fun _ _ h => by cases h) fun entry hentry =>
      Reference.eachReference (hheaders entry hentry)
  have content : EachReference P (dictToJson MediaType.toJson r.content) :=
    eachReference_dict (fun _ _ h => by cases h) fun entry hentry =>
      MediaType.eachReference (hcontent entry hentry)
  exact eachReference_fields (by simp [Entries.keys]) (by simp [headers, content])

theorem Response.eachReference {r : Response} (h : ∀ t ∈ r.targets, P t) :
    EachReference P r.toJson := by
  cases r with
  | reference r => exact Reference.eachReference (h r.target List.mem_cons_self)
  | inline r => exact InlineResponse.eachReference h

theorem Operation.eachReference {o : Operation} (h : ∀ t ∈ o.targets, P t) :
    EachReference P o.toJson := by
  have tags : EachReference P (.array (o.tags.map .string)) := by
    refine eachReference_array fun item hitem => ?_
    obtain ⟨tag, -, rfl⟩ := List.mem_map.mp hitem
    exact Json.eachReference_string tag
  have responses : EachReference P (dictToJson Response.toJson o.responses) := by
    refine eachReference_dict (fun r _ h => by cases r <;> cases h) fun entry hentry => ?_
    exact Response.eachReference fun t ht => h t (List.mem_flatMap.mpr ⟨entry, hentry, ht⟩)
  exact eachReference_fields (by simp [Entries.keys]) (by simp [tags, responses])

theorem PathItem.mem_operations {p : PathItem} {method : String} {o : Operation} :
    (method, o) ∈ p.operations ↔ (method = "get" ∧ o = p.get) ∨
      (method = "put" ∧ p.put = some o) ∨ (method = "post" ∧ p.post = some o) ∨
      (method = "delete" ∧ p.delete = some o) := by
  simp only [operations, List.mem_append, List.mem_singleton, Option.mem_toList,
    Option.map_eq_some_iff, Prod.mk.injEq]
  grind

theorem PathItem.method_ne {p : PathItem} {entry : String × Operation}
    (h : entry ∈ p.operations) : entry.1 ∉ ["parameters", "$ref"] := by
  rcases mem_operations.mp h with ⟨h, -⟩ | ⟨h, -⟩ | ⟨h, -⟩ | ⟨h, -⟩ <;> rw [h] <;> decide

theorem PathItem.eachReference {p : PathItem} (h : ∀ t ∈ p.targets, P t) :
    EachReference P p.toJson := by
  obtain ⟨hparameters, hoperations⟩ := List.forall_mem_append.mp h
  rw [List.forall_mem_map] at hparameters
  have hmembers : ∀ entry ∈ (if p.parameters.isEmpty then []
        else [("parameters", Json.array (p.parameters.map Reference.toJson))])
      ++ p.operations.map (fun entry => (entry.1, entry.2.toJson)),
      entry.1 ≠ "$ref" ∧ EachReference P entry.2 := by
    refine List.forall_mem_append.mpr ⟨?_, ?_⟩
    · split
      · simp
      · refine List.forall_mem_singleton.mpr ⟨by simp, eachReference_array ?_⟩
        exact List.forall_mem_map.mpr fun r hr => Reference.eachReference (hparameters r hr)
    · refine List.forall_mem_map.mpr fun entry hentry => ⟨fun heq => ?_, ?_⟩
      · exact method_ne hentry (List.mem_cons_of_mem _ (List.mem_singleton.mpr heq))
      · exact Operation.eachReference fun t ht =>
          hoperations t (List.mem_flatMap.mpr ⟨entry, hentry, ht⟩)
  refine eachReference_fields (fun hkey => ?_) fun entry hentry => (hmembers entry hentry).2
  obtain ⟨entry, hentry, heq⟩ := List.mem_map.mp hkey
  exact (hmembers entry hentry).1 heq

/-! ### Parts without references -/

theorem PropertySchema.eachReference (s : PropertySchema) : EachReference P s.toJson := by
  cases hformat : s.format <;>
    exact eachReference_fields (by simp [Entries.keys, hformat]) (by simp [hformat])

theorem Schema.eachReference (s : Schema) : EachReference P s.toJson := by
  have properties : EachReference P (dictToJson PropertySchema.toJson s.properties) :=
    eachReference_dict (fun _ _ h => by cases h) fun entry _ => entry.2.eachReference
  exact eachReference_fields (by simp [Entries.keys]) (by simp [properties])

theorem Parameter.eachReference (p : Parameter) : EachReference P p.toJson :=
  eachReference_fields (by simp [Entries.keys]) (by simp [PropertySchema.eachReference])

theorem Components.eachReference (c : Components) : EachReference P c.toJson := by
  have schemas : EachReference P (dictToJson Schema.toJson c.schemas) :=
    eachReference_dict (fun _ _ h => by cases h) fun entry _ => entry.2.eachReference
  have parameters : EachReference P (dictToJson Parameter.toJson c.parameters) :=
    eachReference_dict (fun _ _ h => by cases h) fun entry _ => entry.2.eachReference
  exact eachReference_fields (by simp [Entries.keys]) (by simp [schemas, parameters])

theorem Info.eachReference (i : Info) : EachReference P i.toJson := by
  have contact : EachReference P i.contact.toJson :=
    eachReference_fields (by simp [Entries.keys]) (by simp)
  exact eachReference_fields (by simp [Entries.keys]) (by simp [contact])

theorem eachReference_map {α : Type} {f : α → Json} {as : List α}
    (h : ∀ a, EachReference P (f a)) : EachReference P (.array (as.map f)) :=
  eachReference_array (List.forall_mem_map.mpr fun a _ => h a)

/-- Every reference in the tree of a document is one of its targets. -/
theorem Document.eachReference (doc : Document) : EachReference (· ∈ doc.targets) doc.toJson := by
  have servers : EachReference (· ∈ doc.targets) (.array (doc.servers.map Server.toJson)) :=
    eachReference_map fun _ => eachReference_fields (by simp [Entries.keys]) (by simp)
  have tags : EachReference (· ∈ doc.targets) (.array (doc.tags.map Tag.toJson)) :=
    eachReference_map fun _ => eachReference_fields (by simp [Entries.keys]) (by simp)
  have paths : EachReference (· ∈ doc.targets) (dictToJson PathItem.toJson doc.paths) := by
    refine eachReference_dict (fun _ _ h => by cases h) fun entry hentry => ?_
    exact PathItem.eachReference fun t ht => List.mem_flatMap.mpr ⟨entry, hentry, ht⟩
  have info := Info.eachReference (P := (· ∈ doc.targets)) doc.info
  have components := Components.eachReference (P := (· ∈ doc.targets)) doc.components
  exact eachReference_fields (by simp [Entries.keys])
    (by simp [info, servers, tags, paths, components])

end OpenApi

end ResourceApi
