import ResourceApi.OpenApi.Compile
import ResourceApi.Proofs.Yaml.Parsing

/-!
The YAML text of a document carries its tree. Nothing in a document is a number, so its text is read
as the same tree whatever the strings in it are: the fields of every record and the entries of every
map come back in the order in which they were written.
-/

namespace ResourceApi

namespace OpenApi

open Yaml (Numberless)

variable {α : Type} {f : α → Json}

theorem numberless_map (hf : ∀ a, Numberless (f a)) (items : List α) :
    Numberless (.array (items.map f)) :=
  .array (List.forall_mem_map.mpr fun a _ => hf a)

theorem numberless_dict (hf : ∀ a, Numberless (f a)) (d : Dict α) :
    Numberless (dictToJson f d) :=
  .object (List.forall_mem_map.mpr fun entry _ => hf entry.2)

theorem numberless_reference (r : Reference) : Numberless r.toJson :=
  .object (by simp [Numberless.string])

theorem numberless_mediaType (m : MediaType) : Numberless m.toJson :=
  .object (by simp [numberless_reference])

theorem numberless_response (r : Response) : Numberless r.toJson := by
  cases r with
  | reference r => exact numberless_reference r
  | inline r =>
      have hheaders := numberless_dict numberless_reference r.headers
      have hcontent := numberless_dict numberless_mediaType r.content
      exact .object (by simp [Numberless.string, hheaders, hcontent])

theorem numberless_operation (o : Operation) : Numberless o.toJson := by
  have htags := numberless_map .string o.tags
  have hresponses := numberless_dict numberless_response o.responses
  exact .object (by simp [Numberless.string, htags, hresponses])

theorem numberless_pathItem (p : PathItem) : Numberless p.toJson := by
  have hparameters := numberless_map numberless_reference p.parameters
  refine .object (List.forall_mem_append.mpr ⟨?_, ?_⟩)
  · split
    · simp
    · simpa using hparameters
  · exact List.forall_mem_map.mpr fun entry _ => numberless_operation entry.2

theorem numberless_propertySchema (s : PropertySchema) : Numberless s.toJson := by
  refine .object ?_
  cases s.format with
  | none => simp [Numberless.string]
  | some f => simp [Numberless.string]

theorem numberless_schema (s : Schema) : Numberless s.toJson := by
  have hproperties := numberless_dict numberless_propertySchema s.properties
  exact .object (by simp [hproperties])

theorem numberless_parameter (p : Parameter) : Numberless p.toJson :=
  .object (by simp [Numberless.string, Numberless.bool, numberless_propertySchema])

theorem numberless_components (c : Components) : Numberless c.toJson := by
  have hschemas := numberless_dict numberless_schema c.schemas
  have hparameters := numberless_dict numberless_parameter c.parameters
  exact .object (by simp [hschemas, hparameters])

theorem numberless_info (i : Info) : Numberless i.toJson := by
  have hcontact : Numberless i.contact.toJson := .object (by simp [Numberless.string])
  exact .object (by simp [Numberless.string, hcontact])

theorem numberless_server (s : Server) : Numberless s.toJson :=
  .object (by simp [Numberless.string])

theorem numberless_tag (t : Tag) : Numberless t.toJson :=
  .object (by simp [Numberless.string])

namespace Document

/-- The YAML text of a document is read as its tree. -/
theorem ofText?_yamlText (d : Document) :
    (Yaml.Node.ofText? d.yamlText).bind Yaml.Node.toJson? = some d.toJson := by
  have hservers := numberless_map numberless_server d.servers
  have htags := numberless_map numberless_tag d.tags
  have hpaths := numberless_dict numberless_pathItem d.paths
  have hinfo := numberless_info d.info
  have hcomponents := numberless_components d.components
  rw [yamlText, toJson]
  exact Yaml.Node.ofText?_render (List.cons_ne_nil _ _)
    (by simp [Numberless.string, hinfo, hservers, htags, hpaths, hcomponents])

end Document

end OpenApi

namespace Description

/-- For every description, the YAML text of the compiled document is read as exactly its tree. -/
theorem yamlText_has_same_tree (d : Description) :
    (Yaml.Node.ofText? d.compile.yamlText).bind Yaml.Node.toJson? = some d.compile.toJson :=
  d.compile.ofText?_yamlText

end Description

end ResourceApi
