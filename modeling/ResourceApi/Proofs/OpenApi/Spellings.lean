import ResourceApi.Proofs.Naming.Styles
import ResourceApi.Proofs.OpenApi.OperationIds
import ResourceApi.Proofs.OpenApi.Targets

/-!
Descriptions whose names are spelled in different styles. Paths, keys of schemas, identifiers of
operations and references are made of the words of a name alone, so a description can be spelled in
another style without a change of any of them. Labels and texts do show the style.
-/

namespace ResourceApi

/-! ### The same words -/

namespace Naming

/-- Both names are spelled from the same words. -/
def Respelled (s t : String) : Prop :=
  ∃ (ws : List Word) (style other : Style), s = style.spell ws ∧ t = other.spell ws

theorem Respelled.kebabCase {s t : String} (h : Respelled s t) :
    Naming.kebabCase s = Naming.kebabCase t := by
  obtain ⟨ws, style, other, rfl, rfl⟩ := h
  rw [kebabCase_spell, kebabCase_spell]

theorem Respelled.upperCamelCase {s t : String} (h : Respelled s t) :
    Naming.upperCamelCase s = Naming.upperCamelCase t := by
  obtain ⟨ws, style, other, rfl, rfl⟩ := h
  rw [upperCamelCase_spell, upperCamelCase_spell]

end Naming

open OpenApi

/-- What is left of the operations on a path without labels and texts: the identifiers of the
operations and what the references point at. -/
def OpenApi.PathItem.outline (p : PathItem) : List String × List String :=
  (p.operationIds, p.targets)

namespace Resource

/-- Both resources have the same names, but for their style. -/
structure Respelled (r other : Resource) : Prop where
  name : Naming.Respelled r.name other.name
  plural : Naming.Respelled r.plural other.plural
  readonly_eq : r.readonly = other.readonly

variable {r other : Resource}

theorem Respelled.isReadonly (h : r.Respelled other) : r.isReadonly = other.isReadonly := by
  rw [Resource.isReadonly, h.readonly_eq, Resource.isReadonly]

theorem Respelled.schemaName (h : r.Respelled other) : r.schemaName = other.schemaName :=
  h.name.upperCamelCase

theorem Respelled.bodyResponse (h : r.Respelled other) :
    r.bodyResponse = other.bodyResponse := by
  funext description headers
  rw [Resource.bodyResponse, h.schemaName, Resource.bodyResponse]

theorem Respelled.segment (h : r.Respelled other) : r.segment = other.segment :=
  h.plural.kebabCase

/-- References do not depend on identifiers, texts and labels. -/
theorem targets_operation (id text : String) (responses : List (String × Response)) :
    (r.operation id text responses).targets =
      (Dict.ofEntries responses).entries.flatMap fun entry => entry.2.targets := rfl

theorem Respelled.outline_collectionItem (h : r.Respelled other) :
    r.collectionItem.outline = other.collectionItem.outline := by
  have hids : r.collectionItem.operationIds = other.collectionItem.operationIds := by
    rw [operationIds_collectionItem, operationIds_collectionItem, collectionVerbs, h.isReadonly,
      h.plural.upperCamelCase, collectionVerbs]
  have htargets : r.collectionItem.targets = other.collectionItem.targets := by
    rw [collectionItem, collectionItem, h.isReadonly, h.bodyResponse]
    cases other.isReadonly <;> simp [PathItem.targets, PathItem.operations, targets_operation]
  rw [PathItem.outline, hids, htargets, PathItem.outline]

theorem Respelled.outline_singleItem (h : r.Respelled other) :
    r.singleItem.outline = other.singleItem.outline := by
  have hids : r.singleItem.operationIds = other.singleItem.operationIds := by
    rw [operationIds_singleItem, operationIds_singleItem, itemVerbs, h.isReadonly,
      h.name.upperCamelCase, itemVerbs]
  have htargets : r.singleItem.targets = other.singleItem.targets := by
    rw [singleItem, singleItem, h.isReadonly, h.bodyResponse]
    cases other.isReadonly <;> simp [PathItem.targets, PathItem.operations, targets_operation]
  rw [PathItem.outline, hids, htargets, PathItem.outline]

/-- The entries of a resource without labels and texts. -/
theorem Respelled.pathEntries (h : r.Respelled other) :
    r.pathEntries.map (fun entry => (entry.1, entry.2.outline)) =
      other.pathEntries.map fun entry => (entry.1, entry.2.outline) := by
  simp only [Resource.pathEntries, List.map_cons, List.map_nil, collectionPath_eq, itemPath_eq,
    h.segment, h.outline_collectionItem, h.outline_singleItem]

end Resource

namespace Description

open Resource

/-- Both descriptions say the same, but for the style of the names of their resources. -/
structure Respelled (d other : Description) : Prop where
  title_eq : d.title = other.title
  description_eq : d.description = other.description
  contact_eq : d.contact = other.contact
  resources : List.Forall₂ Resource.Respelled d.resources other.resources

variable {d other : Description}

/-- Resources that share a path lose it to the same later one in both descriptions, since a path is
made of words alone. -/
theorem Respelled.outlines (h : d.Respelled other) :
    d.paths.entries.map (fun entry => (entry.1, entry.2.outline)) =
      other.paths.entries.map fun entry => (entry.1, entry.2.outline) := by
  have hresources := map_eq_map_of_forall₂ (fun _ _ hr => hr.pathEntries) h.resources
  have hentries : (d.resources.flatMap Resource.pathEntries).map
        (fun entry => (entry.1, entry.2.outline)) =
      (other.resources.flatMap Resource.pathEntries).map
        fun entry => (entry.1, entry.2.outline) := by
    rw [List.map_flatMap, List.map_flatMap, List.flatMap_def, List.flatMap_def, hresources]
  calc d.paths.entries.map (fun entry => (entry.1, entry.2.outline))
      = Entries.putAll [] ((d.resources.flatMap Resource.pathEntries).map
          fun entry => (entry.1, entry.2.outline)) := by
        rw [paths, Dict.entries_ofEntries, Entries.putAll_map]
        rfl
    _ = other.paths.entries.map fun entry => (entry.1, entry.2.outline) := by
        rw [hentries, paths, Dict.entries_ofEntries, Entries.putAll_map]
        rfl

/-- What is read off the outline of each path is the same in both documents. -/
theorem Respelled.flatMap_outline (h : d.Respelled other)
    (read : List String × List String → List String) :
    d.paths.entries.flatMap (fun entry => read entry.2.outline) =
      other.paths.entries.flatMap fun entry => read entry.2.outline := by
  calc d.paths.entries.flatMap (fun entry => read entry.2.outline)
      = (d.paths.entries.map fun entry => (entry.1, entry.2.outline)).flatMap
          fun entry => read entry.2 := by
        rw [List.flatMap_map]
    _ = (other.paths.entries.map fun entry => (entry.1, entry.2.outline)).flatMap
          fun entry => read entry.2 := by
        rw [h.outlines]
    _ = other.paths.entries.flatMap fun entry => read entry.2.outline := by
        rw [List.flatMap_map]

theorem Respelled.get?_outline (h : d.Respelled other) (path : String) :
    (d.paths.get? path).map PathItem.outline = (other.paths.get? path).map PathItem.outline := by
  rw [Dict.get?, ← Entries.find?_map, h.outlines, Entries.find?_map, Dict.get?]

theorem Respelled.keys_paths (h : d.Respelled other) : d.paths.keys = other.paths.keys := by
  have hkeys := congrArg (List.map Prod.fst) h.outlines
  rwa [List.map_map, List.map_map] at hkeys

theorem Respelled.schemas (h : d.Respelled other) : d.schemas = other.schemas := by
  have hresources : d.resources.map (fun r => (r.schemaName, r.schema)) =
      other.resources.map fun r => (r.schemaName, r.schema) := by
    apply map_eq_map_of_forall₂ _ h.resources
    intro r s hr
    rw [hr.schemaName, schema, schema]
  rw [Description.schemas, hresources, Description.schemas]

/-- **The style of names does not matter.** All spellings of some words are the same in kebab case,
and the same in upper camel case. So descriptions that differ in the style of their names only have
the same paths and the same schemas, and on each path operations with the same identifiers and the
same references. -/
theorem naming_style_is_immaterial :
    (∀ (style : Naming.Style) (ws : List Naming.Word),
      Naming.kebabCase (style.spell ws) =
        String.ofList (List.intercalate ['-'] (ws.map Naming.Word.chars)) ∧
      Naming.upperCamelCase (style.spell ws) =
        String.ofList (ws.flatMap Naming.Word.capitalised)) ∧
    ∀ d other : Description, d.Respelled other →
      d.compile.paths.keys = other.compile.paths.keys ∧
      d.compile.components = other.compile.components ∧
      d.compile.operationIds = other.compile.operationIds ∧
      d.compile.targets = other.compile.targets ∧
      ∀ path, (d.compile.paths.get? path).map (fun item => (item.operationIds, item.targets)) =
        (other.compile.paths.get? path).map fun item => (item.operationIds, item.targets) := by
  constructor
  · intro style ws
    exact ⟨Naming.kebabCase_spell style ws, Naming.upperCamelCase_spell style ws⟩
  · intro d other h
    have hcomponents : d.compile.components = other.compile.components := by
      rw [compile, compile, h.schemas]
    exact ⟨h.keys_paths, hcomponents, h.flatMap_outline Prod.fst, h.flatMap_outline Prod.snd,
      h.get?_outline⟩

/-- A blog with names in camel case and in Pascal case. -/
def blogInCamelCase : Description where
  title := "T"
  description := "D"
  contact := ⟨"A", "a@b.nl", "a:b"⟩
  resources := [⟨"blogPost", "BlogPosts", none⟩, ⟨"item2Go", "items2Go", some true⟩]

/-- The same blog with names in snake case and with blanks. -/
def blogInSnakeCase : Description where
  title := "T"
  description := "D"
  contact := ⟨"A", "a@b.nl", "a:b"⟩
  resources := [⟨"blog_post", "blog posts", none⟩, ⟨"Item2Go", "items2_go", some true⟩]

theorem respelled_blog : blogInCamelCase.Respelled blogInSnakeCase := by
  let blog := Naming.Word.ofChars 'b' 'l' ['o', 'g'] (by decide)
  let post := Naming.Word.ofChars 'p' 'o' ['s', 't'] (by decide)
  let posts := Naming.Word.ofChars 'p' 'o' ['s', 't', 's'] (by decide)
  let item2 := Naming.Word.ofChars 'i' 't' ['e', 'm', '2'] (by decide)
  let items2 := Naming.Word.ofChars 'i' 't' ['e', 'm', 's', '2'] (by decide)
  let go := Naming.Word.ofChars 'g' 'o' [] (by decide)
  refine ⟨rfl, rfl, rfl, .cons ?_ (.cons ?_ .nil)⟩
  · exact ⟨⟨[blog, post], .camel, .snake, by decide, by decide⟩,
      ⟨[blog, posts], .pascal, .spaced, by decide, by decide⟩, rfl⟩
  · exact ⟨⟨[item2, go], .camel, .pascal, by decide, by decide⟩,
      ⟨[items2, go], .camel, .snake, by decide, by decide⟩, rfl⟩

theorem naming_style_is_immaterial_blog :
    blogInCamelCase.Respelled blogInSnakeCase ∧
    blogInCamelCase.compile.tags ≠ blogInSnakeCase.compile.tags ∧
    blogInSnakeCase.compile.paths.keys =
      ["/blog-posts", "/blog-posts/{id}", "/items2-go", "/items2-go/{id}"] ∧
    blogInSnakeCase.compile.operationIds = ["listBlogPosts", "createBlogPosts", "retrieveBlogPost",
      "editBlogPost", "removeBlogPost", "listItems2Go", "retrieveItem2Go"] ∧
    blogInCamelCase.compile.paths.keys = blogInSnakeCase.compile.paths.keys ∧
    blogInCamelCase.compile.operationIds = blogInSnakeCase.compile.operationIds := by
  obtain ⟨hpaths, -, hids, -⟩ :=
    naming_style_is_immaterial.2 blogInCamelCase blogInSnakeCase respelled_blog
  exact ⟨respelled_blog, by decide +kernel, by decide +kernel, by decide +kernel, hpaths, hids⟩

end Description

end ResourceApi
