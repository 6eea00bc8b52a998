import ResourceApi.OpenApi.Read
import ResourceApi.Proofs.Descriptions
import ResourceApi.Proofs.Dictionaries
import ResourceApi.Proofs.Json.Encoding

/-!
What the trees of documents encode. The tree of a document gives the document back: dictionaries
keep the order of their keys, fields that are left out come back empty, and a response that is
written out is not taken for a reference.
-/

namespace ResourceApi.Json

open Reader OpenApi

variable {α : Type} {decoder : Decoder α} {f : Json → Option α}

/-! ### Dictionaries -/

/-- Reads one more value and puts it under its key. -/
def dictStep (decoder : Decoder α) (depth : Nat) (done : Dict α) (key : String) :
    Reader (Dict α) := fun s =>
  match colon s with
  | .error f => .error f
  | .ok (_, s) => (decoder depth s).map fun r => (done.insert key r.1, r.2)

/-- Values may be put under their keys as they are read or after all of them have been read. -/
theorem foldlM_insert (f : Json → Option α) (members : Entries Json) (done : Dict α) :
    members.foldlM (fun done entry => (f entry.2).map (done.insert entry.1)) done =
      (members.mapM fun entry => (f entry.2).map fun a => (entry.1, a)).map
        fun entries => entries.foldl (fun d entry => d.insert entry.1 entry.2) done := by
  induction members generalizing done with
  | nil => rfl
  | cons entry members ih =>
      rw [List.foldlM_cons, List.mapM_cons]
      cases hentry : f entry.2 with
      | none => rfl
      | some a =>
          simp only [Option.map_some, Option.bind_eq_bind, Option.bind_some, ih]
          cases members.mapM fun entry => (f entry.2).map fun a => (entry.1, a) <;> rfl

theorem Decodes.dict (hf : Decodes decoder f) : Decodes (Decoder.dict decoder) (dictOf? f) := by
  intro depth text w h lead rest hlead hrest
  obtain ⟨c, t, rfl, hc⟩ := h.opens
  rw [Decoder.dict, skipBlank_append hlead, List.cons_append, skipBlank_cons hc.not_blank]
  split
  · rename_i heq
    obtain ⟨rfl, rfl⟩ := List.cons.inj heq
    obtain ⟨ws, rfl⟩ := h.starts.brace rfl
    cases h with
    | @object depth blank members hblank hspaced hmembers =>
        have hstep : ∀ m ∈ members, ∀ done, ReadsMember (dictStep decoder depth done m.key) m
            ((f m.value).map (done.insert m.key)) := by
          intro m hm done rest hrest
          have hread := hf (hmembers m hm) m.beforeValue rest (hspaced m hm).beforeValue hrest
          simp only [dictStep, colon_append (hspaced m hm).beforeColon, map_toOption, hread]
          cases f m.value <;> rfl
        have hloop := members_remaining hspaced hstep hblank rest true
          (length_lt_listed '}' blank members Member.chars rest) .empty
        have hfold := foldlM_insert f (members.map Member.entry) .empty
        rw [List.foldlM_map] at hfold
        have hinside := bracketed_toOption hloop (closeObject_cons rest)
        exact hinside.trans (congrArg (Option.map fun d => (d, rest)) hfold)
  · rename_i hother
    cases w with
    | object ms =>
        cases h
        exact absurd rfl (hother _)
    | null | bool | number | string | array => rfl

theorem Encodes.dict {toJson : α → Json} {depth : Nat} (h : ∀ a, Encodes f depth (toJson a) a)
    (d : Dict α) : Encodes (dictOf? f) (depth + 1) (dictToJson toJson d) d := by
  constructor
  · have hentries : (d.entries.map fun entry => (entry.1, toJson entry.2)).mapM
        (fun entry => (f entry.2).map fun a => (entry.1, a)) = some d.entries := by
      apply mapM_map_of_taken
      intro entry _
      dsimp only
      rw [(h entry.2).taken]
      rfl
    rw [dictToJson, dictOf?, hentries, Option.map_some, Dict.ofEntries_entries]
  · apply Printable.object
    intro entry hentry
    obtain ⟨source, -, rfl⟩ := List.mem_map.mp hentry
    exact (h source.2).printable

end ResourceApi.Json

namespace ResourceApi.OpenApi

open Json

variable {depth : Nat}

/-! ### Responses -/

namespace Reference

def parts : List (TreeField Reference) :=
  [.mandatory "$ref" decodes_string fun r s => { r with target := s }]

/-- The reference that a tree stands for where no other form is possible. -/
def ofRecord? : Json → Option Reference := asRecord? parts record.initial

theorem decodes : Decodes record.decoder ofRecord? := Decodes.record rfl

theorem printable (r : Reference) : Printable (depth + 1) r.toJson :=
  .object (by simp [Printable.string])

theorem encodes_ofRecord (r : Reference) : Encodes ofRecord? (depth + 1) r.toJson r :=
  .record (List.nodup_singleton _) (.string .nil)

/-- A reference is also taken from a tree that has been read as a whole. -/
theorem encodes (r : Reference) : Encodes ofTree? (depth + 1) r.toJson r := by
  refine ⟨?_, r.printable⟩
  simp [toJson, ofTree?, once?, stringOf?]

end Reference

theorem MediaType.encodes (m : MediaType) : Encodes ofTree? (depth + 2) m.toJson m := by
  have hschema : Encodes Reference.ofTree? (depth + 1) m.schema.toJson m.schema := m.schema.encodes
  constructor
  · simp [toJson, ofTree?, once?, hschema.taken]
  · exact .object (by simp [hschema.printable])

theorem InlineResponse.encodes (r : InlineResponse) :
    Encodes ofTree? (depth + 4) r.toJson r := by
  have hheaders : Encodes (dictOf? Reference.ofTree?) (depth + 3)
      (dictToJson Reference.toJson r.headers) r.headers := .dict Reference.encodes r.headers
  have hcontent : Encodes (dictOf? MediaType.ofTree?) (depth + 3)
      (dictToJson MediaType.toJson r.content) r.content := .dict MediaType.encodes r.content
  constructor
  · simp [toJson, ofTree?, once?, stringOf?, hheaders.taken, hcontent.taken]
  · exact .object (by simp [hheaders.printable, hcontent.printable, Printable.string])

namespace Response

/-- Which of the two forms a response has is seen when all its members have been read. -/
theorem decodes : Decodes decoder ofTree? := by
  intro depth text w h lead rest hlead hrest
  have hread : (Reader.everyMember depth (lead ++ (text ++ rest))).toOption = some (w, rest) := by
    rw [Reader.everyMember, h.reads lead rest hlead hrest, gathered_append]
    rfl
  rw [decoder]
  rw [eq_ok_of_toOption hread]
  dsimp only
  cases ofTree? w <;> rfl

/-- A response that is written out has no member that a reference has. -/
theorem reference_ofTree?_inline (r : InlineResponse) : Reference.ofTree? r.toJson = none := by
  simp [InlineResponse.toJson, Reference.ofTree?, once?]

theorem encodes (r : Response) : Encodes ofTree? (depth + 4) r.toJson r := by
  cases r with
  | reference r =>
      have hr : Encodes Reference.ofTree? (depth + 4) r.toJson r := r.encodes
      refine ⟨?_, hr.printable⟩
      rw [toJson, ofTree?, hr.taken]
  | inline r =>
      have hr : Encodes InlineResponse.ofTree? (depth + 4) r.toJson r := r.encodes
      refine ⟨?_, hr.printable⟩
      rw [toJson, ofTree?, reference_ofTree?_inline, hr.taken]
      rfl

end Response

/-! ### Operations and paths -/

namespace Operation

def parts : List (TreeField Operation) := [
  .mandatory "operationId" decodes_string fun o s => { o with operationId := s },
  .mandatory "description" decodes_string fun o s => { o with description := s },
  .mandatory "summary" decodes_string fun o s => { o with summary := s },
  .mandatory "tags" decodes_string.list fun o ts => { o with tags := ts },
  .mandatory "responses" Response.decodes.dict fun o rs => { o with responses := rs }]

/-- The operation that a tree stands for. -/
def ofTree? : Json → Option Operation := asRecord? parts record.initial

theorem decodes : Decodes record.decoder ofTree? := Decodes.record rfl

theorem encodes (o : Operation) : Encodes ofTree? (depth + 6) o.toJson o := by
  refine .record (by decide) ?_
  refine .string <| .string <| .string <| .mandatory decodes_string.list ?_ <|
    .mandatory Response.decodes.dict ?_ .nil
  · exact .list fun tag _ => encodes_string tag
  · exact .dict Response.encodes o.responses

end Operation

namespace PathItem

def parts : List (TreeField PathItem) := [
  .defaulted "parameters" Reference.decodes.list fun p rs => { p with parameters := rs },
  .mandatory "get" Operation.decodes fun p o => { p with get := o },
  .defaulted "put" Operation.decodes.optional fun p o => { p with put := o },
  .defaulted "post" Operation.decodes.optional fun p o => { p with post := o },
  .defaulted "delete" Operation.decodes.optional fun p o => { p with delete := o }]

/-- The path that a tree stands for. -/
def ofTree? : Json → Option PathItem := asRecord? parts record.initial

theorem decodes : Decodes record.decoder ofTree? := Decodes.record rfl

/-- The members of the operations; methods without one have no member. -/
theorem map_operations (p : PathItem) :
    (p.operations.map fun entry => (entry.1, entry.2.toJson)) =
      ("get", p.get.toJson) :: ((p.put.map fun o => ("put", o.toJson)).toList ++
        ((p.post.map fun o => ("post", o.toJson)).toList ++
          ((p.delete.map fun o => ("delete", o.toJson)).toList ++ []))) := by
  obtain ⟨parameters, get, put, post, delete⟩ := p
  cases put <;> cases post <;> cases delete <;> rfl

theorem encodes (p : PathItem) : Encodes ofTree? (depth + 7) p.toJson p := by
  have hoperation : ∀ {o : Option Operation}, ∀ x ∈ o,
      Encodes Operation.ofTree? (depth + 6) x.toJson x := fun x _ => x.encodes
  have hnull : ∀ o : Operation, o.toJson ≠ .null := by simp [Operation.toJson]
  have hoperations : ∀ a : PathItem, a.put = none → a.post = none → a.delete = none →
      Fills (depth + 6) parts.tail (p.operations.map fun entry => (entry.1, entry.2.toJson)) a
        { p with parameters := a.parameters } := by
    rintro ⟨parameters, get, put, post, delete⟩ rfl rfl rfl
    rw [map_operations]
    exact .mandatory Operation.decodes p.get.encodes <|
      .optional Operation.decodes rfl hoperation hnull <|
      .optional Operation.decodes rfl hoperation hnull <|
      .optional Operation.decodes rfl hoperation hnull .nil
  refine .record (by decide) ?_
  split
  · rename_i hempty
    obtain ⟨parameters, get, put, post, delete⟩ := p
    obtain rfl := List.isEmpty_iff.mp hempty
    exact .skip rfl (hoperations default rfl rfl rfl)
  · refine .defaulted Reference.decodes.list (.list fun r _ => r.encodes_ofRecord) ?_
    exact hoperations _ rfl rfl rfl

end PathItem

/-! ### Components -/

namespace PropertySchema

def parts : List (TreeField PropertySchema) := [
  .mandatory "type" decodes_string fun p s => { p with kind := s },
  .defaulted "format" decodes_string.optional fun p f => { p with format := f }]

/-- The schema of a property that a tree stands for. -/
def ofTree? : Json → Option PropertySchema := asRecord? parts record.initial

theorem decodes : Decodes record.decoder ofTree? := Decodes.record rfl

theorem encodes (s : PropertySchema) : Encodes ofTree? (depth + 1) s.toJson s := by
  rw [toJson, ← List.append_nil (Option.toList _)]
  refine .record (by decide) (.string (.optional decodes_string rfl ?_ ?_ .nil))
  · exact fun x _ => encodes_string x
  · simp

end PropertySchema

namespace Schema

def parts : List (TreeField Schema) :=
  [.mandatory "properties" PropertySchema.decodes.dict fun s ps => { s with properties := ps }]

/-- The schema that a tree stands for. -/
def ofTree? : Json → Option Schema := asRecord? parts record.initial

theorem decodes : Decodes record.decoder ofTree? := Decodes.record rfl

theorem encodes (s : Schema) : Encodes ofTree? (depth + 3) s.toJson s :=
  .record (List.nodup_singleton _) <|
    .mandatory PropertySchema.decodes.dict (.dict PropertySchema.encodes s.properties) .nil

end Schema

namespace Parameter

def parts : List (TreeField Parameter) := [
  .mandatory "name" decodes_string fun p s => { p with name := s },
  .mandatory "in" decodes_string fun p s => { p with location := s },
  .mandatory "description" decodes_string fun p s => { p with description := s },
  .mandatory "required" decodes_bool fun p b => { p with required := b },
  .mandatory "schema" PropertySchema.decodes fun p s => { p with schema := s }]

/-- The parameter that a tree stands for. -/
def ofTree? : Json → Option Parameter := asRecord? parts record.initial

theorem decodes : Decodes record.decoder ofTree? := Decodes.record rfl

theorem encodes (p : Parameter) : Encodes ofTree? (depth + 2) p.toJson p :=
  .record (by decide) <| .string <| .string <| .string <|
    .mandatory decodes_bool (encodes_bool p.required) <|
    .mandatory PropertySchema.decodes p.schema.encodes .nil

end Parameter

namespace Components

def parts : List (TreeField Components) := [
  .mandatory "schemas" Schema.decodes.dict fun c ss => { c with schemas := ss },
  .mandatory "parameters" Parameter.decodes.dict fun c ps => { c with parameters := ps }]

/-- The components that a tree stands for. -/
def ofTree? : Json → Option Components := asRecord? parts record.initial

theorem decodes : Decodes record.decoder ofTree? := Decodes.record rfl

theorem encodes (c : Components) : Encodes ofTree? (depth + 5) c.toJson c :=
  .record (by decide) <| .mandatory Schema.decodes.dict (.dict Schema.encodes c.schemas) <|
    .mandatory Parameter.decodes.dict (.dict Parameter.encodes c.parameters) .nil

end Components

/-! ### Documents -/

namespace Info

def parts : List (TreeField Info) := [
  .mandatory "title" decodes_string fun i s => { i with title := s },
  .mandatory "description" decodes_string fun i s => { i with description := s },
  .mandatory "version" decodes_string fun i s => { i with version := s },
  .mandatory "contact" Contact.decodes fun i c => { i with contact := c }]

/-- The information that a tree stands for. -/
def ofTree? : Json → Option Info := asRecord? parts record.initial

theorem decodes : Decodes record.decoder ofTree? := Decodes.record rfl

theorem encodes (i : Info) : Encodes ofTree? (depth + 2) i.toJson i :=
  .record (by decide) <| .string <| .string <| .string <|
    .mandatory Contact.decodes i.contact.encodes .nil

end Info

namespace Server

def parts : List (TreeField Server) :=
  [.mandatory "url" decodes_string fun r s => { r with url := s }]

/-- The server that a tree stands for. -/
def ofTree? : Json → Option Server := asRecord? parts record.initial

theorem decodes : Decodes record.decoder ofTree? := Decodes.record rfl

theorem encodes (s : Server) : Encodes ofTree? (depth + 1) s.toJson s :=
  .record (List.nodup_singleton _) (.string .nil)

end Server

namespace Tag

def parts : List (TreeField Tag) := [
  .mandatory "name" decodes_string fun t s => { t with name := s },
  .mandatory "description" decodes_string fun t s => { t with description := s }]

/-- The tag that a tree stands for. -/
def ofTree? : Json → Option Tag := asRecord? parts record.initial

theorem decodes : Decodes record.decoder ofTree? := Decodes.record rfl

theorem encodes (t : Tag) : Encodes ofTree? (depth + 1) t.toJson t :=
  .record (by decide) (.string (.string .nil))

end Tag

namespace Document

def parts : List (TreeField Document) := [
  .mandatory "openapi" decodes_string fun d s => { d with openapi := s },
  .mandatory "info" Info.decodes fun d i => { d with info := i },
  .mandatory "servers" Server.decodes.list fun d ss => { d with servers := ss },
  .mandatory "tags" Tag.decodes.list fun d ts => { d with tags := ts },
  .mandatory "paths" PathItem.decodes.dict fun d ps => { d with paths := ps },
  .mandatory "components" Components.decodes fun d c => { d with components := c }]

/-- The document that a tree stands for. -/
def ofTree? : Json → Option Document := asRecord? parts record.initial

theorem decodes : Decodes record.decoder ofTree? := Decodes.record rfl

theorem encodes (d : Document) : Encodes ofTree? (depth + 9) d.toJson d := by
  refine .record (by decide) ?_
  refine .string <| .mandatory Info.decodes d.info.encodes <|
    .mandatory Server.decodes.list ?_ <| .mandatory Tag.decodes.list ?_ <|
    .mandatory PathItem.decodes.dict ?_ <|
    .mandatory Components.decodes d.components.encodes .nil
  · exact .list fun s _ => s.encodes
  · exact .list fun t _ => t.encodes
  · exact .dict PathItem.encodes d.paths

end Document

end ResourceApi.OpenApi
