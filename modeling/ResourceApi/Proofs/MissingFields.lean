import ResourceApi.Description
import ResourceApi.Proofs.Json.Messages
import ResourceApi.Proofs.Json.MissingFields

/-!
Missing fields of descriptions. That a field is missing is known as soon as the object that misses
it has been read, and reading ends there. So a description that misses a field need not be JSON: only
its text up to this object is. If it is JSON, then its tree has an object without the field, as the
description itself, its contact or one of its resources.
-/

namespace ResourceApi.Description

open Json Json.Reader

/-- The paths to the records in a description, with the names that are required there. A description
may also be an array of its fields in order. -/
inductive RecordAt : Path → List String → Prop where
  | description : RecordAt [] ["title", "description", "contact", "resources"]
  | contact {step : Step} (h : step = .key "contact" ∨ step = .index 2) :
      RecordAt [step] ["name", "email", "url"]
  | resource {step : Step} (h : step = .key "resources" ∨ step = .index 3) (i : Nat) :
      RecordAt [step, .index i] ["name", "plural"]

/-- Only the value itself is a record. -/
def itself (names : List String) (path : Path) (required : List String) : Prop :=
  path = [] ∧ required = names

section Fields

variable {α : Type} {places : Path → List String → Prop} {i : Nat}

theorem fieldBlames_string (name : String) (set : α → String → α) :
    FieldBlames places i (.mandatory name Decoder.string set) :=
  .leaf (fun depth a => (passable_string depth).map (set a))
    fun depth a => (blames_string depth).map (set a)

theorem fieldBlames_contact (i : Nat) (field : Json.Field Contact)
    (h : Contact.record.fields[i]? = some field) : FieldBlames places i field := by
  match i with
  | 0 | 1 | 2 =>
      obtain rfl := Option.some.inj h
      exact fieldBlames_string _ _
  | i + 3 => cases h

theorem fieldBlames_resource (i : Nat) (field : Json.Field Resource)
    (h : Resource.record.fields[i]? = some field) : FieldBlames places i field := by
  match i with
  | 0 | 1 =>
      obtain rfl := Option.some.inj h
      exact fieldBlames_string _ _
  | 2 =>
      obtain rfl := Option.some.inj h
      exact .leaf (fun depth a => (passable_bool depth).optional.map _)
        fun depth a => (blames_bool depth).optional.map _
  | i + 3 => cases h

theorem passable_contact (depth : Nat) : Passable (Contact.record.decoder depth) := by
  have hfields : ∀ i field, Contact.record.fields[i]? = some field →
      FieldBlames RecordAt i field := fieldBlames_contact
  exact .record (passable_of_fields hfields) depth

theorem passable_resource (depth : Nat) : Passable (Resource.record.decoder depth) := by
  have hfields : ∀ i field, Resource.record.fields[i]? = some field →
      FieldBlames RecordAt i field := fieldBlames_resource
  exact .record (passable_of_fields hfields) depth

theorem blames_contact (depth : Nat) :
    Blames (itself ["name", "email", "url"]) (Contact.record.decoder depth) :=
  .record ⟨rfl, rfl⟩ fieldBlames_contact depth

theorem blames_resources (depth : Nat) :
    Blames (fun path required => ∃ i, path = [.index i] ∧ required = ["name", "plural"])
      (Decoder.list Resource.record.decoder depth) := by
  have hresource : ∀ depth, Blames (itself ["name", "plural"]) (Resource.record.decoder depth) :=
    .record ⟨rfl, rfl⟩ fieldBlames_resource
  refine .list passable_resource hresource ?_ depth
  rintro i path required ⟨rfl, rfl⟩
  exact ⟨i, rfl, rfl⟩

theorem fieldBlames_description (i : Nat) (field : Json.Field Description)
    (h : record.fields[i]? = some field) : FieldBlames RecordAt i field := by
  match i with
  | 0 | 1 =>
      obtain rfl := Option.some.inj h
      exact fieldBlames_string _ _
  | 2 =>
      obtain rfl := Option.some.inj h
      refine .mandatory passable_contact blames_contact ?_ _
      rintro path required ⟨rfl, rfl⟩
      exact ⟨.contact (.inl rfl), .contact (.inr rfl)⟩
  | 3 =>
      obtain rfl := Option.some.inj h
      refine .mandatory (Passable.list passable_resource) blames_resources ?_ _
      rintro path required ⟨j, rfl, rfl⟩
      exact ⟨.resource (.inl rfl) j, .resource (.inr rfl) j⟩
  | i + 4 => cases h

end Fields

theorem blames_description (depth : Nat) : Blames RecordAt (record.decoder depth) :=
  .record .description fieldBlames_description depth

/-! ### Messages -/

theorem own_contact (depth : Nat) (s : List Char) : Own (Contact.record.decoder depth s) := by
  refine own_record (fun field hfield => ?_) depth s
  simp only [Contact.record, List.mem_cons, List.not_mem_nil, or_false] at hfield
  rcases hfield with rfl | rfl | rfl <;> exact ownField_mandatory own_string _ _

theorem own_resource (depth : Nat) (s : List Char) : Own (Resource.record.decoder depth s) := by
  refine own_record (fun field hfield => ?_) depth s
  simp only [Resource.record, List.mem_cons, List.not_mem_nil, or_false] at hfield
  rcases hfield with rfl | rfl | rfl
  · exact ownField_mandatory own_string _ _
  · exact ownField_mandatory own_string _ _
  · exact ownField_defaulted (own_optional own_bool) _ _

theorem own_description (depth : Nat) (s : List Char) : Own (record.decoder depth s) := by
  refine own_record (fun field hfield => ?_) depth s
  simp only [record, List.mem_cons, List.not_mem_nil, or_false] at hfield
  rcases hfield with rfl | rfl | rfl | rfl
  · exact ownField_mandatory own_string _ _
  · exact ownField_mandatory own_string _ _
  · exact ownField_mandatory own_contact _ _
  · exact ownField_mandatory (own_list own_resource) _ _

/-- A message of the reader's own that names a missing field is about one that is missing. -/
theorem cause_of_fieldInMessage? {e : Json.Error} (hown : e.cause.isOwn = true) {name : String}
    (h : fieldInMessage? e.message.toList = some name) :
    ∃ field, e.cause = .missingField field ∧
      ('`' ∉ field.toList → name = field) := by
  rw [fieldInMessage?, Option.ite_none_right_eq_some, Option.some.injEq, Bool.and_eq_true,
    List.isPrefixOf_iff_prefix] at h
  obtain ⟨⟨hbegins, -⟩, rfl⟩ := h
  by_cases hmissing : ∃ field, e.cause = .missingField field
  · obtain ⟨field, hfield⟩ := hmissing
    refine ⟨field, hfield, fun hplain => ?_⟩
    have hmessage : e.message = "missing field `" ++ field ++ "`" ++
        (" at line " ++ (toString e.position.line ++ (" column " ++
          toString e.position.column))) := by
      rw [Json.Error.message, hfield, String.append_assoc, String.append_assoc, String.append_assoc]
      rfl
    have htick : "`".toList = ['`'] := rfl
    rw [hmessage, String.toList_append, String.toList_append, String.toList_append, htick,
      List.append_assoc, List.append_assoc, List.drop_left, List.singleton_append,
      List.takeWhile_append_of_pos, List.takeWhile_cons_of_neg, List.append_nil,
      String.ofList_toList]
    · simp
    · intro c hc
      exact decide_eq_true fun heq => hplain (heq ▸ hc)
  · have hcause : Text.StartsApart 'm' e.cause.message :=
      startsApart_message hown fun name hname => hmissing ⟨name, hname⟩
    have hapart : Text.StartsApart 'm' e.message := by
      rw [Json.Error.message]
      exact (((hcause.append _).append _).append _).append _
    obtain ⟨c, t, hmessage, hc⟩ := hapart
    rw [hmessage] at hbegins
    exact absurd (List.cons_prefix_cons.mp hbegins).1.symm hc

/-- The names of the fields that are required have no backtick. -/
theorem RecordAt.plain {path : Path} {required : List String} (h : RecordAt path required) :
    ∀ name ∈ required, '`' ∉ name.toList := by
  cases h with
  | description => decide
  | contact => decide
  | resource => decide

/-! ### Places -/

/-- **A missing field is one of an object that has been read.** The error names the first required
field that is missing in the description itself, its contact or a resource. Up to the closing brace
of this object the text has been read, and nothing is known about what is behind it. If the text is
a document, then this part of its tree is an object without the field. -/
theorem whole_object_of_missingField {text name : String}
    (h : parse text = .error (.missingField name)) :
    ∃ path required rest, RecordAt path required ∧ LeadsTo text.toList path rest ∧
      Misses required name rest ∧
      ∀ w, IsDocument text w → ∃ members : Entries Json,
        w.at? path = some (.object members) ∧ missing? required members.keys = some name := by
  have herror : ∃ e, record.parse text = .error e ∧ Error.ofJson e = .missingField name := by
    rw [parse] at h
    cases hrecord : record.parse text with
    | ok d =>
        rw [hrecord] at h
        cases h
    | error e =>
        rw [hrecord] at h
        exact ⟨e, rfl, Except.error.inj h⟩
  obtain ⟨e, hrecord, hmessage⟩ := herror
  have hfield : fieldInMessage? e.message.toList = some name := by
    rw [Error.ofJson] at hmessage
    split at hmessage
    · rename_i hsome
      rw [hsome, Error.missingField.inj hmessage]
    · cases hmessage
  obtain ⟨field, hcause, hplain⟩ :=
    cause_of_fieldInMessage? (isOwn_of_run (own_description _) hrecord) hfield
  obtain ⟨f, hf, hcause⟩ := run_eq_error hrecord hcause
  obtain ⟨path, required, rest, hplace, hleads, hmisses⟩ := blames_description _ hf hcause
  have hrequired : field ∈ required := by
    obtain ⟨-, -, -, hmissing⟩ := hmisses
    exact List.mem_of_find?_eq_some hmissing
  obtain rfl := hplain (hplace.plain field hrequired)
  refine ⟨path, required, rest, hplace, hleads, hmisses, fun w hw => ?_⟩
  obtain ⟨v, hv, hrest⟩ := hleads.beginsWith hw.beginsWith
  obtain ⟨members, rfl, hmissing⟩ := hmisses.beginsWith hrest
  exact ⟨members, hv, hmissing⟩

/-- The field that is missing, where this is why a description is not read. -/
def missingName? : Except Error Description → Option String
  | .error (.missingField name) => some name
  | _ => none

theorem eq_error_of_missingName? {r : Except Error Description} {name : String}
    (h : missingName? r = some name) : r = .error (.missingField name) := by
  unfold missingName? at h
  split at h
  · rw [Option.some.inj h]
  · cases h

/-- A contact without an email, in a document. -/
theorem whole_object_of_missingField_email :
    parse "\x7b\"contact\":\x7b\"name\":\"A\"\x7d\x7d" = .error (.missingField "email") ∧
      ∃ path required, RecordAt path required ∧ ∃ members : Entries Json,
        (Json.object [("contact", .object [("name", .string "A")])]).at? path =
          some (.object members) ∧ missing? required members.keys = some "email" := by
  have hparse : parse "\x7b\"contact\":\x7b\"name\":\"A\"\x7d\x7d" =
      .error (.missingField "email") := eq_error_of_missingName? (by decide +kernel)
  have hdocument : IsDocument "\x7b\"contact\":\x7b\"name\":\"A\"\x7d\x7d"
      (.object [("contact", .object [("name", .string "A")])]) :=
    everyMember_eq_ok.mp (eq_ok_of_toOption (by decide +kernel))
  obtain ⟨path, required, -, hplace, -, -, htree⟩ := whole_object_of_missingField hparse
  exact ⟨hparse, path, required, hplace, htree _ hdocument⟩

/-- Behind the object the text may end before its brackets are closed, so that neither the strict
reader takes it nor the one that checks the grammar only. -/
theorem missingField_of_broken_text :
    parse "\x7b\"contact\":\x7b\x7d" = .error (.missingField "name") ∧
      (Json.parse "\x7b\"contact\":\x7b\x7d").isOk = false ∧
      (Reader.run skipValue "\x7b\"contact\":\x7b\x7d").isOk = false :=
  ⟨eq_error_of_missingName? (by decide +kernel), by decide +kernel, by decide +kernel⟩

end ResourceApi.Description
