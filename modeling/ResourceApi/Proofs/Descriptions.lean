import ResourceApi.OpenApi.Compile
import ResourceApi.Proofs.Json.Encoding

/-!
What descriptions are read from. A description, its contact and its resources are read from objects
that do not repeat the name of a field; the members with these names say what the fields are,
wherever they stand and whatever other members there are.
-/

namespace ResourceApi

open Json

/-! ### What a tree says -/

/-- The strings of the contact are those of the object. -/
structure Contact.StandsIn (c : Contact) (v : Json) : Prop where
  name : v.member? "name" = some (.string c.name)
  email : v.member? "email" = some (.string c.email)
  url : v.member? "url" = some (.string c.url)

structure Resource.StandsIn (r : Resource) (v : Json) : Prop where
  name : v.member? "name" = some (.string r.name)
  plural : v.member? "plural" = some (.string r.plural)
  readonly : v.member? "readonly" = r.readonly.map Json.bool

/-- The description holds what the object has under the names of its fields, and a resource for each
item, in the same order. -/
structure Description.StandsIn (d : Description) (v : Json) : Prop where
  title : v.member? "title" = some (.string d.title)
  description : v.member? "description" = some (.string d.description)
  contact : ∃ u, v.member? "contact" = some u ∧ d.contact.StandsIn u
  resources : ∃ items, v.member? "resources" = some (.array items) ∧
    List.Forall₂ Resource.StandsIn d.resources items

/-- Somewhere in the description a key that is the name of a field stands more than once in the same
object. -/
inductive Description.RepeatsField : Json → Prop where
  | root {w : Json} (h : w.RepeatsKey ["title", "description", "contact", "resources"]) :
      RepeatsField w
  | contact {members : Entries Json} {u : Json} (hmember : ("contact", u) ∈ members)
      (h : u.RepeatsKey ["name", "email", "url"]) : RepeatsField (.object members)
  | resource {members : Entries Json} {items : List Json} {u : Json}
      (hmember : ("resources", .array items) ∈ members) (hitem : u ∈ items)
      (h : u.RepeatsKey ["name", "plural", "readonly"]) : RepeatsField (.object members)

section Fields

variable {keys : List String} {entries : Entries Json}

/-- A string of the collected object is written as its member. -/
theorem find?_eq_string (hkeys : ¬ Json.RepeatsKey keys (.object entries)) {key s : String}
    (hkey : key ∈ keys) (h : (lastWins (.object entries)).member? key = some (.string s)) :
    entries.find? key = some (.string s) := by
  rw [member?_lastWins_of_not_repeatsKey hkeys hkey] at h
  obtain ⟨w, hw, hstring⟩ := Option.map_eq_some_iff.mp h
  rw [hw, lastWins_eq_string hstring]

end Fields

/-! ### Contacts -/

namespace Contact

def parts : List (TreeField Contact) := [
  .mandatory "name" decodes_string fun c s => { c with name := s },
  .mandatory "email" decodes_string fun c s => { c with email := s },
  .mandatory "url" decodes_string fun c s => { c with url := s }]

/-- The contact that a tree stands for. -/
def ofTree? : Json → Option Contact := asRecord? parts record.initial

theorem decodes : Decodes record.decoder ofTree? := Decodes.record rfl

theorem unordered : Unordered parts := by
  constructor <;> simp [parts]

theorem encodes {depth : Nat} (c : Contact) : Encodes ofTree? (depth + 1) c.toJson c :=
  .record unordered.nodup (.string (.string (.string .nil)))

theorem not_repeatsKey {w : Json} {c : Contact} (h : ofTree? w = some c) :
    ¬ w.RepeatsKey ["name", "email", "url"] :=
  not_repeatsKey_of_asRecord? unordered h

theorem ofTree?_eq_some {w : Json} {c : Contact}
    (hkeys : ¬ w.RepeatsKey ["name", "email", "url"]) (h : c.StandsIn (lastWins w)) :
    ofTree? w = some c := by
  obtain ⟨entries, rfl⟩ := object_of_member?_lastWins h.name
  have hname := find?_eq_string hkeys (by simp) h.name
  have hemail := find?_eq_string hkeys (by simp) h.email
  have hurl := find?_eq_string hkeys (by simp) h.url
  apply (asRecord?_object unordered hkeys).mpr
  rw [parts, foldlM_take_mandatory decodes_string hname rfl,
    foldlM_take_mandatory decodes_string hemail rfl, foldlM_take_mandatory decodes_string hurl rfl]
  rfl

end Contact

/-! ### Resources -/

namespace Resource

def parts : List (TreeField Resource) := [
  .mandatory "name" decodes_string fun r s => { r with name := s },
  .mandatory "plural" decodes_string fun r s => { r with plural := s },
  .defaulted "readonly" decodes_bool.optional fun r b => { r with readonly := b }]

/-- The resource that a tree stands for. -/
def ofTree? : Json → Option Resource := asRecord? parts record.initial

theorem decodes : Decodes record.decoder ofTree? := Decodes.record rfl

theorem decodes_list : Decodes (Decoder.list record.decoder) (asList? ofTree?) := decodes.list

theorem unordered : Unordered parts := by
  constructor <;> simp [parts]

theorem encodes {depth : Nat} (r : Resource) : Encodes ofTree? (depth + 1) r.toJson r := by
  rw [toJson, ← List.append_nil (Option.toList _)]
  refine .record unordered.nodup (.string (.string (.optional decodes_bool rfl ?_ ?_ .nil)))
  · exact fun b _ => encodes_bool b
  · simp

theorem not_repeatsKey {w : Json} {r : Resource} (h : ofTree? w = some r) :
    ¬ w.RepeatsKey ["name", "plural", "readonly"] :=
  not_repeatsKey_of_asRecord? unordered h

theorem ofTree?_eq_some {w : Json} {r : Resource}
    (hkeys : ¬ w.RepeatsKey ["name", "plural", "readonly"]) (h : r.StandsIn (lastWins w)) :
    ofTree? w = some r := by
  obtain ⟨entries, rfl⟩ := object_of_member?_lastWins h.name
  have hname := find?_eq_string hkeys (by simp) h.name
  have hplural := find?_eq_string hkeys (by simp) h.plural
  have hreadonly := h.readonly
  rw [member?_lastWins_of_not_repeatsKey hkeys (by simp)] at hreadonly
  apply (asRecord?_object unordered hkeys).mpr
  rw [parts, foldlM_take_mandatory decodes_string hname rfl,
    foldlM_take_mandatory decodes_string hplural rfl]
  obtain ⟨name, plural, readonly⟩ := r
  cases readonly with
  | none =>
      rw [foldlM_take_absent decodes_bool.optional (Option.map_eq_none_iff.mp hreadonly)]
      rfl
  | some b =>
      obtain ⟨w, hw, hbool⟩ := Option.map_eq_some_iff.mp hreadonly
      rw [lastWins_eq_bool hbool] at hw
      rw [foldlM_take_defaulted decodes_bool.optional hw rfl]
      rfl

theorem mapM_ofTree? {items : List Json} {resources : List Resource}
    (hkeys : ∀ item ∈ items, ¬ item.RepeatsKey ["name", "plural", "readonly"])
    (h : List.Forall₂ StandsIn resources (items.map lastWins)) :
    items.mapM ofTree? = some resources := by
  induction items generalizing resources with
  | nil =>
      cases h
      rfl
  | cons item items ih =>
      obtain ⟨hitem, hitems⟩ := List.forall_mem_cons.mp hkeys
      cases h with
      | cons hr hresources =>
          rw [List.mapM_cons, ofTree?_eq_some hitem hr, ih hitems hresources]
          rfl

theorem not_repeatsKey_of_mapM {items : List Json} {resources : List Resource}
    (h : items.mapM ofTree? = some resources) :
    ∀ item ∈ items, ¬ item.RepeatsKey ["name", "plural", "readonly"] := by
  induction items generalizing resources with
  | nil => simp
  | cons item items ih =>
      rw [List.mapM_cons] at h
      obtain ⟨r, hr, h⟩ := Option.bind_eq_some_iff.mp h
      obtain ⟨rest, hrest, -⟩ := Option.bind_eq_some_iff.mp h
      exact List.forall_mem_cons.mpr ⟨not_repeatsKey hr, ih hrest⟩

end Resource

/-! ### Descriptions -/

namespace Description

def parts : List (TreeField Description) := [
  .mandatory "title" decodes_string fun d s => { d with title := s },
  .mandatory "description" decodes_string fun d s => { d with description := s },
  .mandatory "contact" Contact.decodes fun d c => { d with contact := c },
  .mandatory "resources" Resource.decodes_list fun d rs => { d with resources := rs }]

/-- The description that a tree stands for. -/
def ofTree? : Json → Option Description := asRecord? parts record.initial

theorem decodes : Decodes record.decoder ofTree? := Decodes.record rfl

theorem unordered : Unordered parts := by
  constructor <;> simp [parts]

theorem encodes {depth : Nat} (d : Description) : Encodes ofTree? (depth + 3) d.toJson d := by
  have hresources : Encodes (asList? Resource.ofTree?) (depth + 2)
      (.array (d.resources.map Resource.toJson)) d.resources := .list fun r _ => r.encodes
  exact .record unordered.nodup <| .string <| .string <|
    .mandatory Contact.decodes d.contact.encodes <|
    .mandatory Resource.decodes_list hresources .nil

theorem ofTree?_eq_some {w : Json} {d : Description} (hfields : ¬ RepeatsField w)
    (h : d.StandsIn (lastWins w)) : ofTree? w = some d := by
  obtain ⟨entries, rfl⟩ := object_of_member?_lastWins h.title
  have hkeys : ¬ Json.RepeatsKey ["title", "description", "contact", "resources"]
      (.object entries) := fun hroot => hfields (.root hroot)
  have htitle := find?_eq_string hkeys (by simp) h.title
  have hdescription := find?_eq_string hkeys (by simp) h.description
  obtain ⟨u, hu, hcontact⟩ := h.contact
  rw [member?_lastWins_of_not_repeatsKey hkeys (by simp)] at hu
  obtain ⟨contact, hmember, rfl⟩ := Option.map_eq_some_iff.mp hu
  have hcontact := Contact.ofTree?_eq_some
    (fun hrepeats => hfields (.contact (Entries.mem_of_find? hmember) hrepeats)) hcontact
  obtain ⟨items, hitems, hresources⟩ := h.resources
  rw [member?_lastWins_of_not_repeatsKey hkeys (by simp)] at hitems
  obtain ⟨array, harray, hlast⟩ := Option.map_eq_some_iff.mp hitems
  obtain ⟨items, rfl, rfl⟩ := lastWins_eq_array hlast
  have hresources := Resource.mapM_ofTree? (fun item hitem hrepeats =>
    hfields (.resource (Entries.mem_of_find? harray) hitem hrepeats)) hresources
  apply (asRecord?_object unordered hkeys).mpr
  rw [parts, foldlM_take_mandatory decodes_string htitle rfl,
    foldlM_take_mandatory decodes_string hdescription rfl,
    foldlM_take_mandatory Contact.decodes hmember hcontact,
    foldlM_take_mandatory Resource.decodes_list harray hresources]
  rfl

/-- The value of a field of a description that is read is one that the field can read. -/
theorem change_of_ofTree? {entries : Entries Json} {d : Description}
    (h : ofTree? (.object entries) = some d) {part : TreeField Description} (hpart : part ∈ parts)
    {w : Json} (hmember : (part.name, w) ∈ entries) :
    ∃ before after, part.change before w = some after := by
  have hkeys := not_repeatsKey_of_asRecord? unordered h
  have hcount := count_le_one_of_not_repeatsKey hkeys (List.mem_map_of_mem hpart)
  exact change_of_foldlM_take hpart (Entries.find?_of_mem_of_count hcount hmember)
    ((asRecord?_object unordered hkeys).mp h)

theorem not_repeatsField {w : Json} {d : Description} (h : ofTree? w = some d) :
    ¬ RepeatsField w := by
  intro hrepeats
  cases hrepeats with
  | root hroot => exact not_repeatsKey_of_asRecord? unordered h hroot
  | contact hmember hrepeats =>
      obtain ⟨before, after, hchange⟩ := change_of_ofTree? h (.tail _ (.tail _ (.head _))) hmember
      obtain ⟨c, hc, -⟩ := Option.map_eq_some_iff.mp hchange
      exact Contact.not_repeatsKey hc hrepeats
  | resource hmember hitem hrepeats =>
      obtain ⟨before, after, hchange⟩ :=
        change_of_ofTree? h (.tail _ (.tail _ (.tail _ (.head _)))) hmember
      obtain ⟨resources, hresources, -⟩ := Option.map_eq_some_iff.mp hchange
      exact Resource.not_repeatsKey_of_mapM hresources _ hitem hrepeats

/-! ### Texts -/

/-- A description is read from a document as it is from the tree that is written there. -/
theorem parse_toOption {text : String} {w : Json} (h : IsDocument text w) :
    (parse text).toOption = ofTree? w := by
  have herror : (parse text).toOption = (record.parse text).toOption := by
    rw [parse]
    cases record.parse text <;> rfl
  rw [herror]
  exact Record.parse_toOption decodes h

/-- If the collected tree holds a description, no other one can be read from the text, and this one
is read if no field is repeated. -/
theorem parse_eq_ok {text : String} {w : Json} (hw : IsDocument text w) {d : Description}
    (hd : d.StandsIn (lastWins w)) {e : Description} :
    parse text = .ok e ↔ ¬ RepeatsField w ∧ e = d := by
  have htree : parse text = .ok e ↔ ofTree? w = some e := by
    rw [← parse_toOption hw]
    constructor
    · intro he
      rw [he]
      rfl
    · exact eq_ok_of_toOption
  rw [htree]
  constructor
  · intro he
    have hfields := not_repeatsField he
    exact ⟨hfields, Option.some.inj (he.symm.trans (ofTree?_eq_some hfields hd))⟩
  · rintro ⟨hfields, rfl⟩
    exact ofTree?_eq_some hfields hd

theorem compileText_eq_ok {text : String} {doc : OpenApi.Document} :
    compileText text = .ok doc ↔ ∃ d, parse text = .ok d ∧ doc = d.compile := by
  rw [compileText]
  cases parse text with
  | error e => simp [Except.map]
  | ok d => simp [Except.map, eq_comm]

end Description

end ResourceApi
