import ResourceApi.DocumentKind
import ResourceApi.Proofs.Descriptions
import ResourceApi.Proofs.Json.Reformatting

/-!
Formatting a text that compiles does not change what it compiles to. The text is read into a tree in
which the last of several members with one key has won, and is printed from this tree. A description
does not see the difference: its own keys are never repeated where it is read at all, other members
are passed over, before and after, and the typed readers find their way in what has been printed.
-/

namespace ResourceApi

open Json

/-! ### Collected trees -/

namespace Json

section Collecting

variable {α β : Type}

/-- What a function takes from a tree, it takes from the collected tree as well. -/
def Outlasts (f : Json → Option α) : Prop := ∀ ⦃w a⦄, f w = some a → f (lastWins w) = some a

theorem outlasts_string : Outlasts asString? := by
  intro w s h
  cases w with
  | string => exact h
  | null | bool | number | array | object => cases h

theorem outlasts_bool : Outlasts asBool? := by
  intro w b h
  cases w with
  | bool => exact h
  | null | string | number | array | object => cases h

variable {f : Json → Option α}

theorem Outlasts.optional (hf : Outlasts f) : Outlasts (orNull f) := by
  intro w a h
  have hsome : ∀ v, v ≠ .null → orNull f v = (f v).map some := by
    intro v hv
    cases v <;> first | rfl | exact absurd rfl hv
  by_cases hnull : w = .null
  · rw [hnull] at h ⊢
    exact h
  · have hlast : lastWins w ≠ .null := fun heq => hnull (eq_of_lastWins_eq heq nofun nofun)
    rw [hsome w hnull] at h
    rw [hsome _ hlast]
    obtain ⟨b, hb, rfl⟩ := Option.map_eq_some_iff.mp h
    rw [hf hb]
    rfl

theorem Outlasts.mapM (hf : Outlasts f) {ws : List Json} {as : List α} (h : ws.mapM f = some as) :
    (ws.map lastWins).mapM f = some as := by
  induction ws generalizing as with
  | nil => exact h
  | cons w ws ih =>
      rw [List.mapM_cons] at h
      obtain ⟨a, ha, h⟩ := Option.bind_eq_some_iff.mp h
      obtain ⟨rest, hrest, h⟩ := Option.bind_eq_some_iff.mp h
      rw [List.map_cons, List.mapM_cons, hf ha, ih hrest]
      exact h

theorem Outlasts.list (hf : Outlasts f) : Outlasts (asList? f) := by
  intro w as h
  cases w with
  | array ws =>
      rw [lastWins_array]
      exact hf.mapM h
  | null | bool | string | number | object => cases h

/-! ### Records -/

/-- What a field takes from the tree of its value, it takes from the collected tree as well. -/
def TreeField.Outlasts (part : TreeField α) : Prop := ∀ a, Json.Outlasts (part.change a)

theorem Outlasts.set {f : Json → Option β} (hf : Outlasts f) (set : α → β → α) (a : α) :
    Outlasts fun w => (f w).map (set a) := by
  intro w b h
  obtain ⟨c, hc, rfl⟩ := Option.map_eq_some_iff.mp h
  exact congrArg (Option.map (set a)) (hf hc)

variable {parts : List (TreeField α)}

theorem outlasts_take {part : TreeField α} (hpart : part.Outlasts) {entries : Entries Json}
    (honce : entries.keys.count part.name ≤ 1) {a b : α} (h : take [] entries a part = some b) :
    take [] (lastMembers entries) a part = some b := by
  have hfind : (lastMembers entries).find? part.name =
      (entries.find? part.name).map lastWins := by
    rw [lastMembers, Entries.find?_putAll, ← List.map_reverse, Entries.find?_map,
      Entries.find?_reverse honce]
  rw [take, if_neg (by simp)] at h ⊢
  rw [hfind]
  cases hmember : entries.find? part.name with
  | none =>
      rw [hmember] at h
      exact h
  | some w =>
      rw [hmember] at h
      exact hpart a h

/-- Steps that succeed on the way may be replaced by others that do the same. -/
theorem foldlM_of_steps {γ : Type} {g h : α → γ → Option α} {l : List γ}
    (hstep : ∀ c ∈ l, ∀ {a b}, g a c = some b → h a c = some b) {a b : α}
    (hg : l.foldlM g a = some b) : l.foldlM h a = some b := by
  induction l generalizing a with
  | nil => exact hg
  | cons c l ih =>
      obtain ⟨hc, hl⟩ := List.forall_mem_cons.mp hstep
      rw [List.foldlM_cons] at hg ⊢
      obtain ⟨next, hnext, hg⟩ := Option.bind_eq_some_iff.mp hg
      rw [hc hnext]
      exact ih hl hg

theorem outlasts_ofList? (hparts : ∀ part ∈ parts, part.Outlasts) {ws : List Json} {a b : α}
    (h : ofList? parts ws a = some b) : ofList? parts (ws.map lastWins) a = some b := by
  induction parts generalizing ws a with
  | nil =>
      cases ws with
      | nil => exact h
      | cons => cases h
  | cons part parts ih =>
      obtain ⟨hpart, hparts⟩ := List.forall_mem_cons.mp hparts
      cases ws with
      | nil =>
          rw [ofList?] at h
          by_cases hrequired : part.field.required = true
          · rw [if_pos hrequired] at h
            cases h
          · rw [if_neg hrequired] at h
            rw [List.map_nil, ofList?, if_neg hrequired]
            exact ih hparts h
      | cons w ws =>
          rw [ofList?] at h
          obtain ⟨next, hnext, h⟩ := Option.bind_eq_some_iff.mp h
          rw [List.map_cons, ofList?, hpart a hnext]
          exact ih hparts h

/-- A record is taken from the collected tree as well: in an object its own keys are not repeated,
and of the other members none is looked at. -/
theorem outlasts_record (horder : Unordered parts) (hparts : ∀ part ∈ parts, part.Outlasts)
    (initial : α) : Outlasts (asRecord? parts initial) := by
  intro w a h
  cases w with
  | array ws =>
      rw [lastWins_array]
      exact outlasts_ofList? hparts h
  | object entries =>
      obtain ⟨honce, h⟩ := (ofEntries?_eq_some horder).mp h
      have hnodup : (lastMembers entries).keys.Nodup := Entries.nodup_keys_putAll _
      rw [lastWins_object]
      refine (ofEntries?_eq_some horder).mpr ⟨?_, ?_⟩
      · exact fun part _ => List.nodup_iff_count_le_one.mp hnodup part.name
      · exact foldlM_of_steps
          (fun part hpart _ _ => outlasts_take (hparts part hpart) (honce part hpart)) h
  | null | bool | string | number => cases h

end Collecting

end Json

/-! ### Descriptions -/

section Descriptions

variable {laid : Nat → List Char → Json → Prop}

theorem Contact.outlasts : Outlasts Contact.ofTree? := by
  refine outlasts_record Contact.unordered ?_ _
  simp only [Contact.parts, List.forall_mem_cons, List.not_mem_nil, false_imp_iff, implies_true,
    and_true]
  exact ⟨outlasts_string.set _, outlasts_string.set _, outlasts_string.set _⟩

theorem Resource.outlasts : Outlasts Resource.ofTree? := by
  refine outlasts_record Resource.unordered ?_ _
  simp only [Resource.parts, List.forall_mem_cons, List.not_mem_nil, false_imp_iff, implies_true,
    and_true]
  exact ⟨outlasts_string.set _, outlasts_string.set _, outlasts_bool.optional.set _⟩

theorem Description.outlasts : Outlasts Description.ofTree? := by
  refine outlasts_record Description.unordered ?_ _
  simp only [Description.parts, List.forall_mem_cons, List.not_mem_nil, false_imp_iff, implies_true,
    and_true]
  exact ⟨outlasts_string.set _, outlasts_string.set _, Contact.outlasts.set _,
    Resource.outlasts.list.set _⟩

theorem Contact.decodesFrom (hlaid : Layout laid) :
    DecodesFrom laid Contact.record.decoder Contact.ofTree? := by
  have hstring := hlaid.string
  refine DecodesFrom.record hlaid ?_ rfl
  simp only [Contact.parts, List.forall_mem_cons, List.not_mem_nil, false_imp_iff, implies_true,
    and_true]
  exact ⟨TreeField.mandatory_readsFrom decodes_string hstring,
    TreeField.mandatory_readsFrom decodes_string hstring,
    TreeField.mandatory_readsFrom decodes_string hstring⟩

theorem Resource.decodesFrom (hlaid : Layout laid) :
    DecodesFrom laid Resource.record.decoder Resource.ofTree? := by
  have hstring := hlaid.string
  have hreadonly := hlaid.bool.optional hlaid
  refine DecodesFrom.record hlaid ?_ rfl
  simp only [Resource.parts, List.forall_mem_cons, List.not_mem_nil, false_imp_iff, implies_true,
    and_true]
  exact ⟨TreeField.mandatory_readsFrom decodes_string hstring,
    TreeField.mandatory_readsFrom decodes_string hstring,
    TreeField.defaulted_readsFrom decodes_bool.optional hreadonly⟩

theorem Description.decodesFrom (hlaid : Layout laid) :
    DecodesFrom laid Description.record.decoder Description.ofTree? := by
  have hstring := hlaid.string
  have hcontact := Contact.decodesFrom hlaid
  have hresources := (Resource.decodesFrom hlaid).list hlaid
  refine DecodesFrom.record hlaid ?_ rfl
  simp only [Description.parts, List.forall_mem_cons, List.not_mem_nil, false_imp_iff, implies_true,
    and_true]
  exact ⟨TreeField.mandatory_readsFrom decodes_string hstring,
    TreeField.mandatory_readsFrom decodes_string hstring,
    TreeField.mandatory_readsFrom Contact.decodes hcontact,
    TreeField.mandatory_readsFrom Resource.decodes_list hresources⟩

end Descriptions

/-! ### Formatting -/

namespace Description

/-- From the pretty text of a value the description is read that the value stands for. -/
theorem parse_pretty {v : Json} (h : Nested Reader.depthLimit v) :
    (parse v.pretty).toOption = ofTree? v := by
  have herror : (parse v.pretty).toOption = (record.parse v.pretty).toOption := by
    rw [parse]
    cases record.parse v.pretty <;> rfl
  have htext : v.pretty.toList = [] ++ (prettyChars 0 v ++ []) := (List.append_nil _).symm
  have hreads := decodesFrom layout_pretty ⟨h, 0, rfl⟩
  rw [herror]
  exact run_toOption htext blank_nil blank_nil hreads

/-- A text from which a description is read is formatted to one from which the same is read. -/
theorem parse_formatDocument {text : String} {d : Description} (h : parse text = .ok d) :
    parse (formatDocument text) = .ok d := by
  rw [formatDocument]
  cases hv : Json.parse text with
  | error => exact h
  | ok v =>
      obtain ⟨w, hw, rfl⟩ := Json.parse_eq_ok.mp hv
      have htree : ofTree? w = some d := by
        rw [← parse_toOption hw, h]
        rfl
      obtain ⟨lead, value, trail, -, -, -, hwritten⟩ := hw
      have hpretty := parse_pretty hwritten.nested.lastWins
      rw [outlasts htree] at hpretty
      exact eq_ok_of_toOption hpretty

/-- **Formatting is transparent to the compiler.** What a text compiles to, its formatted text
compiles to as well, and so does the content that a kind of document makes of a payload with this
text. -/
theorem formatting_keeps_compiled {text : String} {doc : OpenApi.Document}
    (h : compileText text = .ok doc) :
    compileText (formatDocument text) = .ok doc ∧
      ∀ (kind : DocumentKind) (mapper : String → Input) (payload : String),
        (mapper payload).content = text →
          compileText (kind.accept mapper payload).content = .ok doc := by
  obtain ⟨d, hd, rfl⟩ := compileText_eq_ok.mp h
  have hformatted : compileText (formatDocument text) = .ok d.compile :=
    compileText_eq_ok.mpr ⟨d, parse_formatDocument hd, rfl⟩
  refine ⟨hformatted, ?_⟩
  rintro kind mapper payload rfl
  exact hformatted

/-- A description with members of its own, one of them repeated, and with records as arrays. -/
def strayText : String :=
  "\x7b\"x\":1,\"title\":\"T\",\"x\":[2.50e-7,\x7b\"y\":null,\"y\":-0\x7d],"
    ++ "\"description\":\"D\",\"contact\":[\"N\",\"E\",\"U\"],"
    ++ "\"resources\":[[\"a\",\"b\"],\x7b\"plural\":\"d\",\"name\":\"c\",\"z\":\x7b\x7d\x7d]\x7d"

/-- What it describes. -/
def strayDescription : Description :=
  ⟨"T", "D", ⟨"N", "E", "U"⟩, [⟨"a", "b", none⟩, ⟨"c", "d", none⟩]⟩

theorem formatting_keeps_stray_members :
    compileText strayText = .ok strayDescription.compile ∧ formatDocument strayText ≠ strayText ∧
      compileText (formatDocument strayText) = .ok strayDescription.compile := by
  have hparse : parse strayText = .ok strayDescription := eq_ok_of_toOption (by decide +kernel)
  have hcompiled : compileText strayText = .ok strayDescription.compile :=
    compileText_eq_ok.mpr ⟨strayDescription, hparse, rfl⟩
  have hchanged : formatDocument strayText ≠ strayText := by decide +kernel
  exact ⟨hcompiled, hchanged, (formatting_keeps_compiled hcompiled).1⟩

end Description

end ResourceApi
