import ResourceApi.Proofs.Json.Printing
import ResourceApi.Proofs.Json.Records
import ResourceApi.Proofs.Json.Typed

/-!
Trees that encode a value. If a function takes the value from the tree and the tree may be printed,
then the typed reader of this function reads the value back from what is printed. A list, a choice
or a record is encoded by the trees of its parts, so each record needs one lemma about its own
fields.
-/

namespace ResourceApi.Json

open Reader

/-- The function takes the value from the tree, and the tree is read back from its printed forms. -/
structure Encodes {α : Type} (f : Json → Option α) (depth : Nat) (v : Json) (a : α) : Prop where
  taken : f v = some a
  printable : Printable depth v

variable {α β : Type} {depth : Nat}

/-! ### Values of one kind -/

theorem encodes_string (s : String) : Encodes asString? depth (.string s) s := ⟨rfl, .string s⟩

theorem encodes_bool (b : Bool) : Encodes asBool? depth (.bool b) b := ⟨rfl, .bool b⟩

theorem encodes_natural {n : Nat} (h : n < Nat.pow 2 64) :
    Encodes asNatural? depth (.ofNat n) n := by
  refine ⟨rfl, .integer ?_ ?_⟩
  · exact Int.le_trans (by decide) (Int.natCast_nonneg n)
  · exact Int.ofNat_lt.mpr h

theorem encodes_choice {expected : List String} {ofName? : String → Option α} {name : String}
    {a : α} (h : ofName? name = some a) :
    Encodes (asChoice? expected ofName?) depth (.string name) a := by
  refine ⟨?_, .string name⟩
  rw [asChoice?_string]
  exact h

/-- Items that are each taken back are taken back together. -/
theorem mapM_map_of_taken {γ : Type} {g : γ → Option α} {h : α → γ} {as : List α}
    (htaken : ∀ a ∈ as, g (h a) = some a) : (as.map h).mapM g = some as := by
  induction as with
  | nil => rfl
  | cons a as ih =>
      obtain ⟨ha, has⟩ := List.forall_mem_cons.mp htaken
      rw [List.map_cons, List.mapM_cons, ha, ih has]
      rfl

section Items

variable {f : Json → Option α} {toJson : α → Json}

theorem Encodes.list {as : List α} (h : ∀ a ∈ as, Encodes f depth (toJson a) a) :
    Encodes (asList? f) (depth + 1) (.array (as.map toJson)) as := by
  constructor
  · exact mapM_map_of_taken fun a ha => (h a ha).taken
  · apply Printable.array
    intro v hv
    obtain ⟨a, ha, rfl⟩ := List.mem_map.mp hv
    exact (h a ha).printable

theorem orNull_of_ne {v : Json} (h : v ≠ .null) : orNull f v = (f v).map some := by
  cases v with
  | null => exact absurd rfl h
  | bool | number | string | array | object => rfl

end Items

/-! ### Records -/

/-- The members stand in the order of the fields. Each field puts its member into the record, and a
field that has no member is one that may be left out. -/
inductive Fills (depth : Nat) : List (TreeField α) → Entries Json → α → α → Prop where
  | nil {a : α} : Fills depth [] [] a a
  | put {part : TreeField α} {parts : List (TreeField α)} {entries : Entries Json} {v : Json}
      {a b c : α} (hchange : part.change a v = some b) (hprintable : Printable depth v)
      (h : Fills depth parts entries b c) :
      Fills depth (part :: parts) ((part.name, v) :: entries) a c
  | skip {part : TreeField α} {parts : List (TreeField α)} {entries : Entries Json} {a b : α}
      (hoptional : part.field.required = false) (h : Fills depth parts entries a b) :
      Fills depth (part :: parts) entries a b

section Records

variable {parts all : List (TreeField α)} {entries : Entries Json} {a b c : α}

theorem Fills.printable (h : Fills depth parts entries a b) :
    ∀ entry ∈ entries, Printable depth entry.2 := by
  induction h with
  | nil => simp
  | put hchange hprintable h ih => exact List.forall_mem_cons.mpr ⟨hprintable, ih⟩
  | skip hoptional h ih => exact ih

/-- If names are not repeated, a field is found by its name. -/
theorem find?_name (hnodup : (all.map TreeField.name).Nodup) {part : TreeField α}
    (hpart : part ∈ all) : (all.find? fun p => p.name = part.name) = some part := by
  cases h : all.find? fun p => p.name = part.name with
  | none => simpa using List.find?_eq_none.mp h part hpart
  | some q =>
      have hname : q.name = part.name := by simpa using List.find?_some h
      have heq := List.inj_on_of_nodup_map hnodup (List.mem_of_find?_eq_some h) hpart hname
      rw [heq]

/-- Members in the order of the fields are taken one after another, each by its own field. -/
theorem Fills.foldlM (hall : (all.map TreeField.name).Nodup) (h : Fills depth parts entries a b)
    (hsuffix : parts <:+ all) {seen : List String} (hseen : ∀ part ∈ parts, part.name ∉ seen) :
    ∃ names, entries.foldlM (changeBy all) ⟨a, seen⟩ = some ⟨b, names⟩ ∧ seen ⊆ names ∧
      ∀ part ∈ parts, part.field.required = true → part.name ∈ names := by
  induction h generalizing seen with
  | nil => exact ⟨seen, rfl, List.Subset.refl seen, by simp⟩
  | @put part parts entries v a b c hchange hprintable h ih =>
      have hnodup := hall.sublist (hsuffix.sublist.map TreeField.name)
      obtain ⟨hfresh, hseen⟩ := List.forall_mem_cons.mp hseen
      have hothers : ∀ other ∈ parts, other.name ∉ part.name :: seen := by
        intro other hother
        have hne : other.name ≠ part.name := by
          intro heq
          apply (List.nodup_cons.mp hnodup).1
          exact heq ▸ List.mem_map_of_mem hother
        simp [hne, hseen other hother]
      obtain ⟨names, hfold, hsubset, hrequired⟩ :=
        ih ((List.suffix_cons part parts).trans hsuffix) hothers
      refine ⟨names, ?_, ?_, ?_⟩
      · have hpart := find?_name hall (hsuffix.subset List.mem_cons_self)
        rw [List.foldlM_cons, changeBy_eq, hpart]
        dsimp only
        rw [if_neg (by simpa using hfresh), hchange]
        exact hfold
      · exact fun name hname => hsubset (List.mem_cons_of_mem _ hname)
      · exact List.forall_mem_cons.mpr ⟨fun _ => hsubset List.mem_cons_self, hrequired⟩
  | @skip part parts entries a b hoptional h ih =>
      obtain ⟨names, hfold, hsubset, hrequired⟩ :=
        ih ((List.suffix_cons part parts).trans hsuffix) (List.forall_mem_cons.mp hseen).2
      refine ⟨names, hfold, hsubset, List.forall_mem_cons.mpr ⟨fun htrue => ?_, hrequired⟩⟩
      rw [hoptional] at htrue
      cases htrue

/-- A record is encoded by an object whose members stand in the order of its fields. -/
theorem Encodes.record (hnodup : (parts.map TreeField.name).Nodup)
    (h : Fills depth parts entries a b) :
    Encodes (asRecord? parts a) (depth + 1) (.object entries) b := by
  have hseen : ∀ part ∈ parts, part.name ∉ ([] : List String) := by simp
  obtain ⟨names, hfold, -, hrequired⟩ := h.foldlM hnodup (List.suffix_refl parts) hseen
  have hmissing : (parts.find? fun part =>
      part.field.required && !names.contains part.name) = none := by
    apply List.find?_eq_none.mpr
    intro part hpart hmissing
    simp only [Bool.and_eq_true, Bool.not_eq_true', List.contains_eq_mem,
      decide_eq_false_iff_not] at hmissing
    exact hmissing.2 (hrequired part hpart hmissing.1)
  constructor
  · show ofEntries? parts a entries = some b
    rw [ofEntries?, hfold, Option.bind_some, complete, hmissing]
    rfl
  · exact .object h.printable

variable {decoder : Decoder β} {f : Json → Option β} {name : String} {set : α → β → α} {v : Json}
  {x : β}

theorem Fills.mandatory (hf : Decodes decoder f) (hv : Encodes f depth v x)
    (h : Fills depth parts entries (set a x) c) :
    Fills depth (.mandatory name hf set :: parts) ((name, v) :: entries) a c := by
  have hchange : (TreeField.mandatory name hf set).change a v = some (set a x) :=
    congrArg (Option.map (set a)) hv.taken
  exact .put hchange hv.printable h

theorem Fills.string {s : String} {set : α → String → α}
    (h : Fills depth parts entries (set a s) c) :
    Fills depth (.mandatory name decodes_string set :: parts) ((name, .string s) :: entries) a c :=
  .mandatory decodes_string (encodes_string s) h

theorem Fills.defaulted (hf : Decodes decoder f) (hv : Encodes f depth v x)
    (h : Fills depth parts entries (set a x) c) :
    Fills depth (.defaulted name hf set :: parts) ((name, v) :: entries) a c := by
  have hchange : (TreeField.defaulted name hf set).change a v = some (set a x) :=
    congrArg (Option.map (set a)) hv.taken
  exact .put hchange hv.printable h

/-- A value that may be absent has no member if it is, and its member is never `null`. -/
theorem Fills.optional {set : α → Option β → α} {toJson : β → Json} {o : Option β}
    (hf : Decodes decoder f) (habsent : set a none = a)
    (hv : ∀ x ∈ o, Encodes f depth (toJson x) x) (hnull : ∀ x, toJson x ≠ .null)
    (h : Fills depth parts entries (set a o) c) :
    Fills depth (.defaulted name hf.optional set :: parts)
      ((o.map fun x => (name, toJson x)).toList ++ entries) a c := by
  cases o with
  | none =>
      rw [habsent] at h
      exact .skip rfl h
  | some x =>
      have hx := hv x rfl
      have htaken : orNull f (toJson x) = some (some x) := by
        rw [orNull_of_ne (hnull x), hx.taken]
        rfl
      exact .defaulted hf.optional ⟨htaken, hx.printable⟩ h

/-! ### Texts -/

/-- A record is read back from the compact text and from the pretty text of its tree. -/
theorem Encodes.parse {r : Record α} {f : Json → Option α} (hf : Decodes r.decoder f)
    (h : Encodes f depthLimit v a) : r.parse v.compact = .ok a ∧ r.parse v.pretty = .ok a := by
  have hparse : ∀ {text : String}, IsDocument text v → r.parse text = .ok a := by
    intro text htext
    apply eq_ok_of_toOption
    rw [Record.parse_toOption hf htext, h.taken]
  exact ⟨hparse h.printable.isDocument_compact, hparse h.printable.isDocument_pretty⟩

end Records

end ResourceApi.Json
