import Mathlib.Data.List.Find
import ResourceApi.Proofs.Json.Passing

/-!
Where a missing field is missing. A record misses a field only when its object has been read up to
the closing brace, so behind that brace nothing is known about the text. In front of it everything
has been read: the reader has come to the object by passing over whole values, and then over all of
its members.
-/

namespace ResourceApi.Json

open Reader

/-! ### Places in a text -/

/-- Behind so many items of an array. Each of them has been passed over; it is the start of the
array as long as this is so. -/
inductive PastItems : Bool → List Char → Nat → Bool → List Char → Prop where
  | here {first : Bool} {s : List Char} : PastItems first s 0 first s
  | item {first last : Bool} {s t u v : List Char} {n : Nat}
      (hnext : nextItem first s = .ok (true, t)) (hvalue : skipValue t = .ok ((), u))
      (h : PastItems false u n last v) : PastItems first s (n + 1) last v

/-- Behind members of an object with these keys. -/
inductive PastMembers : Bool → List Char → List String → Bool → List Char → Prop where
  | here {first : Bool} {s : List Char} : PastMembers first s [] first s
  | member {first last : Bool} {s t u v w : List Char} {key : String} {keys : List String}
      (hnext : nextKey first s = .ok (some key, t)) (hcolon : colon t = .ok ((), u))
      (hvalue : skipValue u = .ok ((), v)) (h : PastMembers false v keys last w) :
      PastMembers first s (key :: keys) last w

/-- A path leads from a value to a part of it: all that stands in front of the part is passed over.
Of the members with one key it leads to the first. -/
inductive LeadsTo : List Char → Path → List Char → Prop where
  | here {s : List Char} : LeadsTo s [] s
  | item {first : Bool} {s t u v rest : List Char} {i : Nat} {path : Path}
      (hopen : skipBlank s = '[' :: t) (hpast : PastItems true t i first u)
      (hnext : nextItem first u = .ok (true, v)) (h : LeadsTo v path rest) :
      LeadsTo s (.index i :: path) rest
  | member {first : Bool} {s t u v w rest : List Char} {keys : List String} {key : String}
      {path : Path} (hopen : skipBlank s = '{' :: t) (hpast : PastMembers true t keys first u)
      (hfirst : key ∉ keys) (hnext : nextKey first u = .ok (some key, v))
      (hcolon : colon v = .ok ((), w)) (h : LeadsTo w path rest) :
      LeadsTo s (.key key :: path) rest

/-- The first of some names that is no key of an object. -/
def missing? (required keys : List String) : Option String :=
  required.find? fun name => !keys.contains name

/-- A whole object, in which this is the first of the required names that is missing. -/
inductive Misses (required : List String) (name : String) (s : List Char) : Prop where
  | mk {first : Bool} {t u rest : List Char} {keys : List String}
      (hopen : skipBlank s = '{' :: t) (hpast : PastMembers true t keys first u)
      (hclose : nextKey first u = .ok (none, rest)) (hmissing : missing? required keys = some name)

/-- The failures of a reader that name a missing field: there is an object that misses it, at one of
the paths that are given with the names that are required there. -/
def Blames {α : Type} (places : Path → List String → Prop) (reader : Reader α) : Prop :=
  ∀ ⦃s f name⦄, reader s = .error f → f.cause = .missingField name →
    ∃ path required rest, places path required ∧ LeadsTo s path rest ∧ Misses required name rest

/-- No record, no place to blame. -/
def nowhere (_ : Path) (_ : List String) : Prop := False

theorem FailsFor.ne_missingField {α : Type} {r : Except Failure α}
    (h : FailsFor Cause.isSyntax r) {f : Failure} (hf : r = .error f) {name : String} :
    f.cause ≠ .missingField name := by
  intro hcause
  have hsyntax := h hf
  rw [hcause] at hsyntax
  cases hsyntax

section Leaves

variable {α β : Type} {places inner : Path → List String → Prop} {depth : Nat}
  {decoder : Decoder α} {f : Failure} {name : String}

theorem map_eq_error {ε γ δ : Type} {r : Except ε γ} {g : γ → δ} {e : ε}
    (h : r.map g = .error e) : r = .error e := by
  cases r with
  | ok a => cases h
  | error f =>
      cases h
      rfl

theorem Blames.map {reader : Reader β} (h : Blames places reader) (g : β → α) :
    Blames places fun s => (reader s).map fun p => (g p.1, p.2) :=
  fun _ _ _ hf hcause => h (map_eq_error hf) hcause

theorem Blames.mono {reader : Reader α} (h : Blames inner reader)
    (hplaces : ∀ path required, inner path required → places path required) :
    Blames places reader := by
  intro s f name hf hcause
  obtain ⟨path, required, rest, hplace, hleads, hmisses⟩ := h hf hcause
  exact ⟨path, required, rest, hplaces _ _ hplace, hleads, hmisses⟩

theorem blames_string (depth : Nat) : Blames nowhere (Decoder.string depth) := by
  intro s f name h hcause
  rw [Decoder.string, Decoder.stringAs] at h
  split at h
  · exact absurd hcause ((syntactic_string _).ne_missingField h)
  · cases h
    exact absurd hcause (cause_unexpected _ _ _)

theorem blames_bool (depth : Nat) : Blames nowhere (Decoder.bool depth) := by
  intro s f name h hcause
  rw [Decoder.bool] at h
  split at h
  · exact absurd hcause (((syntactic_word _ _).map _).ne_missingField h)
  · exact absurd hcause (((syntactic_word _ _).map _).ne_missingField h)
  · cases h
    exact absurd hcause (cause_unexpected _ _ _)

theorem Blames.optional (h : Blames nowhere (decoder depth)) :
    Blames nowhere (Decoder.optional decoder depth) := by
  intro s f name hf hcause
  rw [Decoder.optional] at hf
  split at hf
  · exact absurd hcause (((syntactic_word _ _).map _).ne_missingField hf)
  · obtain ⟨_, _, _, hplace, -⟩ := h (map_eq_error hf) hcause
    exact hplace.elim

end Leaves

/-! ### Arrays -/

section Arrays

variable {α β : Type} {places inner : Path → List String → Prop} {depth : Nat}
  {decoder : Decoder α} {s : List Char} {f : Failure} {name : String}

theorem bracketed_eq_error {close : List Char → Option Failure × List Char} {inside : Reader α}
    (hclose : ∀ t f rest, close t = (some f, rest) → f.cause.isSyntax = true)
    (h : bracketed close inside s = .error f) (hcause : f.cause = .missingField name) :
    ∃ g, inside s = .error g ∧ g.cause = .missingField name := by
  unfold bracketed at h
  split at h
  · split at h
    · cases h
    · rename_i hclosing
      obtain rfl := Except.error.inj h
      have hsyntax := hclose _ _ _ hclosing
      rw [hcause] at hsyntax
      cases hsyntax
  · rename_i g hg
    obtain rfl := Except.error.inj h
    rw [Failure.cause_place] at hcause
    exact ⟨g, hg, hcause⟩

/-- A loop over items fails at one of them, for a missing field. -/
theorem items_eq_error {step : β → Reader β} (hpassable : ∀ b, Passable (step b)) {limit : Nat}
    {first : Bool} {b : β} (h : Reader.items step limit first b s = .error f)
    (hcause : f.cause = .missingField name) :
    ∃ i last t u c, PastItems first s i last t ∧ nextItem last t = .ok (true, u) ∧
      step c u = .error f := by
  induction limit generalizing first b s with
  | zero =>
      cases h
      cases hcause
  | succ limit ih =>
      rw [Reader.items] at h
      split at h
      · rename_i hnext
        obtain rfl := Except.error.inj h
        exact absurd hcause ((syntactic_nextItem _ _).ne_missingField hnext)
      · cases h
      · rename_i t hnext
        split at h
        · rename_i hstep
          obtain rfl := Except.error.inj h
          exact ⟨0, first, s, t, b, .here, hnext, hstep⟩
        · rename_i hstep
          obtain ⟨i, last, u, v, c, hpast, hlast, hfail⟩ := ih h
          exact ⟨i + 1, last, u, v, c, .item hnext (hpassable b hstep).skipValue hpast, hlast, hfail⟩

theorem Blames.list (hpassable : ∀ depth, Passable (decoder depth))
    (h : ∀ depth, Blames inner (decoder depth))
    (hplaces : ∀ i path required, inner path required → places (.index i :: path) required)
    (depth : Nat) : Blames places (Decoder.list decoder depth) := by
  intro s f name hf hcause
  rw [Decoder.list] at hf
  split at hf
  · rename_i t hs
    cases depth with
    | zero =>
        cases hf
        cases hcause
    | succ depth =>
        obtain ⟨g, hloop, hg⟩ := bracketed_eq_error (fun _ _ _ => isSyntax_of_closeArray)
          (map_eq_error hf) hcause
        have hstep : ∀ done, Passable (listStep decoder depth done) := fun done =>
          (hpassable depth).map (· :: done)
        obtain ⟨i, first, u, v, done, hpast, hnext, hfail⟩ := items_eq_error hstep hloop hg
        obtain ⟨path, required, rest, hplace, hleads, hmisses⟩ := h depth (map_eq_error hfail) hg
        exact ⟨_, required, rest, hplaces i path required hplace, .item hs hpast hnext hleads,
          hmisses⟩
  · cases hf
    exact absurd hcause (cause_unexpected _ _ _)

end Arrays

/-! ### Records -/

/-- The names that a record requires. -/
def Record.required {α : Type} (r : Record α) : List String :=
  (r.fields.filter Field.required).map Field.name

section Records

variable {α : Type} {r : Record α} {fields : List (Field α)} {depth : Nat} {s t : List Char}
  {f : Failure} {name : String} {places : Path → List String → Prop}

/-- The members of an object are passed over, and the names of fields among them have been seen. -/
theorem members_eq_ok (hpassable : ∀ field ∈ r.fields, ∀ depth a, Passable (field.read depth a))
    {limit : Nat} {first : Bool} {p q : Record.Partial α}
    (h : Reader.members (r.member depth) limit first p s = .ok (q, t)) :
    ∃ keys last u, PastMembers first s keys last u ∧ nextKey last u = .ok (none, t) ∧
      ∀ field ∈ r.fields, field.name ∈ q.seen ↔ field.name ∈ p.seen ∨ field.name ∈ keys := by
  induction limit generalizing first p s with
  | zero => cases h
  | succ limit ih =>
      rw [Reader.members] at h
      split at h
      · cases h
      · rename_i hnext
        obtain ⟨rfl, rfl⟩ := Prod.mk.inj (Except.ok.inj h)
        exact ⟨[], first, s, .here, hnext, fun field _ => by simp⟩
      · rename_i key u hnext
        split at h
        · cases h
        · rename_i next v hmember
          obtain ⟨w, hcolon, hvalue, hseen⟩ := member_eq_ok hpassable hmember
          obtain ⟨keys, last, x, hpast, hlast, hall⟩ := ih h
          refine ⟨key :: keys, last, x, .member hnext hcolon hvalue.skipValue hpast, hlast,
            fun field hfield => ?_⟩
          rw [hall field hfield, hseen field hfield, List.mem_cons, or_assoc]

theorem member_eq_error {p : Record.Partial α} {key : String}
    (h : r.member depth p key s = .error f) (hcause : f.cause = .missingField name) :
    ∃ field ∈ r.fields, field.name = key ∧ key ∉ p.seen ∧
      ∃ t a, colon s = .ok ((), t) ∧ field.read depth a t = .error f := by
  rw [Record.member] at h
  split at h
  · split at h
    · rename_i hcolon
      obtain rfl := Except.error.inj h
      exact absurd hcause ((syntactic_colon _).ne_missingField hcolon)
    · exact absurd hcause (((syntactic_skipValue _).map _).ne_missingField h)
  · rename_i field hfind
    split at h
    · cases h
      cases hcause
    · rename_i hseen
      split at h
      · rename_i hcolon
        obtain rfl := Except.error.inj h
        exact absurd hcause ((syntactic_colon _).ne_missingField hcolon)
      · rename_i t hcolon
        have hname : field.name = key := by simpa using List.find?_some hfind
        exact ⟨field, List.mem_of_find?_eq_some hfind, hname, by simpa using hseen, t, p.value,
          hcolon, map_eq_error h⟩

/-- A loop over members fails in the value of a field, for a missing field; the key has not been
read before. -/
theorem members_eq_error (hpassable : ∀ field ∈ r.fields, ∀ depth a, Passable (field.read depth a))
    {limit : Nat} {first : Bool} {p : Record.Partial α}
    (h : Reader.members (r.member depth) limit first p s = .error f)
    (hcause : f.cause = .missingField name) :
    ∃ field ∈ r.fields, ∃ keys last t u v a, PastMembers first s keys last t ∧
      field.name ∉ p.seen ∧ field.name ∉ keys ∧ nextKey last t = .ok (some field.name, u) ∧
      colon u = .ok ((), v) ∧ field.read depth a v = .error f := by
  induction limit generalizing first p s with
  | zero =>
      cases h
      cases hcause
  | succ limit ih =>
      rw [Reader.members] at h
      split at h
      · rename_i hnext
        obtain rfl := Except.error.inj h
        exact absurd hcause ((syntactic_nextKey _ _).ne_missingField hnext)
      · cases h
      · rename_i key u hnext
        split at h
        · rename_i hmember
          obtain rfl := Except.error.inj h
          obtain ⟨field, hfield, rfl, hfresh, v, a, hcolon, hread⟩ :=
            member_eq_error hmember hcause
          exact ⟨field, hfield, [], first, s, u, v, a, .here, hfresh, by simp, hnext, hcolon, hread⟩
        · rename_i next v hmember
          obtain ⟨w, hcolon, hvalue, hseen⟩ := member_eq_ok hpassable hmember
          obtain ⟨field, hfield, keys, last, x, y, z, a, hpast, hfresh, hkeys, hrest⟩ := ih h
          rw [hseen field hfield, not_or] at hfresh
          refine ⟨field, hfield, key :: keys, last, x, y, z, a,
            .member hnext hcolon hvalue.skipValue hpast, hfresh.1, ?_, hrest⟩
          rw [List.mem_cons, not_or]
          exact ⟨hfresh.2, hkeys⟩

theorem find?_required (r : Record α) (keys : List String) :
    missing? r.required keys =
      (r.fields.find? fun field => field.required && !keys.contains field.name).map Field.name := by
  rw [missing?, Record.required, List.find?_map, List.find?_filter]
  simp

theorem finish_eq_error {p : Record.Partial α} {keys : List String}
    (hseen : ∀ field ∈ r.fields, field.name ∈ p.seen ↔ field.name ∈ keys)
    (h : r.finish p s = .error f) (hcause : f.cause = .missingField name) :
    missing? r.required keys = some name := by
  have hsame : ∀ field ∈ r.fields, (field.required && !p.seen.contains field.name) =
      (field.required && !keys.contains field.name) := by
    intro field hfield
    have hiff := hseen field hfield
    simp [hiff]
  unfold Record.finish at h
  split at h
  · rename_i field hfind
    cases h
    cases hcause
    rw [find?_required, ← List.find?_congr hsame, hfind]
    rfl
  · cases h

/-- At the end of an array a field is not missing: there are too few items. -/
theorem ofItems_close_eq_error {index : Nat} {first : Bool} {a : α}
    (h : r.ofItems depth fields index first a (']' :: s) = .error f) :
    f.cause ≠ .missingField name := by
  induction fields generalizing index a with
  | nil => cases h
  | cons field fields ih =>
      have hnext : nextItem first (']' :: s) = .ok (false, ']' :: s) := rfl
      rw [Record.ofItems, hnext] at h
      dsimp only at h
      split at h
      · cases h
        rintro ⟨⟩
      · exact ih h

/-- The items of an array are fields in their order, and reading fails in one of them. -/
theorem ofItems_eq_error (hpassable : ∀ field ∈ fields, ∀ depth a, Passable (field.read depth a))
    {index : Nat} {first : Bool} {a : α} (h : r.ofItems depth fields index first a s = .error f)
    (hcause : f.cause = .missingField name) :
    ∃ i field last t u b, fields[i]? = some field ∧ PastItems first s i last t ∧
      nextItem last t = .ok (true, u) ∧ field.read depth b u = .error f := by
  induction fields generalizing index first a s with
  | nil => cases h
  | cons field fields ih =>
      obtain ⟨hfield, hpassable⟩ := List.forall_mem_cons.mp hpassable
      rw [Record.ofItems] at h
      split at h
      · rename_i hnext
        obtain rfl := Except.error.inj h
        exact absurd hcause ((syntactic_nextItem _ _).ne_missingField hnext)
      · rename_i t hnext
        split at h
        · rename_i hread
          obtain rfl := Except.error.inj h
          exact ⟨0, field, first, s, t, a, rfl, .here, hnext, hread⟩
        · rename_i hread
          obtain ⟨i, known, last, u, v, b, hknown, hpast, hlast, hfail⟩ := ih hpassable h
          exact ⟨i + 1, known, last, u, v, b, hknown,
            .item hnext (hfield depth a hread).skipValue hpast, hlast, hfail⟩
      · rename_i t hnext
        split at h
        · cases h
          cases hcause
        · rcases nextItem_eq_ok hnext with ⟨-, b, u, hb, rfl, rfl⟩ | ⟨hmore, -⟩ | ⟨hmore, -⟩
          · exact absurd hcause (ofItems_close_eq_error h)
          · cases hmore
          · cases hmore

/-- A field of a record, which may stand under its name or at its index. -/
structure FieldBlames (places : Path → List String → Prop) (i : Nat) (field : Field α) : Prop where
  passable : ∀ depth a, Passable (field.read depth a)
  blames : ∀ depth a, Blames (fun path required =>
    places (.key field.name :: path) required ∧ places (.index i :: path) required)
    (field.read depth a)

section Fields

variable {β : Type} {inner : Path → List String → Prop} {decoder : Decoder β} {i : Nat}

theorem FieldBlames.mandatory (hpassable : ∀ depth, Passable (decoder depth))
    (hblames : ∀ depth, Blames inner (decoder depth))
    (hplaces : ∀ path required, inner path required →
      places (.key name :: path) required ∧ places (.index i :: path) required)
    (set : α → β → α) : FieldBlames places i (.mandatory name decoder set) where
  passable depth a := (hpassable depth).map (set a)
  blames depth a := ((hblames depth).mono hplaces).map (set a)

/-- No record is blamed for what fails in a field without records. -/
theorem FieldBlames.leaf {field : Field α} (hpassable : ∀ depth a, Passable (field.read depth a))
    (hblames : ∀ depth a, Blames nowhere (field.read depth a)) : FieldBlames places i field where
  passable := hpassable
  blames depth a := (hblames depth a).mono fun _ _ hplace => hplace.elim

end Fields

theorem passable_of_fields
    (hfields : ∀ i field, r.fields[i]? = some field → FieldBlames places i field) :
    ∀ field ∈ r.fields, ∀ depth a, Passable (field.read depth a) := by
  intro field hfield
  obtain ⟨i, hi⟩ := List.mem_iff_getElem?.mp hfield
  exact (hfields i field hi).passable

/-- A record that is read from an object misses a field itself, or a field of it does. -/
theorem Blames.record (hroot : places [] r.required)
    (hfields : ∀ i field, r.fields[i]? = some field → FieldBlames places i field) (depth : Nat) :
    Blames places (r.decoder depth) := by
  have hpassable := passable_of_fields hfields
  intro s f name hf hcause
  rw [Record.decoder] at hf
  split at hf
  · rename_i t hs
    cases depth with
    | zero =>
        cases hf
        cases hcause
    | succ depth =>
        obtain ⟨g, hloop, hg⟩ := bracketed_eq_error (fun _ _ _ => isSyntax_of_closeArray) hf hcause
        obtain ⟨i, field, first, u, v, a, hi, hpast, hnext, hfail⟩ :=
          ofItems_eq_error hpassable hloop hg
        obtain ⟨path, required, rest, ⟨-, hplace⟩, hleads, hmisses⟩ :=
          (hfields i field hi).blames depth a hfail hg
        exact ⟨_, required, rest, hplace, .item hs hpast hnext hleads, hmisses⟩
  · rename_i t hs
    cases depth with
    | zero =>
        cases hf
        cases hcause
    | succ depth =>
        obtain ⟨g, hmembers, hg⟩ :=
          bracketed_eq_error (fun _ _ _ => isSyntax_of_closeObject) hf hcause
        change r.ofMembers depth t = _ at hmembers
        unfold Record.ofMembers at hmembers
        split at hmembers
        · rename_i hloop
          obtain rfl := Except.error.inj hmembers
          obtain ⟨field, hfield, keys, first, u, v, w, a, hpast, -, hfresh, hnext, hcolon, hfail⟩ :=
            members_eq_error hpassable hloop hg
          obtain ⟨i, hi⟩ := List.mem_iff_getElem?.mp hfield
          obtain ⟨path, required, rest, ⟨hplace, -⟩, hleads, hmisses⟩ :=
            (hfields i field hi).blames depth a hfail hg
          exact ⟨_, required, rest, hplace, .member hs hpast hfresh hnext hcolon hleads, hmisses⟩
        · rename_i hloop
          obtain ⟨keys, first, u, hpast, hclose, hseen⟩ := members_eq_ok hpassable hloop
          have hmissing : missing? r.required keys = some name :=
            finish_eq_error (fun field hfield => by rw [hseen field hfield]; simp) hmembers hg
          exact ⟨[], _, s, hroot, .here, .mk hs hpast hclose hmissing⟩
  · cases hf
    exact absurd hcause (cause_unexpected _ _ _)

end Records

/-! ### Documents -/

/-- In front stands a value, behind which a number may end. -/
def BeginsWith (s : List Char) (w : Json) : Prop :=
  ∃ depth lead text after, s = lead ++ (text ++ after) ∧ Blank lead ∧ Stops after ∧
    Written depth text w

section Documents

theorem run_eq_error {α : Type} {reader : Reader α} {text name : String} {e : Error}
    (h : Reader.run reader text = .error e) (hcause : e.cause = .missingField name) :
    ∃ f, reader text.toList = .error f ∧ f.cause = .missingField name := by
  rw [Reader.run] at h
  split at h
  · rename_i f hf
    obtain rfl := Except.error.inj h
    exact ⟨f, hf, hcause⟩
  · split at h
    · cases h
    · obtain rfl := Except.error.inj h
      cases hcause

theorem IsDocument.beginsWith {text : String} {w : Json} (h : IsDocument text w) :
    BeginsWith text.toList w := by
  obtain ⟨lead, value, trail, htext, hlead, htrail, hw⟩ := h
  exact ⟨depthLimit, lead, value, trail, htext, hlead, stops_of_blank htrail, hw⟩

variable {s t rest : List Char} {w : Json}

theorem skipBlank_of_written {depth : Nat} {lead text : List Char} (hlead : Blank lead)
    (hw : Written depth text w) (after : List Char) :
    skipBlank (lead ++ (text ++ after)) = text ++ after := by
  obtain ⟨c, t, rfl, hc⟩ := hw.opens
  rw [skipBlank_append hlead, List.cons_append, skipBlank_cons hc.not_blank]

theorem skipValue_of_written {depth : Nat} {lead text after : List Char} (hlead : Blank lead)
    (hw : Written depth text w) (hafter : Stops after) :
    skipValue (lead ++ (text ++ after)) = .ok ((), after) :=
  eq_ok_of_toOption (hw.skips.reads_skipValue lead after hlead hafter)

theorem BeginsWith.array (h : BeginsWith s w) (hopen : skipBlank s = '[' :: t) :
    ∃ depth blank after, ∃ items : List Item, w = .array (items.map Item.value) ∧
      t = remaining true ']' blank (items.map Item.chars) ++ after ∧ Blank blank ∧
      (∀ i ∈ items, i.Spaced) ∧ ∀ i ∈ items, Written depth i.text i.value := by
  obtain ⟨depth, lead, text, after, rfl, hlead, -, hw⟩ := h
  rw [skipBlank_of_written hlead hw] at hopen
  obtain ⟨c, u, rfl, -⟩ := hw.opens
  obtain ⟨rfl, rfl⟩ := List.cons.inj hopen
  obtain ⟨values, rfl⟩ := hw.starts.bracket rfl
  cases hw with
  | array hblank hspaced hwritten => exact ⟨_, _, after, _, rfl, rfl, hblank, hspaced, hwritten⟩

theorem BeginsWith.object (h : BeginsWith s w) (hopen : skipBlank s = '{' :: t) :
    ∃ depth blank after, ∃ members : List Member, w = .object (members.map Member.entry) ∧
      t = remaining true '}' blank (members.map Member.chars) ++ after ∧ Blank blank ∧
      (∀ m ∈ members, m.Spaced) ∧ ∀ m ∈ members, Written depth m.text m.value := by
  obtain ⟨depth, lead, text, after, rfl, hlead, -, hw⟩ := h
  rw [skipBlank_of_written hlead hw] at hopen
  obtain ⟨c, u, rfl, -⟩ := hw.opens
  obtain ⟨rfl, rfl⟩ := List.cons.inj hopen
  obtain ⟨values, rfl⟩ := hw.starts.brace rfl
  cases hw with
  | object hblank hspaced hwritten => exact ⟨_, _, after, _, rfl, rfl, hblank, hspaced, hwritten⟩

section Loops

variable {depth n : Nat} {first last : Bool} {items : List Item} {members : List Member}
  {blank v : List Char} {keys : List String}

/-- The next item, and what stands in front of it and behind it. -/
theorem nextItem_written (hblank : Blank blank) (hspaced : ∀ i ∈ items, i.Spaced)
    (hwritten : ∀ i ∈ items, Written depth i.text i.value)
    (hnext : nextItem first (remaining first ']' blank (items.map Item.chars) ++ rest) =
      .ok (true, t)) :
    ∃ i more, items = i :: more ∧
      t = i.text ++ (i.after ++ (followed ']' (more.map Item.chars) ++ rest)) ∧
      Stops (i.after ++ (followed ']' (more.map Item.chars) ++ rest)) := by
  cases items with
  | nil =>
      rw [List.map_nil, nextItem_remaining_nil hblank] at hnext
      cases hnext
  | cons i more =>
      have hi : i.Spaced := hspaced i List.mem_cons_self
      have hopens := (hwritten i List.mem_cons_self).opens
      rw [List.map_cons, nextItem_remaining_cons hblank hi hopens] at hnext
      obtain ⟨-, rfl⟩ := Prod.mk.inj (Except.ok.inj hnext)
      exact ⟨i, more, rfl, rfl, stops_blank hi.after (stops_followed (by decide) _ _)⟩

/-- Behind some items that are passed over stand the others. -/
theorem PastItems.remaining (h : PastItems first s n last v)
    (hs : s = remaining first ']' blank (items.map Item.chars) ++ rest) (hblank : Blank blank)
    (hspaced : ∀ i ∈ items, i.Spaced) (hwritten : ∀ i ∈ items, Written depth i.text i.value) :
    ∃ passed left b, items = passed ++ left ∧ passed.length = n ∧ Blank b ∧
      v = Json.remaining last ']' b (left.map Item.chars) ++ rest := by
  induction h generalizing items blank with
  | here => exact ⟨[], items, blank, rfl, rfl, hblank, hs⟩
  | item hnext hvalue _ ih =>
      subst hs
      obtain ⟨i, items, rfl, rfl, hstops⟩ := nextItem_written hblank hspaced hwritten hnext
      obtain ⟨hi, hspaced⟩ := List.forall_mem_cons.mp hspaced
      obtain ⟨hiw, hwritten⟩ := List.forall_mem_cons.mp hwritten
      have hskip := skipValue_of_written blank_nil hiw hstops
      rw [List.nil_append, hvalue] at hskip
      obtain ⟨-, rfl⟩ := Prod.mk.inj (Except.ok.inj hskip)
      obtain ⟨passed, left, b, rfl, rfl, hb, hv⟩ :=
        ih (List.append_assoc _ _ _).symm hi.after hspaced hwritten
      exact ⟨i :: passed, left, b, rfl, rfl, hb, hv⟩

/-- The next member with its key, and what stands behind its colon. -/
theorem nextKey_written {key : String} {u : List Char} (hblank : Blank blank)
    (hspaced : ∀ m ∈ members, m.Spaced)
    (hnext : nextKey first (remaining first '}' blank (members.map Member.chars) ++ rest) =
      .ok (some key, t)) (hcolon : colon t = .ok ((), u)) :
    ∃ m more, members = m :: more ∧ key = m.key ∧
      u = m.beforeValue ++
        (m.text ++ (m.after ++ (followed '}' (more.map Member.chars) ++ rest))) ∧
      Stops (m.after ++ (followed '}' (more.map Member.chars) ++ rest)) := by
  cases members with
  | nil =>
      rw [List.map_nil, nextKey_remaining_nil hblank] at hnext
      cases hnext
  | cons m more =>
      have hm : m.Spaced := hspaced m List.mem_cons_self
      rw [List.map_cons, nextKey_remaining_cons hblank hm] at hnext
      obtain ⟨hkey, rfl⟩ := Prod.mk.inj (Except.ok.inj hnext)
      rw [Member.fromColon, List.cons_append, colon_append hm.beforeColon] at hcolon
      obtain ⟨-, rfl⟩ := Prod.mk.inj (Except.ok.inj hcolon)
      refine ⟨m, more, rfl, (Option.some.inj hkey).symm, ?_,
        stops_blank hm.after (stops_followed (by decide) _ _)⟩
      simp only [List.append_assoc]

/-- Behind some members that are passed over stand the others. -/
theorem PastMembers.remaining (h : PastMembers first s keys last v)
    (hs : s = remaining first '}' blank (members.map Member.chars) ++ rest) (hblank : Blank blank)
    (hspaced : ∀ m ∈ members, m.Spaced) (hwritten : ∀ m ∈ members, Written depth m.text m.value) :
    ∃ passed left b, members = passed ++ left ∧ passed.map Member.key = keys ∧ Blank b ∧
      v = Json.remaining last '}' b (left.map Member.chars) ++ rest := by
  induction h generalizing members blank with
  | here => exact ⟨[], members, blank, rfl, rfl, hblank, hs⟩
  | member hnext hcolon hvalue _ ih =>
      subst hs
      obtain ⟨m, members, rfl, rfl, rfl, hstops⟩ := nextKey_written hblank hspaced hnext hcolon
      obtain ⟨hm, hspaced⟩ := List.forall_mem_cons.mp hspaced
      obtain ⟨hmw, hwritten⟩ := List.forall_mem_cons.mp hwritten
      have hskip := skipValue_of_written hm.beforeValue hmw hstops
      rw [hvalue] at hskip
      obtain ⟨-, rfl⟩ := Prod.mk.inj (Except.ok.inj hskip)
      obtain ⟨passed, left, b, rfl, rfl, hb, hv⟩ :=
        ih (List.append_assoc _ _ _).symm hm.after hspaced hwritten
      exact ⟨m :: passed, left, b, rfl, rfl, hb, hv⟩

/-- Behind members with other keys a member is the first with its key. -/
theorem member?_of_passed {passed left : List Member} {m : Member}
    (hfirst : m.key ∉ passed.map Member.key) :
    (Json.object ((passed ++ m :: left).map Member.entry)).member? m.key = some m.value := by
  have habsent : Entries.find? m.key (passed.map Member.entry) = none := by
    rw [Entries.find?_eq_none, Entries.keys, List.map_map]
    exact hfirst
  rw [member?, List.map_append, Entries.find?_append, habsent]
  exact if_pos rfl

end Loops

/-- A path that leads to a part of a value leads there in its tree. -/
theorem LeadsTo.beginsWith {path : Path} (h : LeadsTo s path rest) (hs : BeginsWith s w) :
    ∃ v, w.at? path = some v ∧ BeginsWith rest v := by
  induction h generalizing w with
  | here => exact ⟨w, rfl, hs⟩
  | item hopen hpast hnext _ ih =>
      obtain ⟨depth, blank, after, items, rfl, ht, hblank, hspaced, hwritten⟩ := hs.array hopen
      obtain ⟨passed, left, b, rfl, rfl, hb, rfl⟩ := hpast.remaining ht hblank hspaced hwritten
      obtain ⟨-, hspaced⟩ := List.forall_mem_append.mp hspaced
      obtain ⟨-, hwritten⟩ := List.forall_mem_append.mp hwritten
      obtain ⟨i, left, rfl, rfl, hstops⟩ := nextItem_written hb hspaced hwritten hnext
      have hiw := hwritten i List.mem_cons_self
      obtain ⟨v, hv, hrest⟩ := ih ⟨depth, [], i.text, _, rfl, blank_nil, hstops, hiw⟩
      refine ⟨v, ?_, hrest⟩
      rw [at?, step?, item?]
      simpa using hv
  | member hopen hpast hfirst hnext hcolon _ ih =>
      obtain ⟨depth, blank, after, members, rfl, ht, hblank, hspaced, hwritten⟩ := hs.object hopen
      obtain ⟨passed, left, b, rfl, rfl, hb, rfl⟩ := hpast.remaining ht hblank hspaced hwritten
      obtain ⟨-, hspaced⟩ := List.forall_mem_append.mp hspaced
      obtain ⟨m, left, rfl, rfl, rfl, hstops⟩ := nextKey_written hb hspaced hnext hcolon
      have hm := hspaced m List.mem_cons_self
      have hmw := hwritten m (by simp)
      obtain ⟨v, hv, hrest⟩ := ih ⟨depth, _, m.text, _, rfl, hm.beforeValue, hstops, hmw⟩
      refine ⟨v, ?_, hrest⟩
      rw [at?, step?, member?_of_passed hfirst]
      exact hv

theorem Misses.beginsWith {required : List String} {name : String}
    (h : Misses required name s) (hs : BeginsWith s w) :
    ∃ members : Entries Json, w = .object members ∧ missing? required members.keys = some name := by
  obtain ⟨hopen, hpast, hclose, hmissing⟩ := h
  obtain ⟨depth, blank, after, members, rfl, ht, hblank, hspaced, hwritten⟩ := hs.object hopen
  obtain ⟨passed, left, b, rfl, rfl, hb, rfl⟩ := hpast.remaining ht hblank hspaced hwritten
  cases left with
  | nil =>
      refine ⟨_, rfl, ?_⟩
      rw [← hmissing, Entries.keys, List.map_map, List.append_nil]
      rfl
  | cons m left =>
      have hm := hspaced m (by simp)
      rw [List.map_cons, nextKey_remaining_cons hb hm] at hclose
      cases hclose

end Documents

end ResourceApi.Json
