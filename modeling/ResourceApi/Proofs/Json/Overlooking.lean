import ResourceApi.Proofs.Json.Decoding
import ResourceApi.Proofs.Json.Leniency

/-!
Where a typed reader succeeds and the strict reader fails. Both go through the same text in the same
order. They part only at a member that no field asks for: the typed reader passes over its value,
and the strict reader fails there at a limit of its own. Everywhere else a text that has been read
into a record is one that the strict reader reads up to the same place.
-/

namespace ResourceApi.Json

open Reader

/-! ### Places inside a value -/

/-- The strict reader comes to an item of an array; it has read those before it. -/
inductive ItemAt (depth : Nat) : Bool → List Char → Nat → List Char → Prop where
  | here {first : Bool} {s t : List Char} (hnext : nextItem first s = .ok (true, t)) :
      ItemAt depth first s 0 t
  | later {first : Bool} {s t u rest : List Char} {v : Json} {i : Nat}
      (hnext : nextItem first s = .ok (true, t)) (hvalue : value depth t = .ok (v, u))
      (h : ItemAt depth false u i rest) : ItemAt depth first s (i + 1) rest

/-- The strict reader comes to the value of a member of an object; it has read those before it. -/
inductive MemberAt (depth : Nat) : Bool → List Char → String → List Char → Prop where
  | here {first : Bool} {s t u : List Char} {key : String}
      (hnext : nextKey first s = .ok (some key, t)) (hcolon : colon t = .ok ((), u)) :
      MemberAt depth first s key u
  | later {first : Bool} {s t u w rest : List Char} {other key : String} {v : Json}
      (hnext : nextKey first s = .ok (some other, t)) (hcolon : colon t = .ok ((), u))
      (hvalue : value depth u = .ok (v, w)) (h : MemberAt depth false w key rest) :
      MemberAt depth first s key rest

/-- In a value that may be nested so deep, the strict reader comes to the part at the end of a path.
The new depth is the one to which that part may be nested, and the new text starts with it. -/
inductive ComesTo : Nat → List Char → Path → Nat → List Char → Prop where
  | here {depth : Nat} {s : List Char} : ComesTo depth s [] depth s
  | item {depth inner i : Nat} {s t u rest : List Char} {path : Path}
      (hopen : skipBlank s = '[' :: t) (hitem : ItemAt depth true t i u)
      (h : ComesTo depth u path inner rest) :
      ComesTo (depth + 1) s (.index i :: path) inner rest
  | member {depth inner : Nat} {s t u rest : List Char} {key : String} {path : Path}
      (hopen : skipBlank s = '{' :: t) (hmember : MemberAt depth true t key u)
      (h : ComesTo depth u path inner rest) :
      ComesTo (depth + 1) s (.key key :: path) inner rest

section Failures

variable {depth limit : Nat} {first : Bool} {s t : List Char} {f : Failure}

theorem ItemAt.error {i : Nat} (h : ItemAt depth first s i t) (done : List Json)
    (hlimit : s.length < limit) (hf : value depth t = .error f) :
    Reader.items (itemStep Entries.put depth) limit first done s = .error f := by
  induction h generalizing limit done with
  | here hnext =>
      obtain ⟨limit, rfl⟩ : ∃ n, limit = n + 1 := ⟨limit - 1, by omega⟩
      rw [Reader.items, hnext]
      dsimp only
      rw [itemStep_eq_error done hf]
  | later hnext hvalue _ ih =>
      obtain ⟨limit, rfl⟩ : ∃ n, limit = n + 1 := ⟨limit - 1, by omega⟩
      have hle := length_le_of_nextItem hnext
      have hlt := length_lt_of_valueBy hvalue
      rw [Reader.items, hnext]
      dsimp only
      rw [itemStep_eq_ok done hvalue]
      exact ih _ (by omega) hf

theorem MemberAt.error {key : String} (h : MemberAt depth first s key t) (done : Entries Json)
    (hlimit : s.length < limit) (hf : value depth t = .error f) :
    Reader.members (memberStep Entries.put depth) limit first done s = .error f := by
  induction h generalizing limit done with
  | here hnext hcolon =>
      obtain ⟨limit, rfl⟩ : ∃ n, limit = n + 1 := ⟨limit - 1, by omega⟩
      rw [Reader.members, hnext]
      dsimp only
      rw [memberStep_eq_error done hcolon hf]
  | later hnext hcolon hvalue _ ih =>
      obtain ⟨limit, rfl⟩ : ∃ n, limit = n + 1 := ⟨limit - 1, by omega⟩
      have hle := length_le_of_nextKey hnext
      have hcolonLt := length_lt_of_colon hcolon
      have hlt := length_lt_of_valueBy hvalue
      rw [Reader.members, hnext]
      dsimp only
      rw [memberStep_eq_ok done hcolon hvalue]
      exact ih _ (by omega) hf

/-- A failure at a limit inside a value is the failure of the value. -/
theorem ComesTo.error {inner : Nat} {path : Path} (h : ComesTo depth s path inner t)
    (hf : value inner t = .error f) (hlimit : f.AtLimit) : value depth s = .error f := by
  induction h with
  | here => exact hf
  | item hopen hitem _ ih =>
      have hloop := hitem.error [] (Nat.lt_succ_self _) (ih hf)
      rw [value, valueBy_bracket hopen, bracketed_of_atLimit hloop hlimit]
      rfl
  | member hopen hmember _ ih =>
      have hloop := hmember.error [] (Nat.lt_succ_self _) (ih hf)
      rw [value, valueBy_brace hopen, bracketed_of_atLimit hloop hlimit]
      rfl

end Failures

/-! ### What typed readers ask for -/

/-- What a typed reader asks for: nothing inside the value, its items, or some of its members. -/
inductive Outline where
  | leaf
  | list (item : Outline)
  | record (fields : List (String × Outline))

/-- Whether at the end of a path there is a member that is not asked for. The fields of a record may
also be read from an array, in their order. -/
def Outline.passesOver : Outline → Path → Bool
  | .record fields, .key key :: path =>
    match Entries.find? key fields with
    | some o => o.passesOver path
    | none => path.isEmpty
  | .record fields, .index i :: path =>
    match fields[i]? with
    | some field => field.2.passesOver path
    | none => false
  | .list o, .index _ :: path => o.passesOver path
  | _, _ => false

/-- Somewhere inside a value, at a path of some kind, a value is passed over that is beyond a limit
of the strict reader. -/
def Overlooks (kind : Path → Bool) (depth : Nat) (s : List Char) : Prop :=
  ∃ path inner t f after, ComesTo depth s path inner t ∧ kind path = true ∧
    skipValue t = .ok ((), after) ∧ value inner t = .error f ∧ f.AtLimit

/-- Where a typed reader succeeds, the strict reader gets to the same place, unless a value at a
path of some kind is beyond a limit. -/
def Agrees {α : Type} (kind : Path → Bool) (depth : Nat) (reader : Reader α) : Prop :=
  ∀ ⦃s a rest⦄, reader s = .ok (a, rest) →
    (∃ v, value depth s = .ok (v, rest)) ∨ Overlooks kind depth s

section Overlooking

variable {kind : Path → Bool} {depth : Nat} {s t u : List Char}

theorem Overlooks.item {i : Nat} (hopen : skipBlank s = '[' :: t) (hitem : ItemAt depth true t i u)
    (h : Overlooks (fun path => kind (.index i :: path)) depth u) :
    Overlooks kind (depth + 1) s := by
  obtain ⟨path, inner, v, f, after, hcomes, hkind, hread⟩ := h
  exact ⟨_, inner, v, f, after, .item hopen hitem hcomes, hkind, hread⟩

theorem Overlooks.member {key : String} (hopen : skipBlank s = '{' :: t)
    (hmember : MemberAt depth true t key u)
    (h : Overlooks (fun path => kind (.key key :: path)) depth u) :
    Overlooks kind (depth + 1) s := by
  obtain ⟨path, inner, v, f, after, hcomes, hkind, hread⟩ := h
  exact ⟨_, inner, v, f, after, .member hopen hmember hcomes, hkind, hread⟩

/-- The value of a member that is not asked for. -/
theorem getsTo_or_overlooks (hkind : kind [] = true) {after : List Char}
    (h : skipValue s = .ok ((), after)) :
    (∃ v, value depth s = .ok (v, after)) ∨ Overlooks kind depth s := by
  have hvalue : GetsTo after (value depth s) := getsTo_of_skipValue depth h
  cases hread : value depth s with
  | error f =>
      rw [hread] at hvalue
      cases hvalue with
      | limit hf => exact .inr ⟨[], depth, s, f, after, .here, hkind, h, hread, hf⟩
  | ok r =>
      rw [hread] at hvalue
      cases hvalue with
      | read v => exact .inl ⟨v, rfl⟩

end Overlooking

/-! ### Strings and booleans -/

theorem agrees_string (kind : Path → Bool) (depth : Nat) :
    Agrees kind depth (Decoder.string depth) := by
  intro s a rest h
  left
  rw [Decoder.string, Decoder.stringAs] at h
  split at h
  · rename_i t hs
    refine ⟨.string a, ?_⟩
    obtain ⟨b, hsplit, hb⟩ := exists_blank s
    rw [hsplit, hs, value, valueBy_string hb, h]
    rfl
  · cases h

/-- Where a typed reader reads a word, the strict reader does. -/
theorem exists_value_of_word {α : Type} {depth : Nat} {w s t rest : List Char} {v : Json} {a b : α}
    (hvalue : value depth s = (word w t).map fun r => (v, r.2))
    (h : (word w t).map (fun r => (a, r.2)) = .ok (b, rest)) :
    ∃ v, value depth s = .ok (v, rest) := by
  obtain ⟨⟨⟨⟩, u⟩, hword, heq⟩ := map_eq_ok h
  obtain ⟨-, rfl⟩ := Prod.mk.inj heq
  exact ⟨v, by rw [hvalue, hword]; rfl⟩

theorem agrees_bool (kind : Path → Bool) (depth : Nat) :
    Agrees kind depth (Decoder.bool depth) := by
  intro s a rest h
  left
  rw [Decoder.bool] at h
  split at h
  · rename_i t hs
    have hvalue : value depth s = (word ['r', 'u', 'e'] t).map fun r => (.bool true, r.2) := by
      rw [value, valueBy, hs]
      rfl
    exact exists_value_of_word hvalue h
  · rename_i t hs
    have hvalue : value depth s = (word ['a', 'l', 's', 'e'] t).map fun r => (.bool false, r.2) := by
      rw [value, valueBy, hs]
      rfl
    exact exists_value_of_word hvalue h
  · cases h

section Combinators

variable {α : Type} {kind : Path → Bool} {depth : Nat} {decoder : Decoder α}

theorem value_skipBlank (depth : Nat) (s : List Char) :
    value depth (skipBlank s) = value depth s := by
  unfold value
  rw [valueBy, valueBy, skipBlank_skipBlank]

theorem Overlooks.of_skipBlank {s : List Char} (hroot : kind [] = false)
    (h : Overlooks kind depth (skipBlank s)) : Overlooks kind depth s := by
  obtain ⟨path, inner, t, f, after, hcomes, hkind, hskip, hf, hlimit⟩ := h
  cases hcomes with
  | here =>
      rw [hroot] at hkind
      cases hkind
  | item hopen hitem h =>
      rw [skipBlank_skipBlank] at hopen
      exact ⟨_, inner, t, f, after, .item hopen hitem h, hkind, hskip, hf, hlimit⟩
  | member hopen hmember h =>
      rw [skipBlank_skipBlank] at hopen
      exact ⟨_, inner, t, f, after, .member hopen hmember h, hkind, hskip, hf, hlimit⟩

theorem Agrees.optional (hroot : kind [] = false) (h : Agrees kind depth (decoder depth)) :
    Agrees kind depth (Decoder.optional decoder depth) := by
  intro s a rest hread
  rw [Decoder.optional] at hread
  split at hread
  · rename_i t hs
    have hvalue : value depth s = (word ['u', 'l', 'l'] t).map fun r => (.null, r.2) := by
      rw [value, valueBy, hs]
      rfl
    exact .inl (exists_value_of_word hvalue hread)
  · obtain ⟨⟨b, r⟩, hr, heq⟩ := map_eq_ok hread
    obtain ⟨rfl, rfl⟩ := Prod.mk.inj heq
    rcases h hr with ⟨v, hv⟩ | hover
    · rw [value_skipBlank] at hv
      exact .inl ⟨v, hv⟩
    · exact .inr (hover.of_skipBlank hroot)

/-! ### Arrays and objects -/

/-- The strict loop over items keeps up with a typed one, unless something in an item is
overlooked. -/
theorem items_of_agrees {limit : Nat} {first : Bool} {s rest : List Char} {done as : List α}
    (hitem : Agrees kind depth (decoder depth))
    (h : Reader.items (listStep decoder depth) limit first done s = .ok (as, rest))
    (vs : List Json) :
    (∃ ws, Reader.items (itemStep Entries.put depth) limit first vs s = .ok (ws, rest)) ∨
      ∃ i t, ItemAt depth first s i t ∧ Overlooks kind depth t := by
  induction limit generalizing first s done vs with
  | zero => cases h
  | succ limit ih =>
      rw [Reader.items] at h ⊢
      split at h
      · cases h
      · obtain ⟨rfl, rfl⟩ := Prod.mk.inj (Except.ok.inj h)
        exact .inl ⟨vs, rfl⟩
      · rename_i t hnext
        split at h
        · cases h
        · rename_i u hstep
          obtain ⟨⟨b, u⟩, hread, heq⟩ := map_eq_ok hstep
          obtain ⟨rfl, rfl⟩ := Prod.mk.inj heq
          rcases hitem hread with ⟨v, hv⟩ | hover
          · rw [itemStep_eq_ok vs hv]
            rcases ih h (v :: vs) with hws | ⟨i, w, hat, hover⟩
            · exact .inl hws
            · exact .inr ⟨i + 1, w, .later hnext hv hat, hover⟩
          · exact .inr ⟨0, t, .here hnext, hover⟩

theorem value_of_items {s t u rest : List Char} {ws : List Json} (hs : skipBlank s = '[' :: t)
    (hloop : Reader.items (itemStep Entries.put depth) (t.length + 1) true [] t = .ok (ws, u))
    (hclose : closeArray u = (none, rest)) :
    value (depth + 1) s = .ok (.array ws.reverse, rest) := by
  rw [value, valueBy_bracket hs, bracketed, hloop]
  dsimp only
  rw [hclose]
  rfl

theorem Agrees.list {inner : Path → Bool} (h : ∀ depth, Agrees inner depth (decoder depth))
    (hkind : ∀ i path, kind (.index i :: path) = inner path) :
    Agrees kind depth (Decoder.list decoder depth) := by
  intro s as rest hread
  rw [Decoder.list] at hread
  split at hread
  · rename_i t hs
    cases depth with
    | zero => cases hread
    | succ depth =>
        obtain ⟨⟨bs, r⟩, hr, heq⟩ := map_eq_ok hread
        obtain ⟨rfl, rfl⟩ := Prod.mk.inj heq
        obtain ⟨u, hloop, hclose⟩ := bracketed_eq_ok hr
        rcases items_of_agrees (h depth) hloop [] with ⟨ws, hws⟩ | ⟨i, u, hat, hover⟩
        · exact .inl ⟨_, value_of_items hs hws hclose⟩
        · right
          refine .item hs hat ?_
          simpa only [hkind] using hover
  · cases hread

end Combinators

/-! ### Records -/

section Records

variable {α : Type} {r : Record α} {fields : List (Field α)} {parts : List (String × Outline)}
  {depth : Nat}

/-- A field with its name and what is asked for in its value. -/
structure FieldAgrees (field : Field α) (part : String × Outline) : Prop where
  name : field.name = part.1
  read : ∀ depth a, Agrees part.2.passesOver depth (field.read depth a)

theorem Agrees.map {β : Type} {kind : Path → Bool} {reader : Reader β}
    (h : Agrees kind depth reader) (g : β → α) :
    Agrees kind depth fun s => (reader s).map fun p => (g p.1, p.2) := by
  intro s a rest hread
  obtain ⟨⟨b, t⟩, hb, heq⟩ := map_eq_ok hread
  obtain ⟨rfl, rfl⟩ := Prod.mk.inj heq
  exact h hb

section Fields

variable {β : Type} {decoder : Decoder β} {o : Outline}

theorem FieldAgrees.mandatory (h : ∀ depth, Agrees o.passesOver depth (decoder depth))
    (name : String) (set : α → β → α) : FieldAgrees (.mandatory name decoder set) (name, o) :=
  ⟨rfl, fun depth a => (h depth).map (set a)⟩

theorem FieldAgrees.defaulted (h : ∀ depth, Agrees o.passesOver depth (decoder depth))
    (name : String) (set : α → β → α) : FieldAgrees (.defaulted name decoder set) (name, o) :=
  ⟨rfl, fun depth a => (h depth).map (set a)⟩

end Fields

/-- A known key has a field, and for an unknown one nothing is asked for. -/
theorem find?_of_fieldAgrees (h : List.Forall₂ FieldAgrees fields parts) (key : String) :
    (fields.find? (fun field => field.name = key) = none ∧ Entries.find? key parts = none) ∨
      ∃ field o, fields.find? (fun field => field.name = key) = some field ∧
        Entries.find? key parts = some o ∧
        ∀ depth a, Agrees o.passesOver depth (field.read depth a) := by
  induction h with
  | nil => exact .inl ⟨rfl, rfl⟩
  | @cons field part fields parts hfield _ ih =>
      by_cases hkey : field.name = key
      · right
        refine ⟨field, part.2, List.find?_cons_of_pos (by simpa using hkey), ?_, hfield.read⟩
        obtain ⟨name, o⟩ := part
        exact if_pos (hfield.name.symm.trans hkey)
      · have hpart : Entries.find? key (part :: parts) = Entries.find? key parts := by
          obtain ⟨name, o⟩ := part
          exact if_neg fun heq => hkey (hfield.name.trans heq)
        rw [List.find?_cons_of_neg (by simpa using hkey), hpart]
        exact ih

/-- Where a record reader gets behind a member, the strict reader does as well, unless something in
the member is overlooked. -/
theorem member_of_agrees (h : List.Forall₂ FieldAgrees r.fields parts) {key : String}
    {p q : Record.Partial α} {s rest : List Char}
    (hread : r.member depth p key s = .ok (q, rest)) :
    ∃ t, colon s = .ok ((), t) ∧ ((∃ v, value depth t = .ok (v, rest)) ∨
      Overlooks (fun path => (Outline.record parts).passesOver (.key key :: path)) depth t) := by
  rw [Record.member] at hread
  rcases find?_of_fieldAgrees h key with ⟨hfield, hpart⟩ | ⟨field, o, hfield, hpart, hagrees⟩
  · simp only [hfield] at hread
    split at hread
    · cases hread
    · rename_i t hcolon
      obtain ⟨⟨⟨⟩, u⟩, hskip, heq⟩ := map_eq_ok hread
      obtain ⟨rfl, rfl⟩ := Prod.mk.inj heq
      refine ⟨t, hcolon, getsTo_or_overlooks ?_ hskip⟩
      simp only [Outline.passesOver, hpart]
      rfl
  · simp only [hfield] at hread
    split at hread
    · cases hread
    · split at hread
      · cases hread
      · rename_i t hcolon
        obtain ⟨⟨a, u⟩, hvalue, heq⟩ := map_eq_ok hread
        obtain ⟨rfl, rfl⟩ := Prod.mk.inj heq
        refine ⟨t, hcolon, ?_⟩
        simp only [Outline.passesOver, hpart]
        exact hagrees depth p.value hvalue

/-- The strict loop over members keeps up with the one of a record. -/
theorem members_of_agrees (h : List.Forall₂ FieldAgrees r.fields parts) {limit : Nat}
    {first : Bool} {p q : Record.Partial α} {s rest : List Char}
    (hread : Reader.members (r.member depth) limit first p s = .ok (q, rest))
    (done : Entries Json) :
    (∃ ms, Reader.members (memberStep Entries.put depth) limit first done s = .ok (ms, rest)) ∨
      ∃ key t, MemberAt depth first s key t ∧
        Overlooks (fun path => (Outline.record parts).passesOver (.key key :: path)) depth t := by
  induction limit generalizing first p s done with
  | zero => cases hread
  | succ limit ih =>
      rw [Reader.members] at hread ⊢
      split at hread
      · cases hread
      · obtain ⟨rfl, rfl⟩ := Prod.mk.inj (Except.ok.inj hread)
        exact .inl ⟨done, rfl⟩
      · rename_i key t hnext
        split at hread
        · cases hread
        · rename_i next behind hmember
          obtain ⟨u, hcolon, ⟨v, hv⟩ | hover⟩ := member_of_agrees h hmember
          · rw [memberStep_eq_ok done hcolon hv]
            rcases ih hread (Entries.put key v done) with hms | ⟨other, w, hat, hover⟩
            · exact .inl hms
            · exact .inr ⟨other, w, .later hnext hcolon hv hat, hover⟩
          · exact .inr ⟨key, u, .here hnext hcolon, hover⟩

/-- At the end of an array the fields that are left read nothing. -/
theorem ofItems_close {index : Nat} {first : Bool} {a b : α} {s t : List Char}
    (h : r.ofItems depth fields index first a (']' :: s) = .ok (b, t)) : t = ']' :: s := by
  induction fields generalizing index a with
  | nil => exact (Prod.mk.inj (Except.ok.inj h)).2.symm
  | cons field fields ih =>
      have hnext : nextItem first (']' :: s) = .ok (false, ']' :: s) := rfl
      rw [Record.ofItems, hnext] at h
      dsimp only at h
      split at h
      · cases h
      · exact ih h

/-- What is passed over under an item of a record: what is passed over in the field at its place. -/
def itemKind (parts : List (String × Outline)) (i : Nat) (path : Path) : Bool :=
  (Outline.record parts).passesOver (.index i :: path)

theorem skipBlank_of_closeArray {s rest : List Char} (h : closeArray s = (none, rest)) :
    skipBlank s = ']' :: rest := by
  unfold closeArray at h
  split at h
  · rename_i t hs
    rw [hs, (Prod.mk.inj h).2]
  · dsimp only at h
    split at h <;> cases (Prod.mk.inj h).1
  · cases (Prod.mk.inj h).1
  · cases (Prod.mk.inj h).1

/-- The strict loop over items keeps up with the fields of a record. -/
theorem items_of_fields (h : List.Forall₂ FieldAgrees fields parts) {index limit : Nat}
    {first : Bool} {a b : α} {s t rest : List Char}
    (hread : r.ofItems depth fields index first a s = .ok (b, t))
    (hclose : closeArray t = (none, rest)) (hlimit : s.length < limit) (done : List Json) :
    (∃ ws, Reader.items (itemStep Entries.put depth) limit first done s =
        .ok (ws, ']' :: rest)) ∨
      ∃ i u, ItemAt depth first s i u ∧ Overlooks (itemKind parts i) depth u := by
  induction h generalizing index limit first a s done with
  | nil =>
      obtain ⟨limit, rfl⟩ : ∃ n, limit = n + 1 := ⟨limit - 1, by omega⟩
      obtain ⟨-, rfl⟩ := Prod.mk.inj (Except.ok.inj hread)
      have hs := skipBlank_of_closeArray hclose
      have hnext : nextItem first s = .ok (false, ']' :: rest) := by
        rw [nextItem, hs]
        rfl
      rw [Reader.items, hnext]
      exact .inl ⟨done, rfl⟩
  | cons hfield _ ih =>
      obtain ⟨limit, rfl⟩ : ∃ n, limit = n + 1 := ⟨limit - 1, by omega⟩
      rw [Record.ofItems] at hread
      split at hread
      · cases hread
      · rename_i u hnext
        rw [Reader.items, hnext]
        have hle := length_le_of_nextItem hnext
        split at hread
        · cases hread
        · rename_i c v hvalue
          rcases hfield.read depth a hvalue with ⟨w, hw⟩ | hover
          · have hlt := length_lt_of_valueBy hw
            have hshorter : v.length < limit := by omega
            dsimp only
            rw [itemStep_eq_ok done hw]
            rcases ih hread hshorter (w :: done) with hws | ⟨i, x, hat, hover⟩
            · exact .inl hws
            · exact .inr ⟨i + 1, x, .later hnext hw hat, hover⟩
          · exact .inr ⟨0, u, .here hnext, hover⟩
      · rename_i u hnext
        rcases nextItem_eq_ok hnext with ⟨-, _, x, -, rfl, -⟩ | ⟨hmore, -⟩ | ⟨hmore, -⟩
        · split at hread
          · cases hread
          · obtain rfl := ofItems_close hread
            obtain rfl := closeArray_eq_ok hclose
            rw [Reader.items, hnext]
            exact .inl ⟨done, rfl⟩
        · cases hmore
        · cases hmore

theorem value_of_members {s t u rest : List Char} {ms : Entries Json} (hs : skipBlank s = '{' :: t)
    (hloop : Reader.members (memberStep Entries.put depth) (t.length + 1) true [] t = .ok (ms, u))
    (hclose : closeObject u = (none, rest)) : value (depth + 1) s = .ok (.object ms, rest) := by
  rw [value, valueBy_brace hs, bracketed, hloop]
  dsimp only
  rw [hclose]
  rfl

/-- A record that is read, from an object or from an array, is read by the strict reader as well,
unless something is overlooked. -/
theorem Agrees.record (h : List.Forall₂ FieldAgrees r.fields parts) (depth : Nat) :
    Agrees (Outline.record parts).passesOver depth (r.decoder depth) := by
  intro s a rest hread
  rw [Record.decoder] at hread
  split at hread
  · rename_i t hs
    cases depth with
    | zero => cases hread
    | succ depth =>
        obtain ⟨u, hitems, hclose⟩ := bracketed_eq_ok hread
        rcases items_of_fields h hitems hclose (Nat.lt_succ_self _) [] with
          ⟨ws, hws⟩ | ⟨i, v, hat, hover⟩
        · exact .inl ⟨_, value_of_items hs hws (closeArray_cons rest)⟩
        · exact .inr (.item hs hat hover)
  · rename_i t hs
    cases depth with
    | zero => cases hread
    | succ depth =>
        obtain ⟨u, hmembers, hclose⟩ := bracketed_eq_ok hread
        change r.ofMembers depth t = _ at hmembers
        unfold Record.ofMembers at hmembers
        split at hmembers
        · cases hmembers
        · rename_i p v hloop
          have hrest : v = u := by
            unfold Record.finish at hmembers
            split at hmembers
            · cases hmembers
            · exact (Prod.mk.inj (Except.ok.inj hmembers)).2
          subst hrest
          rcases members_of_agrees h hloop [] with ⟨ms, hms⟩ | ⟨key, w, hat, hover⟩
          · exact .inl ⟨_, value_of_members hs hms hclose⟩
          · exact .inr (.member hs hat hover)
  · cases hread

end Records

end ResourceApi.Json
