import Mathlib.Data.List.Nodup
import ResourceApi.Proofs.Json.Decoding

/-!
Records as functions on trees. What a record reader makes of an object or an array is what its
fields make of their members or items. If no known key is repeated, the order of the members does
not matter: each field takes the member with its name, in the order of the fields.
-/

namespace ResourceApi.Json

open Reader

/-- A field of a record together with what it makes of the tree of its value. -/
structure TreeField (α : Type) where
  field : Field α
  change : α → Json → Option α
  reads : ∀ {depth text w}, Written depth text w → ∀ a,
    Reads (field.read depth a) text (change a w)

namespace TreeField

variable {α β : Type}

def name (part : TreeField α) : String := part.field.name

/-- The field makes of every value that is laid out in some way what it makes of its tree. -/
def ReadsFrom (laid : Nat → List Char → Json → Prop) (part : TreeField α) : Prop :=
  ∀ ⦃depth text w⦄, laid depth text w → ∀ a, Reads (part.field.read depth a) text (part.change a w)

/-- What a typed reader takes from a tree is put into the record. -/
theorem reads_set {laid : Nat → List Char → Json → Prop} {decoder : Decoder β}
    {f : Json → Option β} (hf : DecodesFrom laid decoder f) (set : α → β → α) {depth : Nat}
    {text : List Char} {w : Json} (h : laid depth text w) (a : α) :
    Reads (fun s => (decoder depth s).map fun r => (set a r.1, r.2)) text ((f w).map (set a)) := by
  intro lead rest hlead hrest
  rw [map_toOption, hf h lead rest hlead hrest]
  cases f w <;> rfl

/-- A field that must be there. -/
def mandatory (name : String) {decoder : Decoder β} {f : Json → Option β}
    (hf : Decodes decoder f) (set : α → β → α) : TreeField α :=
  ⟨.mandatory name decoder set, fun a w => (f w).map (set a),
    fun h => reads_set hf.fromWritten set h⟩

/-- A field that keeps its default when it is not there. -/
def defaulted (name : String) {decoder : Decoder β} {f : Json → Option β}
    (hf : Decodes decoder f) (set : α → β → α) : TreeField α :=
  ⟨.defaulted name decoder set, fun a w => (f w).map (set a),
    fun h => reads_set hf.fromWritten set h⟩

section Set

variable {name : String} {laid : Nat → List Char → Json → Prop} {decoder : Decoder β}
  {f : Json → Option β} {set : α → β → α}

@[simp]
theorem name_mandatory (hf : Decodes decoder f) : (mandatory name hf set).name = name := rfl

@[simp]
theorem name_defaulted (hf : Decodes decoder f) : (defaulted name hf set).name = name := rfl

theorem mandatory_readsFrom (hwritten : Decodes decoder f) (hf : DecodesFrom laid decoder f) :
    (mandatory name hwritten set).ReadsFrom laid := fun _ _ _ h => reads_set hf set h

theorem defaulted_readsFrom (hwritten : Decodes decoder f) (hf : DecodesFrom laid decoder f) :
    (defaulted name hwritten set).ReadsFrom laid := fun _ _ _ h => reads_set hf set h

end Set

end TreeField

section Records

variable {α : Type}

/-- What a record on its way becomes by one more member. -/
def changeBy (parts : List (TreeField α)) (p : Record.Partial α) (entry : String × Json) :
    Option (Record.Partial α) :=
  match parts.find? fun part => part.name = entry.1 with
  | none => some p
  | some part =>
    if p.seen.contains entry.1 then none
    else (part.change p.value entry.2).map fun a => ⟨a, entry.1 :: p.seen⟩

theorem changeBy_eq (parts : List (TreeField α)) (p : Record.Partial α) (key : String) (w : Json) :
    changeBy parts p (key, w) =
      match parts.find? fun part => part.name = key with
      | none => some p
      | some part =>
        if p.seen.contains key then none
        else (part.change p.value w).map fun a => ⟨a, key :: p.seen⟩ := rfl

/-- The value of a record if all required fields have been there. -/
def complete (parts : List (TreeField α)) (p : Record.Partial α) : Option α :=
  if (parts.find? fun part => part.field.required && !p.seen.contains part.name).isSome then none
  else some p.value

/-- What an object makes of a record. -/
def ofEntries? (parts : List (TreeField α)) (initial : α) (entries : Entries Json) : Option α :=
  (entries.foldlM (changeBy parts) ⟨initial, []⟩).bind (complete parts)

/-- What the items of an array make of a record, one for each field. -/
def ofList? : List (TreeField α) → List Json → α → Option α
  | [], [], a => some a
  | [], _ :: _, _ => none
  | part :: parts, [], a => if part.field.required then none else ofList? parts [] a
  | part :: parts, w :: ws, a => (part.change a w).bind (ofList? parts ws)

/-- What a tree makes of a record. -/
def asRecord? (parts : List (TreeField α)) (initial : α) : Json → Option α
  | .object entries => ofEntries? parts initial entries
  | .array items => ofList? parts items initial
  | _ => none

variable {r : Record α} {parts : List (TreeField α)} {laid : Nat → List Char → Json → Prop}

theorem find?_fields (hfields : r.fields = parts.map TreeField.field) (p : Field α → Bool) :
    r.fields.find? p = (parts.find? fun part => p part.field).map TreeField.field := by
  rw [hfields, List.find?_map]
  rfl

/-! ### Objects -/

theorem readsMember_member (hlaid : Layout laid) (hparts : ∀ part ∈ parts, part.ReadsFrom laid)
    (hfields : r.fields = parts.map TreeField.field) {depth : Nat} {m : Member} (hm : m.Spaced)
    (h : laid depth m.text m.value) (p : Record.Partial α) :
    ReadsMember (r.member depth p m.key) m (changeBy parts p m.entry) := by
  intro rest hrest
  have hfind : (r.fields.find? fun field => field.name = m.key) =
      (parts.find? fun part => part.name = m.key).map TreeField.field := find?_fields hfields _
  rw [Member.entry, changeBy_eq, Record.member, hfind]
  cases hpart : parts.find? fun part => part.name = m.key with
  | none =>
      simp only [Option.map_none, colon_append hm.beforeColon, map_toOption,
        hlaid.skipped h m.beforeValue rest hm.beforeValue hrest]
      rfl
  | some part =>
      have hreads := hparts part (List.mem_of_find?_eq_some hpart)
      simp only [Option.map_some]
      by_cases hseen : p.seen.contains m.key = true
      · rw [if_pos hseen, if_pos hseen]
        rfl
      · rw [if_neg hseen, if_neg hseen]
        simp only [colon_append hm.beforeColon, map_toOption,
          hreads h p.value m.beforeValue rest hm.beforeValue hrest]
        cases part.change p.value m.value <;> rfl

theorem finish_toOption (hfields : r.fields = parts.map TreeField.field) (p : Record.Partial α)
    (s : List Char) : (r.finish p s).toOption = (complete parts p).map fun a => (a, s) := by
  have hfind : (r.fields.find? fun field => field.required && !p.seen.contains field.name) =
      (parts.find? fun part => part.field.required && !p.seen.contains part.name).map
        TreeField.field := find?_fields hfields _
  rw [Record.finish, hfind, complete]
  cases parts.find? fun part => part.field.required && !p.seen.contains part.name <;> rfl

theorem ofMembers_toOption (hlaid : Layout laid) (hparts : ∀ part ∈ parts, part.ReadsFrom laid)
    (hfields : r.fields = parts.map TreeField.field) {depth : Nat} {b : List Char}
    {members : List Member} (hb : Blank b) (hspaced : ∀ m ∈ members, m.Spaced)
    (h : ∀ m ∈ members, laid depth m.text m.value) (rest : List Char) :
    (r.ofMembers depth (listed '}' b (members.map Member.chars) ++ rest)).toOption =
      (ofEntries? parts r.initial (members.map Member.entry)).map fun a => (a, '}' :: rest) := by
  have hloop := members_remaining hspaced
    (fun m hm p => readsMember_member hlaid hparts hfields (hspaced m hm) (h m hm) p) hb rest true
    (length_lt_listed '}' b members Member.chars rest) ⟨r.initial, []⟩
  simp only [remaining] at hloop
  rw [ofEntries?, List.foldlM_map, Record.ofMembers]
  cases hread : Reader.members (r.member depth)
      ((listed '}' b (members.map Member.chars) ++ rest).length + 1) true ⟨r.initial, []⟩
      (listed '}' b (members.map Member.chars) ++ rest) with
  | error e =>
      rw [eq_none_of_toOption hloop hread]
      rfl
  | ok result =>
      obtain ⟨p, hp, rfl⟩ := eq_some_of_toOption hloop hread
      rw [hp]
      exact finish_toOption hfields p _

/-! ### Arrays -/

/-- What is read between brackets if the closing one follows. -/
def closed? (result : Except Failure (α × List Char)) : Option (α × List Char) :=
  match result with
  | .ok (a, s) => if (closeArray s).1.isNone then some (a, (closeArray s).2) else none
  | .error _ => none

theorem bracketed_closeArray_toOption (inside : Reader α) (s : List Char) :
    (bracketed closeArray inside s).toOption = closed? (inside s) := by
  unfold bracketed closed?
  cases inside s with
  | error e => rfl
  | ok r =>
      dsimp only
      rcases closeArray r.2 with ⟨_ | f, rest⟩ <;> rfl

theorem closeArray_blank {b : List Char} (hb : Blank b) (s : List Char) :
    closeArray (b ++ ']' :: s) = (none, s) := by
  rw [closeArray, skipBlank_append hb, skipBlank_cons (by decide)]
  rfl

theorem closeArray_comma {b : List Char} (hb : Blank b) (s : List Char) :
    (closeArray (b ++ ',' :: s)).1.isNone = false := by
  rw [closeArray, skipBlank_append hb, skipBlank_cons (by decide)]
  split
  · rename_i heq
    exact absurd (List.cons.inj heq).1 (by decide)
  · dsimp only
    split <;> rfl
  · rfl
  · rfl

theorem closeArray_opens {b : List Char} (hb : Blank b) {c : Char} (hc : Opens c)
    (s : List Char) : (closeArray (b ++ c :: s)).1.isNone = false := by
  rw [closeArray, skipBlank_append hb, skipBlank_cons hc.not_blank]
  split
  · rename_i heq
    exact absurd (List.cons.inj heq).1 hc.ne_close
  · rename_i heq
    exact absurd (List.cons.inj heq).1 hc.ne_comma
  · rfl
  · rfl

theorem closed?_remaining_nil {b : List Char} (hb : Blank b) (first : Bool) (rest : List Char)
    (a : α) : closed? (.ok (a, remaining first ']' b [] ++ rest)) = some (a, rest) := by
  have hclose : remaining first ']' b [] ++ rest = b ++ ']' :: rest := by
    cases first <;> simp [remaining, listed, followed]
  rw [closed?, hclose, closeArray_blank hb]
  rfl

theorem closed?_remaining_cons {b : List Char} (hb : Blank b) {i : Item} (hi : i.Spaced)
    (hopens : ∃ c t, i.text = c :: t ∧ Opens c) (first : Bool) (parts : List (List Char))
    (rest : List Char) (a : α) :
    closed? (.ok (a, remaining first ']' b (i.chars :: parts) ++ rest)) = none := by
  have hclose : (closeArray (remaining first ']' b (i.chars :: parts) ++ rest)).1.isNone =
      false := by
    cases first with
    | false =>
        simp only [remaining, followed, List.append_assoc, List.cons_append]
        exact closeArray_comma hb _
    | true =>
        obtain ⟨c, t, ht, hc⟩ := hopens
        simp only [remaining, listed, Item.chars, ht, List.append_assoc, List.cons_append]
        exact closeArray_opens hi.before hc _
  rw [closed?, hclose]
  rfl

/-- Fields are read from items, one for each, and then the array must end. -/
theorem ofItems_toOption (hlaid : Layout laid) (hparts : ∀ part ∈ parts, part.ReadsFrom laid)
    {depth : Nat} {items : List Item} (hspaced : ∀ i ∈ items, i.Spaced)
    (h : ∀ i ∈ items, laid depth i.text i.value) {b : List Char} (hb : Blank b)
    (rest : List Char) (index : Nat) (first : Bool) (a : α) :
    closed? (r.ofItems depth (parts.map TreeField.field) index first a
      (remaining first ']' b (items.map Item.chars) ++ rest)) =
      (ofList? parts (items.map Item.value) a).map fun a => (a, rest) := by
  induction parts generalizing items b index first a with
  | nil =>
      cases items with
      | nil => exact closed?_remaining_nil hb first rest a
      | cons i items =>
          exact closed?_remaining_cons hb (hspaced i List.mem_cons_self)
            (hlaid.layer (h i List.mem_cons_self)).opens first _ rest a
  | cons part parts ih =>
      obtain ⟨hpart, hparts⟩ := List.forall_mem_cons.mp hparts
      cases items with
      | nil =>
          simp only [List.map_cons, List.map_nil, Record.ofItems, nextItem_remaining_nil hb,
            ofList?]
          by_cases hrequired : part.field.required = true
          · rw [if_pos hrequired, if_pos hrequired]
            rfl
          · rw [if_neg hrequired, if_neg hrequired]
            have hclose : ']' :: rest = remaining first ']' [] [] ++ rest := by
              cases first <;> rfl
            rw [hclose]
            have hnone : ∀ i ∈ ([] : List Item), i.Spaced := by simp
            exact ih hparts hnone (by simp) (by simp [Blank]) (index + 1) first a
      | cons i items =>
          obtain ⟨hi, hspaced⟩ := List.forall_mem_cons.mp hspaced
          obtain ⟨hitem, h⟩ := List.forall_mem_cons.mp h
          have hopens := (hlaid.layer hitem).opens
          have hread := hpart hitem a []
            (i.after ++ (followed ']' (items.map Item.chars) ++ rest)) (by simp [Blank])
            (stops_blank hi.after (stops_followed (by decide) _ _))
          rw [List.nil_append] at hread
          simp only [List.map_cons, Record.ofItems, nextItem_remaining_cons hb hi hopens,
            ofList?]
          cases hr : part.field.read depth a
              (i.text ++ (i.after ++ (followed ']' (items.map Item.chars) ++ rest))) with
          | error e =>
              rw [eq_none_of_toOption hread hr]
              rfl
          | ok result =>
              obtain ⟨next, hnext, rfl⟩ := eq_some_of_toOption hread hr
              rw [hnext, ← List.append_assoc]
              exact ih hparts hspaced h hi.after (index + 1) false next

theorem DecodesFrom.record (hlaid : Layout laid) (hparts : ∀ part ∈ parts, part.ReadsFrom laid)
    (hfields : r.fields = parts.map TreeField.field) :
    DecodesFrom laid r.decoder (asRecord? parts r.initial) := by
  intro depth text w h lead rest hlead hrest
  have hlayer := hlaid.layer h
  obtain ⟨c, t, rfl, hc⟩ := hlayer.opens
  rw [Record.decoder, skipBlank_append hlead, List.cons_append, skipBlank_cons hc.not_blank]
  split
  · rename_i heq
    obtain ⟨rfl, rfl⟩ := List.cons.inj heq
    obtain ⟨ws, rfl⟩ := hlayer.starts.bracket rfl
    cases hlayer with
    | @array depth blank items hblank hspaced hitems =>
        have hitems := ofItems_toOption (r := r) hlaid hparts hspaced hitems hblank rest 0 true
          r.initial
        rw [← hfields] at hitems
        exact (bracketed_closeArray_toOption _ _).trans hitems
  · rename_i heq
    obtain ⟨rfl, rfl⟩ := List.cons.inj heq
    obtain ⟨ws, rfl⟩ := hlayer.starts.brace rfl
    cases hlayer with
    | @object depth blank members hblank hspaced hmembers =>
        exact bracketed_toOption
          (ofMembers_toOption hlaid hparts hfields hblank hspaced hmembers rest)
          (closeObject_cons rest)
  · rename_i harray hobject
    cases w with
    | array ws =>
        cases hlayer
        exact absurd rfl (harray _)
    | object ms =>
        cases hlayer
        exact absurd rfl (hobject _)
    | null | bool | string | number => rfl

theorem Decodes.record (hfields : r.fields = parts.map TreeField.field) :
    Decodes r.decoder (asRecord? parts r.initial) :=
  fun h => DecodesFrom.record layout_written (fun part _ _ _ _ hw => part.reads hw) hfields h

/-- A record is read from a document as it is taken from the tree that is written there. -/
theorem Record.parse_toOption {f : Json → Option α} (hf : Decodes r.decoder f) {text : String}
    {w : Json} (h : IsDocument text w) : (r.parse text).toOption = f w := by
  obtain ⟨lead, value, trail, htext, hlead, htrail, hw⟩ := h
  exact run_toOption htext hlead htrail (hf hw)

/-! ### The order of members -/

/-- What a record becomes by a field whose member is looked up, unless it has been seen before. -/
def take (seen : List String) (entries : Entries Json) (a : α) (part : TreeField α) : Option α :=
  if part.name ∈ seen then some a
  else match entries.find? part.name with
    | some w => part.change a w
    | none => if part.field.required then none else some a

/-- Two fields may be read in any order. -/
def AnyOrder (p q : TreeField α) : Prop :=
  ∀ a v w, ((p.change a v).bind fun a => q.change a w) = (q.change a w).bind fun a => p.change a v

/-- A change that commutes with every step may be made first. -/
theorem foldlM_anyOrder {β : Type} {g : α → β → Option α} {h : α → Option α} {l : List β}
    (hcomm : ∀ b ∈ l, ∀ a, (g a b).bind h = (h a).bind fun a => g a b) (a : α) :
    (l.foldlM g a).bind h = (h a).bind fun a => l.foldlM g a := by
  induction l generalizing a with
  | nil => simp only [List.foldlM_nil, Option.pure_def, Option.bind_some, Option.bind_fun_some]
  | cons b l ih =>
      obtain ⟨hb, hl⟩ := List.forall_mem_cons.mp hcomm
      calc ((b :: l).foldlM g a).bind h
          = (g a b).bind fun a => (l.foldlM g a).bind h := by
            rw [List.foldlM_cons]
            exact Option.bind_assoc _ _ _
        _ = (g a b).bind fun a => (h a).bind fun a => l.foldlM g a := by
            apply congrArg
            funext a
            exact ih hl a
        _ = ((h a).bind fun a => g a b).bind fun a => l.foldlM g a := by
            rw [← Option.bind_assoc, hb a]
        _ = (h a).bind fun a => (b :: l).foldlM g a := by
            rw [Option.bind_assoc]
            rfl

theorem take_anyOrder {p q : TreeField α} (h : AnyOrder p q) (seen : List String)
    (entries : Entries Json) (w : Json) (a : α) :
    ((take seen entries a p).bind fun a => q.change a w) =
      (q.change a w).bind fun a => take seen entries a p := by
  unfold take
  by_cases hseen : p.name ∈ seen
  · simp only [hseen, if_true, Option.bind_some, Option.bind_fun_some]
  · simp only [hseen, if_false]
    cases entries.find? p.name with
    | some v => exact h a v w
    | none =>
        by_cases hrequired : p.field.required = true
        · simp [hrequired]
        · simp [hrequired]

theorem foldlM_take_nil (parts : List (TreeField α)) (p : Record.Partial α) :
    complete parts p = parts.foldlM (take p.seen []) p.value := by
  unfold complete
  generalize p.value = a
  induction parts with
  | nil => rfl
  | cons part parts ih =>
      rw [List.foldlM_cons, take]
      by_cases hseen : part.name ∈ p.seen
      · simpa [List.find?_cons, hseen] using ih
      · by_cases hrequired : part.field.required = true
        · simp [hseen, hrequired, Entries.find?]
        · simpa [List.find?_cons, hseen, hrequired, Entries.find?] using ih

/-- Fields with different names, which may be read in any order. -/
structure Unordered (parts : List (TreeField α)) : Prop where
  nodup : (parts.map TreeField.name).Nodup
  anyOrder : parts.Pairwise AnyOrder

/-- Each known key stands in the members at most once, counting those that have been seen. -/
def Once (parts : List (TreeField α)) (keys : List String) : Prop :=
  ∀ part ∈ parts, keys.count part.name ≤ 1

theorem foldlM_congr {β : Type} {g h : α → β → Option α} {l : List β}
    (heq : ∀ b ∈ l, ∀ a, g a b = h a b) (a : α) : l.foldlM g a = l.foldlM h a := by
  induction l generalizing a with
  | nil => rfl
  | cons b l ih =>
      obtain ⟨hb, hl⟩ := List.forall_mem_cons.mp heq
      rw [List.foldlM_cons, List.foldlM_cons, hb a]
      apply congrArg
      funext a
      exact ih hl a

section Order

variable {entries : Entries Json} {seen : List String} {key : String} {w : Json}

theorem take_of_ne {part : TreeField α} (h : part.name ≠ key) (a : α) :
    take seen ((key, w) :: entries) a part = take seen entries a part := by
  rw [take, take, Entries.find?, if_neg (Ne.symm h)]

theorem take_seen_of_ne {part : TreeField α} (h : part.name ≠ key) (a : α) :
    take (key :: seen) entries a part = take seen entries a part := by
  simp only [take, List.mem_cons, h, false_or]

/-- A field that is taken next may be taken first. -/
theorem foldlM_take_cons {l₁ l₂ : List (TreeField α)} {q : TreeField α} (hq : q.name = key)
    (hfresh : key ∉ seen) (h₁ : ∀ part ∈ l₁, part.name ≠ key ∧ AnyOrder part q)
    (h₂ : ∀ part ∈ l₂, part.name ≠ key) (a : α) :
    ((l₁ ++ q :: l₂).foldlM (take seen ((key, w) :: entries)) a) =
      (q.change a w).bind fun a => (l₁ ++ q :: l₂).foldlM (take (key :: seen) entries) a := by
  have hfirst : ∀ a, l₁.foldlM (take seen ((key, w) :: entries)) a =
      l₁.foldlM (take seen entries) a :=
    foldlM_congr fun part hpart a => take_of_ne (h₁ part hpart).1 a
  have hsecond : ∀ a, l₂.foldlM (take seen ((key, w) :: entries)) a =
      l₂.foldlM (take (key :: seen) entries) a :=
    foldlM_congr fun part hpart a => by
      rw [take_of_ne (h₂ part hpart), take_seen_of_ne (h₂ part hpart)]
  have hseen : ∀ a, l₁.foldlM (take (key :: seen) entries) a = l₁.foldlM (take seen entries) a :=
    foldlM_congr fun part hpart a => take_seen_of_ne (h₁ part hpart).1 a
  have htake : ∀ a, take seen ((key, w) :: entries) a q = q.change a w := by
    intro a
    rw [take, hq, if_neg hfresh, Entries.find?, if_pos rfl]
  have hskip : ∀ a, take (key :: seen) entries a q = some a := by
    intro a
    rw [take, hq, if_pos List.mem_cons_self]
  have hcomm := foldlM_anyOrder (g := take seen entries) (h := fun a => q.change a w)
    fun part hpart a => take_anyOrder (h₁ part hpart).2 seen entries w a
  calc (l₁ ++ q :: l₂).foldlM (take seen ((key, w) :: entries)) a
      = ((l₁.foldlM (take seen entries) a).bind fun a => q.change a w).bind
          fun a => l₂.foldlM (take (key :: seen) entries) a := by
        simp only [List.foldlM_append, List.foldlM_cons, hfirst, htake, hsecond,
          Option.bind_eq_bind, Option.bind_assoc]
    _ = ((q.change a w).bind fun a => l₁.foldlM (take seen entries) a).bind
          fun a => l₂.foldlM (take (key :: seen) entries) a := by rw [hcomm a]
    _ = (q.change a w).bind fun a => (l₁ ++ q :: l₂).foldlM (take (key :: seen) entries) a := by
        simp only [List.foldlM_append, List.foldlM_cons, hseen, hskip, Option.bind_eq_bind,
          Option.bind_assoc, Option.bind_some]

end Order

namespace Once

variable {entries : Entries Json} {seen : List String} {key : String} {w : Json}

theorem tail (h : Once parts (seen ++ Entries.keys ((key, w) :: entries))) :
    Once parts (seen ++ entries.keys) := by
  intro part hpart
  have := h part hpart
  simp only [Entries.keys, List.map_cons, List.count_append, List.count_cons] at this ⊢
  omega

/-- A key may be counted as seen as soon as it is read. -/
theorem see (h : Once parts (seen ++ Entries.keys ((key, w) :: entries))) :
    Once parts (key :: seen ++ entries.keys) := by
  intro part hpart
  have := h part hpart
  simp only [Entries.keys, List.map_cons, List.count_append, List.count_cons,
    List.cons_append] at this ⊢
  omega

/-- A known key that comes next has not been seen. -/
theorem fresh {part : TreeField α} (hpart : part ∈ parts) (hname : part.name = key)
    (h : Once parts (seen ++ Entries.keys ((key, w) :: entries))) : key ∉ seen := by
  intro hmem
  have hcount := h part hpart
  have hpos := List.count_pos_iff.mpr hmem
  simp only [Entries.keys, List.map_cons, List.count_append, List.count_cons, hname,
    beq_self_eq_true, if_true] at hcount
  omega

end Once

/-- Around a field of an unordered record stand only fields with other names, and those in front of
it may be read behind it. -/
theorem Unordered.around {l₁ l₂ : List (TreeField α)} {q : TreeField α}
    (h : Unordered (l₁ ++ q :: l₂)) :
    (∀ part ∈ l₁, part.name ≠ q.name ∧ AnyOrder part q) ∧ ∀ part ∈ l₂, part.name ≠ q.name := by
  have hne : ∀ part ∈ l₁ ++ l₂, part.name ≠ q.name := by
    have hnodup := h.nodup
    rw [List.map_append, List.map_cons, List.nodup_middle, List.nodup_cons] at hnodup
    intro part hmem heq
    apply hnodup.1
    rw [← heq, ← List.map_append]
    exact List.mem_map_of_mem hmem
  obtain ⟨-, -, hacross⟩ := List.pairwise_append.mp h.anyOrder
  constructor
  · intro part hmem
    exact ⟨hne part (List.mem_append_left _ hmem), hacross part hmem q List.mem_cons_self⟩
  · intro part hmem
    exact hne part (List.mem_append_right _ hmem)

/-- Members are taken in the order of the fields. -/
theorem foldlM_changeBy (horder : Unordered parts) (entries : Entries Json)
    (p : Record.Partial α) (honce : Once parts (p.seen ++ entries.keys)) :
    (entries.foldlM (changeBy parts) p).bind (complete parts) =
      parts.foldlM (take p.seen entries) p.value := by
  induction entries generalizing p with
  | nil => exact foldlM_take_nil parts p
  | cons entry entries ih =>
      obtain ⟨key, w⟩ := entry
      rw [List.foldlM_cons, changeBy_eq]
      cases hpart : parts.find? fun part => part.name = key with
      | none =>
          have hne : ∀ part ∈ parts, part.name ≠ key := by
            simpa using hpart
          change (List.foldlM (changeBy parts) p entries).bind (complete parts) = _
          rw [ih p honce.tail]
          exact foldlM_congr (fun part hmem a => (take_of_ne (hne part hmem) a).symm) _
      | some q =>
          obtain rfl : q.name = key := by simpa using List.find?_some hpart
          have hmem := List.mem_of_find?_eq_some hpart
          have hfresh := honce.fresh hmem rfl
          obtain ⟨l₁, l₂, rfl⟩ := List.append_of_mem hmem
          -- The member comes first, but its field comes behind those in `l₁`.
          rw [foldlM_take_cons rfl hfresh horder.around.1 horder.around.2]
          simp only [List.contains_eq_mem, hfresh, decide_false, Bool.false_eq_true, if_false]
          cases hchange : q.change p.value w with
          | none => rfl
          | some a => exact ih ⟨a, q.name :: p.seen⟩ honce.see

/-- A known key that is repeated is a failure, wherever its members stand. -/
theorem foldlM_changeBy_eq_none {part : TreeField α} (hpart : part ∈ parts) (entries : Entries Json)
    (p : Record.Partial α) (hseen : Once parts p.seen)
    (htwice : 1 < (p.seen ++ entries.keys).count part.name) :
    entries.foldlM (changeBy parts) p = none := by
  induction entries generalizing p with
  | nil =>
      have := hseen part hpart
      simp only [Entries.keys, List.map_nil, List.append_nil] at htwice
      omega
  | cons entry entries ih =>
      obtain ⟨key, w⟩ := entry
      rw [List.foldlM_cons, changeBy_eq]
      cases hfind : parts.find? fun part => part.name = key with
      | none =>
          have hne : key ≠ part.name := by
            intro heq
            have := List.find?_eq_none.mp hfind part hpart
            simp [heq] at this
          apply ih p hseen
          simp only [Entries.keys, List.map_cons, List.count_append, List.count_cons] at htwice ⊢
          simpa [hne] using htwice
      | some q =>
          by_cases hfresh : key ∈ p.seen
          · simp only [List.contains_eq_mem, hfresh, decide_true, if_true]
            rfl
          · simp only [List.contains_eq_mem, hfresh, decide_false, Bool.false_eq_true, if_false]
            cases hchange : q.change p.value w with
            | none => rfl
            | some a =>
                apply ih ⟨a, key :: p.seen⟩
                · intro other hother
                  have := hseen other hother
                  rw [List.count_cons]
                  split
                  · rename_i heq
                    have hzero := List.count_eq_zero_of_not_mem (beq_iff_eq.mp heq ▸ hfresh)
                    omega
                  · exact this
                · simp only [Entries.keys, List.map_cons, List.count_append, List.count_cons,
                    List.cons_append] at htwice ⊢
                  omega

/-- A record read from an object: no known key may be repeated, and each field takes the member with
its name, in the order of the fields. -/
theorem ofEntries?_eq_some (horder : Unordered parts) {initial a : α} {entries : Entries Json} :
    ofEntries? parts initial entries = some a ↔
      Once parts entries.keys ∧ parts.foldlM (take [] entries) initial = some a := by
  by_cases honce : Once parts entries.keys
  · rw [ofEntries?, foldlM_changeBy horder entries ⟨initial, []⟩ honce]
    exact ⟨fun h => ⟨honce, h⟩, And.right⟩
  · have hnone : ofEntries? parts initial entries = none := by
      simp only [Once, not_forall, Nat.not_le] at honce
      obtain ⟨part, hpart, htwice⟩ := honce
      have hseen : Once parts ([] : List String) := fun _ _ => by simp
      rw [ofEntries?, foldlM_changeBy_eq_none hpart entries ⟨initial, []⟩ hseen htwice]
      rfl
    rw [hnone]
    constructor
    · intro h
      cases h
    · intro h
      exact absurd h.1 honce

/-- A record is not read from an object that repeats one of its keys. -/
theorem not_repeatsKey_of_asRecord? (horder : Unordered parts) {initial a : α} {w : Json}
    (h : asRecord? parts initial w = some a) : ¬ RepeatsKey (parts.map TreeField.name) w := by
  rintro ⟨key, hkey, htwice⟩
  obtain ⟨part, hpart, rfl⟩ := List.mem_map.mp hkey
  cases w with
  | object entries =>
      have honce := ((ofEntries?_eq_some horder).mp h).1 part hpart
      rw [countKey] at htwice
      omega
  | null | bool | number | string | array => cases htwice

/-- From an object that repeats no key, each field takes the member with its name. -/
theorem asRecord?_object (horder : Unordered parts) {initial a : α} {entries : Entries Json}
    (hkeys : ¬ RepeatsKey (parts.map TreeField.name) (.object entries)) :
    asRecord? parts initial (.object entries) = some a ↔
      parts.foldlM (take [] entries) initial = some a := by
  have honce : Once parts entries.keys := fun part hpart =>
    count_le_one_of_not_repeatsKey hkeys (List.mem_map_of_mem hpart)
  exact (ofEntries?_eq_some horder).trans ⟨And.right, fun h => ⟨honce, h⟩⟩

/-! ### Fields that are taken one after another -/

section Fields

variable {β γ : Type} {decoder : Decoder β} {f : Json → Option β} {entries : Entries Json}

section Setters

variable {other : Decoder γ} {g : Json → Option γ} {first : α → β → α} {second : α → γ → α}
  {name key : String}

/-- Fields that are put into different places of a record may be read in any order. -/
theorem anyOrder_of_set {p q : TreeField α} (hp : ∀ a w, p.change a w = (f w).map (first a))
    (hq : ∀ a w, q.change a w = (g w).map (second a))
    (hset : ∀ a b c, second (first a b) c = first (second a c) b) : AnyOrder p q := by
  intro a v w
  simp only [hp, hq]
  cases f v with
  | none => cases g w <;> rfl
  | some b =>
      cases g w with
      | none => rfl
      | some c => exact congrArg some (hset a b c)

@[simp]
theorem anyOrder_mandatory (hf : Decodes decoder f) (hg : Decodes other g)
    (hset : ∀ a b c, second (first a b) c = first (second a c) b) :
    AnyOrder (.mandatory name hf first) (.mandatory key hg second) :=
  anyOrder_of_set (fun _ _ => rfl) (fun _ _ => rfl) hset

@[simp]
theorem anyOrder_defaulted (hf : Decodes decoder f) (hg : Decodes other g)
    (hset : ∀ a b c, second (first a b) c = first (second a c) b) :
    AnyOrder (.mandatory name hf first) (.defaulted key hg second) :=
  anyOrder_of_set (fun _ _ => rfl) (fun _ _ => rfl) hset

end Setters

variable {name : String} {set : α → β → α} {w : Json} {b : β}

theorem foldlM_take_present (part : TreeField α) (h : entries.find? part.name = some w) {a next : α}
    (hchange : part.change a w = some next) :
    (part :: parts).foldlM (take [] entries) a = parts.foldlM (take [] entries) next := by
  rw [List.foldlM_cons, take, if_neg (by simp), h]
  dsimp only
  rw [hchange]
  rfl

theorem foldlM_take_mandatory (hf : Decodes decoder f) (h : entries.find? name = some w)
    (hb : f w = some b) (a : α) :
    (TreeField.mandatory name hf set :: parts).foldlM (take [] entries) a =
      parts.foldlM (take [] entries) (set a b) :=
  foldlM_take_present (.mandatory name hf set) h (congrArg (Option.map (set a)) hb)

theorem foldlM_take_defaulted (hf : Decodes decoder f) (h : entries.find? name = some w)
    (hb : f w = some b) (a : α) :
    (TreeField.defaulted name hf set :: parts).foldlM (take [] entries) a =
      parts.foldlM (take [] entries) (set a b) :=
  foldlM_take_present (.defaulted name hf set) h (congrArg (Option.map (set a)) hb)

theorem foldlM_take_absent (hf : Decodes decoder f) (h : entries.find? name = none) (a : α) :
    (TreeField.defaulted name hf set :: parts).foldlM (take [] entries) a =
      parts.foldlM (take [] entries) a := by
  have htake : take [] entries a (TreeField.defaulted name hf set) = some a := by
    rw [take, if_neg (by simp)]
    change (match entries.find? name with | some w => (f w).map (set a) | none => some a) = _
    rw [h]
  rw [List.foldlM_cons, htake]
  rfl

/-- Each member that is taken is one that its field can read. -/
theorem change_of_foldlM_take {part : TreeField α} (hpart : part ∈ parts)
    (hw : entries.find? part.name = some w) {a result : α}
    (h : parts.foldlM (take [] entries) a = some result) :
    ∃ before after, part.change before w = some after := by
  induction parts generalizing a with
  | nil => cases hpart
  | cons first parts ih =>
      rw [List.foldlM_cons] at h
      obtain ⟨next, hnext, h⟩ := Option.bind_eq_some_iff.mp h
      rcases List.mem_cons.mp hpart with rfl | hpart
      · rw [take, if_neg (by simp), hw] at hnext
        exact ⟨a, next, hnext⟩
      · exact ih hpart h

end Fields

end Records

end ResourceApi.Json
