import ResourceApi.Json.Reader
import ResourceApi.Proofs.Dictionaries

/-!
JSON values in which every member stands, and what is left of them when the members of each object
are collected: of a repeated key the first place and the last value.
-/

namespace ResourceApi

namespace Json

open Reader (Collect)

/-- Induction on values, with the parts of arrays and objects as members of lists. -/
@[elab_as_elim]
theorem inductionOn {motive : Json → Prop} (v : Json) (null : motive .null)
    (bool : ∀ b, motive (.bool b)) (number : ∀ n, motive (.number n))
    (string : ∀ s, motive (.string s))
    (array : ∀ items, (∀ v ∈ items, motive v) → motive (.array items))
    (object : ∀ members : Entries Json, (∀ entry ∈ members, motive entry.2) →
      motive (.object members)) : motive v :=
  @Json.rec motive (fun items => ∀ v ∈ items, motive v)
    (fun members => ∀ entry ∈ members, motive entry.2) (fun entry => motive entry.2)
    null bool number string array object (by simp)
    (fun _ _ hv hvs => List.forall_mem_cons.mpr ⟨hv, hvs⟩) (by simp)
    (fun _ _ hv hvs => List.forall_mem_cons.mpr ⟨hv, hvs⟩) (fun _ _ hv => hv) v

mutual

/-- Whether two values are the same, members in the same order. -/
def decEq : (v w : Json) → Decidable (v = w)
  | .null, .null => .isTrue rfl
  | .bool a, .bool b => decidable_of_iff (a = b) (by simp)
  | .number m, .number n => decidable_of_iff (m = n) (by simp)
  | .string s, .string t => decidable_of_iff (s = t) (by simp)
  | .array vs, .array ws =>
    match decEqItems vs ws with
    | .isTrue h => .isTrue (congrArg array h)
    | .isFalse h => .isFalse fun heq => h (array.inj heq)
  | .object ms, .object ns =>
    match decEqMembers ms ns with
    | .isTrue h => .isTrue (congrArg object h)
    | .isFalse h => .isFalse fun heq => h (object.inj heq)
  | .null, .bool _ | .null, .number _ | .null, .string _ | .null, .array _ | .null, .object _ |
    .bool _, .null | .bool _, .number _ | .bool _, .string _ | .bool _, .array _ |
    .bool _, .object _ | .number _, .null | .number _, .bool _ | .number _, .string _ |
    .number _, .array _ | .number _, .object _ | .string _, .null | .string _, .bool _ |
    .string _, .number _ | .string _, .array _ | .string _, .object _ | .array _, .null |
    .array _, .bool _ | .array _, .number _ | .array _, .string _ | .array _, .object _ |
    .object _, .null | .object _, .bool _ | .object _, .number _ | .object _, .string _ |
    .object _, .array _ => .isFalse nofun

def decEqItems : (vs ws : List Json) → Decidable (vs = ws)
  | [], [] => .isTrue rfl
  | v :: vs, w :: ws =>
    match decEq v w, decEqItems vs ws with
    | .isTrue h, .isTrue hs => .isTrue (by rw [h, hs])
    | .isFalse h, _ => .isFalse fun heq => h (List.cons.inj heq).1
    | _, .isFalse hs => .isFalse fun heq => hs (List.cons.inj heq).2
  | [], _ :: _ | _ :: _, [] => .isFalse nofun

def decEqMembers : (ms ns : Entries Json) → Decidable (ms = ns)
  | [], [] => .isTrue rfl
  | m :: ms, n :: ns =>
    match decEqMember m n, decEqMembers ms ns with
    | .isTrue h, .isTrue hs => .isTrue (by rw [h, hs])
    | .isFalse h, _ => .isFalse fun heq => h (List.cons.inj heq).1
    | _, .isFalse hs => .isFalse fun heq => hs (List.cons.inj heq).2
  | [], _ :: _ | _ :: _, [] => .isFalse nofun

def decEqMember : (m n : String × Json) → Decidable (m = n)
  | (k, v), (l, w) =>
    match decEq v w with
    | .isTrue h => decidable_of_iff (k = l) (by simp [h])
    | .isFalse h => .isFalse fun heq => h (Prod.mk.inj heq).2

end

instance : DecidableEq Json := decEq

mutual

/-- The value with the members of each object collected from the first to the last. -/
def gathered (collect : Collect) : Json → Json
  | .array items => .array (gatheredItems collect items)
  | .object members => .object (gatheredMembers collect [] members)
  | v => v

def gatheredItems (collect : Collect) : List Json → List Json
  | [] => []
  | v :: vs => gathered collect v :: gatheredItems collect vs

def gatheredMembers (collect : Collect) (done : Entries Json) : Entries Json → Entries Json
  | [] => done
  | entry :: entries => gatheredMembers collect (gatheredMember collect done entry) entries

def gatheredMember (collect : Collect) (done : Entries Json) : String × Json → Entries Json
  | (key, v) => collect key (gathered collect v) done

end

section Gather

variable {collect : Collect}

theorem gatheredItems_eq_map (items : List Json) :
    gatheredItems collect items = items.map (gathered collect) := by
  induction items with
  | nil => rfl
  | cons v vs ih => rw [gatheredItems, ih, List.map_cons]

theorem gatheredMembers_eq_foldl (members done : Entries Json) :
    gatheredMembers collect done members =
      members.foldl (fun done entry => collect entry.1 (gathered collect entry.2) done) done := by
  induction members generalizing done with
  | nil => rfl
  | cons entry entries ih => rw [gatheredMembers, ih, gatheredMember, List.foldl_cons]

theorem gathered_array (items : List Json) :
    gathered collect (.array items) = .array (items.map (gathered collect)) := by
  rw [gathered, gatheredItems_eq_map]

theorem gathered_object (members : Entries Json) :
    gathered collect (.object members) = .object
      (members.foldl (fun done entry => collect entry.1 (gathered collect entry.2) done) []) := by
  rw [gathered, gatheredMembers_eq_foldl]

end Gather

/-- Collecting members one behind the other changes nothing. -/
theorem gathered_append (w : Json) :
    gathered (fun key value done => done ++ [(key, value)]) w = w := by
  induction w using inductionOn with
  | null => rfl
  | bool => rfl
  | number => rfl
  | string => rfl
  | array items ih =>
      rw [gathered_array, List.map_congr_left ih, List.map_id']
  | object members ih =>
      have hfold : ∀ done : Entries Json,
          members.foldl (fun done entry => done ++ [(entry.1,
            gathered (fun key value done => done ++ [(key, value)]) entry.2)]) done =
            done ++ members := by
        induction members with
        | nil => simp
        | cons entry members ihmembers =>
            obtain ⟨hentry, hrest⟩ := List.forall_mem_cons.mp ih
            intro done
            rw [List.foldl_cons, hentry, ihmembers hrest, List.append_assoc]
            rfl
      rw [gathered_object, hfold, List.nil_append]

/-- The value in which a repeated key keeps its first place and takes its last value. -/
def lastWins (w : Json) : Json := gathered Entries.put w

theorem lastWins_array (items : List Json) :
    lastWins (.array items) = .array (items.map lastWins) :=
  gathered_array items

/-- The last values of the members of an object. -/
def lastMembers (members : Entries Json) : Entries Json :=
  Entries.putAll [] (members.map fun entry => (entry.1, lastWins entry.2))

theorem lastWins_object (members : Entries Json) :
    lastWins (.object members) = .object (lastMembers members) := by
  rw [lastWins, gathered_object, lastMembers, Entries.putAll, List.foldl_map]
  rfl

/-- A member of the collected object is the collected value of one of the members. -/
theorem mem_lastMembers {members : Entries Json} {entry : String × Json}
    (h : entry ∈ lastMembers members) : ∃ m ∈ members, entry = (m.1, lastWins m.2) := by
  have hnodup := Entries.nodup_keys_putAll (members.map fun entry => (entry.1, lastWins entry.2))
  have hlast := Entries.find?_of_mem hnodup h
  rw [Entries.find?_putAll] at hlast
  obtain ⟨m, hm, heq⟩ := List.mem_map.mp (List.mem_reverse.mp (Entries.mem_of_find? hlast))
  exact ⟨m, hm, heq.symm⟩

/-- No object inside the value has the same key twice. -/
inductive DistinctKeys : Json → Prop where
  | null : DistinctKeys .null
  | bool (b : Bool) : DistinctKeys (.bool b)
  | number (n : Number) : DistinctKeys (.number n)
  | string (s : String) : DistinctKeys (.string s)
  | array {items : List Json} (h : ∀ v ∈ items, DistinctKeys v) : DistinctKeys (.array items)
  | object {members : Entries Json} (hkeys : members.keys.Nodup)
      (h : ∀ entry ∈ members, DistinctKeys entry.2) : DistinctKeys (.object members)

theorem distinctKeys_lastWins (w : Json) : DistinctKeys (lastWins w) := by
  induction w using inductionOn with
  | null => exact .null
  | bool b => exact .bool b
  | number n => exact .number n
  | string s => exact .string s
  | array items ih =>
      rw [lastWins_array]
      refine .array fun v hv => ?_
      obtain ⟨w, hw, rfl⟩ := List.mem_map.mp hv
      exact ih w hw
  | object members ih =>
      rw [lastWins_object]
      have hnodup :=
        Entries.nodup_keys_putAll (members.map fun entry => (entry.1, lastWins entry.2))
      refine .object hnodup fun entry hentry => ?_
      obtain ⟨member, hmember, rfl⟩ := mem_lastMembers hentry
      exact ih member hmember

/-- Where no key is repeated, every member stays. -/
theorem lastWins_of_distinctKeys {w : Json} (h : DistinctKeys w) : lastWins w = w := by
  induction h with
  | null => rfl
  | bool => rfl
  | number => rfl
  | string => rfl
  | array h ih => rw [lastWins_array, List.map_congr_left ih, List.map_id']
  | @object members hkeys h ih =>
      have hmap : (members.map fun entry => (entry.1, lastWins entry.2)) = members := by
        conv => rhs; rw [← List.map_id' members]
        exact List.map_congr_left fun entry hentry => by rw [ih entry hentry]
      rw [lastWins_object, lastMembers, hmap, Entries.putAll_of_nodup hkeys]

/-- A member of the collected object is the last one with its key. -/
theorem member?_lastWins (key : String) (members : Entries Json) :
    (lastWins (.object members)).member? key =
      (Entries.find? key members.reverse).map lastWins := by
  rw [lastWins_object, member?, lastMembers, Entries.find?_putAll, ← List.map_reverse,
    Entries.find?_map]

/-! ### Collected trees of one kind -/

theorem eq_of_lastWins_eq {w v : Json} (h : lastWins w = v) (harray : ∀ items, v ≠ .array items)
    (hobject : ∀ members, v ≠ .object members) : w = v := by
  cases w with
  | array items => exact absurd (h.symm.trans (lastWins_array items)) (harray _)
  | object members => exact absurd (h.symm.trans (lastWins_object members)) (hobject _)
  | null | bool | number | string => exact h

theorem lastWins_eq_string {w : Json} {s : String} (h : lastWins w = .string s) :
    w = .string s :=
  eq_of_lastWins_eq h nofun nofun

theorem lastWins_eq_bool {w : Json} {b : Bool} (h : lastWins w = .bool b) : w = .bool b :=
  eq_of_lastWins_eq h nofun nofun

theorem lastWins_eq_array {w : Json} {items : List Json} (h : lastWins w = .array items) :
    ∃ ws, w = .array ws ∧ items = ws.map lastWins := by
  cases w with
  | array ws =>
      rw [lastWins_array] at h
      exact ⟨ws, rfl, (Json.array.inj h).symm⟩
  | object => rw [lastWins_object] at h; cases h
  | null | bool | number | string => cases h

theorem object_of_member?_lastWins {w u : Json} {key : String}
    (h : (lastWins w).member? key = some u) : ∃ members, w = .object members := by
  cases w with
  | object members => exact ⟨members, rfl⟩
  | array => rw [lastWins_array] at h; cases h
  | null | bool | number | string => cases h

/-! ### Repeated keys -/

/-- How often a key stands in a value, not counting the values inside it. -/
def countKey (key : String) : Json → Nat
  | .object members => (Entries.keys members).count key
  | _ => 0

/-- The value is an object in which one of the keys stands more than once. -/
def RepeatsKey (keys : List String) (w : Json) : Prop := ∃ key ∈ keys, 1 < w.countKey key

theorem count_le_one_of_not_repeatsKey {keys : List String} {members : Entries Json}
    (h : ¬ RepeatsKey keys (.object members)) {key : String} (hkey : key ∈ keys) :
    members.keys.count key ≤ 1 := by
  apply Nat.le_of_not_lt
  intro htwice
  exact h ⟨key, hkey, htwice⟩

/-- A key that is not repeated keeps its only value. -/
theorem member?_lastWins_of_not_repeatsKey {keys : List String} {members : Entries Json}
    (h : ¬ RepeatsKey keys (.object members)) {key : String} (hkey : key ∈ keys) :
    (lastWins (.object members)).member? key = (Entries.find? key members).map lastWins := by
  rw [member?_lastWins, Entries.find?_reverse (count_le_one_of_not_repeatsKey h hkey)]

end Json

end ResourceApi
