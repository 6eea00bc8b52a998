/-!
Dictionaries that keep the order in which their keys were first put. Putting a key again replaces
its value and leaves its place.
-/

namespace ResourceApi

/-- Association lists, for data in which a key may repeat. -/
abbrev Entries (α : Type) := List (String × α)

namespace Entries

variable {α β : Type}

def keys (entries : Entries α) : List String := entries.map Prod.fst

/-- The value of the first entry with this key. -/
def find? (key : String) : Entries α → Option α
  | [] => none
  | (k, v) :: rest => if k = key then some v else find? key rest

/-- Replaces the value of the first entry with this key, or adds an entry at the end. -/
def put (key : String) (value : α) : Entries α → Entries α
  | [] => [(key, value)]
  | (k, v) :: rest => if k = key then (k, value) :: rest else (k, v) :: put key value rest

/-- Takes out the first entry with this key and puts the last entry in its place. -/
def swapOut (key : String) : Entries α → Entries α
  | [] => []
  | entry :: rest =>
    if entry.1 = key then
      match rest.getLast? with
      | some last => last :: rest.dropLast
      | none => []
    else entry :: swapOut key rest

theorem keys_put_of_mem {key : String} {value : α} {entries : Entries α}
    (h : key ∈ entries.keys) : (entries.put key value).keys = entries.keys := by
  induction entries with
  | nil => simp [keys] at h
  | cons entry rest ih =>
    obtain ⟨k, v⟩ := entry
    by_cases hk : k = key
    · simp [put, keys, hk]
    · have hr : key ∈ keys rest := by
        simp only [keys, List.map_cons, List.mem_cons] at h ⊢
        exact h.resolve_left fun e => hk e.symm
      have := ih hr
      simp only [keys, put, hk, if_false, List.map_cons] at this ⊢
      rw [this]

theorem keys_put_of_not_mem {key : String} {value : α} {entries : Entries α}
    (h : key ∉ entries.keys) : (entries.put key value).keys = entries.keys ++ [key] := by
  induction entries with
  | nil => rfl
  | cons entry rest ih =>
    obtain ⟨k, v⟩ := entry
    simp only [keys, List.map_cons, List.mem_cons, not_or] at h
    have hk : ¬ k = key := fun e => h.1 e.symm
    have := ih h.2
    simp only [keys, put, hk, if_false, List.map_cons, List.cons_append] at this ⊢
    rw [this]

theorem nodup_keys_put {key : String} {value : α} {entries : Entries α}
    (h : entries.keys.Nodup) : (entries.put key value).keys.Nodup := by
  by_cases hk : key ∈ entries.keys
  · rwa [keys_put_of_mem hk]
  · rw [keys_put_of_not_mem hk, List.nodup_append]
    refine ⟨h, by simp, ?_⟩
    intro a ha b hb
    simp only [List.mem_singleton] at hb
    exact fun e => hk (hb ▸ e ▸ ha)

theorem find?_put_self (key : String) (value : α) (entries : Entries α) :
    (entries.put key value).find? key = some value := by
  induction entries with
  | nil => simp [put, find?]
  | cons entry rest ih =>
    obtain ⟨k, v⟩ := entry
    by_cases hk : k = key <;> simp [put, find?, hk, ih]

theorem find?_put_of_ne {key other : String} (h : other ≠ key) (value : α)
    (entries : Entries α) : (entries.put key value).find? other = entries.find? other := by
  induction entries with
  | nil => simp [put, find?, h.symm]
  | cons entry rest ih =>
    obtain ⟨k, v⟩ := entry
    by_cases hk : k = key
    · subst hk
      simp [put, find?, h.symm]
    · by_cases ho : k = other <;> simp_all [put, find?]

end Entries

/-- A dictionary: entries in the order of their first insertion, no key twice. -/
structure Dict (α : Type) where
  entries : Entries α
  nodup : entries.keys.Nodup := by decide

namespace Dict

variable {α β : Type}

def empty : Dict α := ⟨[], List.nodup_nil⟩

instance : Inhabited (Dict α) := ⟨empty⟩

instance [DecidableEq α] : DecidableEq (Dict α) := fun a b =>
  if h : a.entries = b.entries then
    .isTrue (by cases a; cases b; simp_all)
  else
    .isFalse fun e => h (e ▸ rfl)

instance [Repr α] : Repr (Dict α) := ⟨fun d n => reprPrec d.entries n⟩

def keys (d : Dict α) : List String := d.entries.keys

def get? (d : Dict α) (key : String) : Option α := d.entries.find? key

def insert (d : Dict α) (key : String) (value : α) : Dict α :=
  ⟨d.entries.put key value, Entries.nodup_keys_put d.nodup⟩

/-- Inserts entries from the first to the last; of a repeated key the last value stays. -/
def ofEntries (entries : Entries α) : Dict α :=
  entries.foldl (fun d entry => d.insert entry.1 entry.2) empty

end Dict

end ResourceApi
