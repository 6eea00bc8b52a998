import Mathlib.Data.List.Induction
import Mathlib.Data.List.Nodup
import ResourceApi.Dict

/-!
Entries that are put one after another. The keys keep the order of their first appearance, and under
each key the last value stays.
-/

namespace ResourceApi

namespace Entries

variable {α β : Type}

/-- Puts entries from the first to the last. -/
def putAll (done entries : Entries α) : Entries α :=
  entries.foldl (fun done entry => put entry.1 entry.2 done) done

theorem putAll_append (done entries more : Entries α) :
    putAll done (entries ++ more) = putAll (putAll done entries) more :=
  List.foldl_append

theorem putAll_concat (done entries : Entries α) (entry : String × α) :
    putAll done (entries ++ [entry]) = put entry.1 entry.2 (putAll done entries) :=
  putAll_append done entries [entry]

theorem keys_put (key : String) (value : α) (entries : Entries α) :
    (put key value entries).keys =
      if key ∈ entries.keys then entries.keys else entries.keys ++ [key] := by
  split
  · rename_i h
    exact keys_put_of_mem h
  · rename_i h
    exact keys_put_of_not_mem h

theorem eraseDups_concat {γ : Type} [DecidableEq γ] (as : List γ) (a : γ) :
    (as ++ [a]).eraseDups = if a ∈ as then as.eraseDups else as.eraseDups ++ [a] := by
  rw [List.eraseDups_append]
  split <;> simp_all [List.removeAll, List.eraseDups_cons]

theorem nodup_eraseDups {γ : Type} [DecidableEq γ] (as : List γ) : as.eraseDups.Nodup := by
  induction as using List.reverseRecOn with
  | nil => exact List.nodup_nil
  | append_singleton as a ih =>
      rw [eraseDups_concat]
      split
      · exact ih
      · rename_i hnew
        apply List.nodup_append.mpr
        refine ⟨ih, List.nodup_singleton a, fun b hb c hc => ?_⟩
        rw [List.mem_singleton.mp hc]
        rintro rfl
        exact hnew (List.mem_eraseDups.mp hb)

/-- Putting entries leaves their keys in the order of their first appearance. -/
theorem keys_putAll (entries : Entries α) :
    (putAll [] entries).keys = entries.keys.eraseDups := by
  induction entries using List.reverseRecOn with
  | nil => rfl
  | append_singleton entries entry ih =>
      have hkeys : keys (entries ++ [entry]) = keys entries ++ [entry.1] := by simp [keys]
      rw [putAll_concat, keys_put, ih, hkeys, eraseDups_concat]
      simp only [List.mem_eraseDups]

theorem nodup_keys_putAll (entries : Entries α) : (putAll [] entries).keys.Nodup := by
  induction entries using List.reverseRecOn with
  | nil => exact List.nodup_nil
  | append_singleton entries entry ih =>
      rw [putAll_concat]
      exact nodup_keys_put ih

theorem find?_append (key : String) (entries more : Entries α) :
    find? key (entries ++ more) = (find? key entries).or (find? key more) := by
  induction entries with
  | nil => rfl
  | cons entry entries ih =>
      by_cases hkey : entry.1 = key <;> simp [find?, hkey, ih]

/-- Under a key that is put several times the last value stays. -/
theorem find?_putAll (key : String) (entries : Entries α) :
    find? key (putAll [] entries) = find? key entries.reverse := by
  induction entries using List.reverseRecOn with
  | nil => rfl
  | append_singleton entries entry ih =>
      rw [putAll_concat, List.reverse_append, List.reverse_singleton, List.singleton_append]
      by_cases hkey : entry.1 = key
      · subst hkey
        rw [find?_put_self, find?, if_pos rfl]
      · rw [find?_put_of_ne (Ne.symm hkey), ih, find?, if_neg hkey]

theorem find?_eq_none {key : String} {entries : Entries α} :
    find? key entries = none ↔ key ∉ entries.keys := by
  induction entries with
  | nil => simp [find?, keys]
  | cons entry entries ih =>
      by_cases hkey : entry.1 = key
      · simp [find?, keys, hkey]
      · simp only [find?, hkey, if_false, ih, keys, List.map_cons, List.mem_cons, not_or]
        exact ⟨fun h => ⟨fun heq => hkey heq.symm, h⟩, And.right⟩

theorem mem_of_find? {key : String} {value : α} {entries : Entries α}
    (h : find? key entries = some value) : (key, value) ∈ entries := by
  induction entries with
  | nil => simp [find?] at h
  | cons entry entries ih =>
      rw [find?] at h
      split at h
      · rename_i hkey
        obtain rfl := Option.some.inj h
        exact hkey ▸ List.mem_cons_self
      · exact List.mem_cons_of_mem _ (ih h)

/-- What is found is the first entry with the key. -/
theorem find?_eq_some {key : String} {value : α} {entries : Entries α} :
    find? key entries = some value ↔
      ∃ before after, entries = before ++ (key, value) :: after ∧ key ∉ keys before := by
  constructor
  · intro h
    induction entries with
    | nil => cases h
    | cons entry entries ih =>
        rw [find?] at h
        split at h
        · rename_i hkey
          obtain rfl := Option.some.inj h
          exact ⟨[], entries, by rw [← hkey]; rfl, List.not_mem_nil⟩
        · rename_i hkey
          obtain ⟨before, after, rfl, hbefore⟩ := ih h
          exact ⟨entry :: before, after, rfl,
            List.not_mem_cons_of_ne_of_not_mem (Ne.symm hkey) hbefore⟩
  · rintro ⟨before, after, rfl, hbefore⟩
    rw [find?_append, find?_eq_none.mpr hbefore, Option.none_or, find?, if_pos rfl]

/-- A value stands under its key if the key is not repeated. -/
theorem find?_of_mem_of_count {key : String} {value : α} {entries : Entries α}
    (hcount : entries.keys.count key ≤ 1) (h : (key, value) ∈ entries) :
    find? key entries = some value := by
  induction entries with
  | nil => simp at h
  | cons entry entries ih =>
      simp only [keys, List.map_cons, List.count_cons] at hcount
      rcases List.mem_cons.mp h with rfl | h
      · simp [find?]
      · have hmem : key ∈ keys entries := List.mem_map.mpr ⟨_, h, rfl⟩
        have hpos := List.count_pos_iff.mpr hmem
        simp only [keys] at hpos
        have hkey : entry.1 ≠ key := by
          intro heq
          simp only [heq, beq_self_eq_true, if_true] at hcount
          omega
        rw [find?, if_neg hkey]
        apply ih _ h
        simp only [keys]
        omega

theorem find?_of_mem {key : String} {value : α} {entries : Entries α} (hnodup : entries.keys.Nodup)
    (h : (key, value) ∈ entries) : find? key entries = some value :=
  find?_of_mem_of_count (List.nodup_iff_count_le_one.mp hnodup key) h

/-- A key that is not repeated has the same value from either end. -/
theorem find?_reverse {key : String} {entries : Entries α} (hcount : entries.keys.count key ≤ 1) :
    find? key entries.reverse = find? key entries := by
  cases h : find? key entries.reverse with
  | none =>
      have hkey := find?_eq_none.mp h
      rw [keys, List.map_reverse, List.mem_reverse] at hkey
      exact (find?_eq_none.mpr hkey).symm
  | some value =>
      have hmem := List.mem_reverse.mp (mem_of_find? h)
      exact (find?_of_mem_of_count hcount hmem).symm

theorem find?_map (key : String) (f : α → β) (entries : Entries α) :
    find? key (entries.map fun entry => (entry.1, f entry.2)) = (find? key entries).map f := by
  induction entries with
  | nil => rfl
  | cons entry entries ih =>
      by_cases hkey : entry.1 = key <;> simp [find?, hkey, ih]

theorem put_map (f : α → β) (key : String) (value : α) (entries : Entries α) :
    (put key value entries).map (fun entry => (entry.1, f entry.2)) =
      put key (f value) (entries.map fun entry => (entry.1, f entry.2)) := by
  induction entries with
  | nil => rfl
  | cons entry entries ih =>
      by_cases hkey : entry.1 = key
      · simp [put, hkey]
      · simp [put, hkey, ih]

/-- What is read off the values can be read off before they are put. -/
theorem putAll_map (f : α → β) (entries : Entries α) :
    (putAll [] entries).map (fun entry => (entry.1, f entry.2)) =
      putAll [] (entries.map fun entry => (entry.1, f entry.2)) := by
  induction entries using List.reverseRecOn with
  | nil => rfl
  | append_singleton entries entry ih =>
      rw [putAll_concat, put_map, ih, List.map_append, List.map_singleton, putAll_concat]

theorem put_of_not_mem {key : String} {value : α} {entries : Entries α}
    (h : key ∉ entries.keys) : put key value entries = entries ++ [(key, value)] := by
  induction entries with
  | nil => rfl
  | cons entry entries ih =>
      simp only [keys, List.map_cons, List.mem_cons, not_or] at h
      rw [put, if_neg (Ne.symm h.1), ih h.2, List.cons_append]

theorem putAll_of_nodup {entries : Entries α} (h : entries.keys.Nodup) :
    putAll [] entries = entries := by
  induction entries using List.reverseRecOn with
  | nil => rfl
  | append_singleton entries entry ih =>
      have hkeys : keys (entries ++ [entry]) = keys entries ++ [entry.1] := by simp [keys]
      rw [hkeys, List.nodup_append] at h
      have hfresh : entry.1 ∉ keys entries :=
        fun hmem => h.2.2 _ hmem _ (List.mem_singleton_self _) rfl
      rw [putAll_concat, ih h.1, put_of_not_mem hfresh]

/-! ### Entries taken out -/

/-- Without repeated keys, taking out a key leaves all other entries, in some order. -/
theorem swapOut_perm {key : String} {entries : Entries α} (h : entries.keys.Nodup) :
    (swapOut key entries).Perm (entries.filter fun entry => entry.1 ≠ key) := by
  induction entries with
  | nil => exact .nil
  | cons entry rest ih =>
      obtain ⟨hfresh, hrest⟩ := List.nodup_cons.mp h
      by_cases hkey : entry.1 = key
      · have hothers : ∀ other ∈ rest, decide (other.1 ≠ key) = true := fun other hother =>
          decide_eq_true fun heq => hfresh (hkey ▸ heq ▸ List.mem_map_of_mem hother)
        rw [swapOut, if_pos hkey, List.filter_cons_of_neg (by simpa using hkey),
          List.filter_eq_self.mpr hothers]
        cases rest using List.reverseRecOn with
        | nil => exact .nil
        | append_singleton rest last =>
            rw [List.getLast?_concat, List.dropLast_concat]
            exact (List.perm_append_singleton last rest).symm
      · rw [swapOut, if_neg hkey, List.filter_cons_of_pos (by simpa using hkey)]
        exact (ih hrest).cons entry

theorem nodup_keys_swapOut {key : String} {entries : Entries α} (h : entries.keys.Nodup) :
    (swapOut key entries).keys.Nodup :=
  ((swapOut_perm h).map Prod.fst).nodup_iff.mpr (h.sublist (List.filter_sublist.map Prod.fst))

theorem mem_keys_swapOut {key other : String} {entries : Entries α} (h : entries.keys.Nodup) :
    other ∈ (swapOut key entries).keys ↔ other ∈ entries.keys ∧ other ≠ key := by
  rw [keys, ((swapOut_perm h).map Prod.fst).mem_iff]
  simp only [keys, List.mem_map, List.mem_filter, decide_eq_true_eq]
  constructor
  · rintro ⟨entry, ⟨hmem, hne⟩, rfl⟩
    exact ⟨⟨entry, hmem, rfl⟩, hne⟩
  · rintro ⟨⟨entry, hmem, rfl⟩, hne⟩
    exact ⟨entry, ⟨hmem, hne⟩, rfl⟩

theorem find?_swapOut_of_ne {key other : String} {entries : Entries α} (h : entries.keys.Nodup)
    (hne : other ≠ key) : find? other (swapOut key entries) = find? other entries := by
  cases hfind : find? other entries with
  | none =>
      rw [find?_eq_none] at hfind ⊢
      exact fun hmem => hfind ((mem_keys_swapOut h).mp hmem).1
  | some value =>
      apply find?_of_mem (nodup_keys_swapOut h)
      rw [(swapOut_perm h).mem_iff, List.mem_filter]
      exact ⟨mem_of_find? hfind, decide_eq_true hne⟩

end Entries

/-! ### Dictionaries made from entries -/

namespace Dict

variable {α : Type}

theorem entries_ofEntries (entries : Entries α) :
    (ofEntries entries).entries = Entries.putAll [] entries := by
  have hfold : ∀ d : Dict α, (entries.foldl (fun d entry => d.insert entry.1 entry.2) d).entries =
      Entries.putAll d.entries entries := by
    induction entries with
    | nil =>
        intro d
        rfl
    | cons entry entries ih =>
        intro d
        exact ih (d.insert entry.1 entry.2)
  exact hfold empty

/-- A dictionary is made from its own entries, in their order. -/
theorem ofEntries_entries (d : Dict α) : ofEntries d.entries = d := by
  have hentries : (ofEntries d.entries).entries = d.entries := by
    rw [entries_ofEntries, Entries.putAll_of_nodup d.nodup]
  cases h : ofEntries d.entries with
  | mk entries nodup =>
      rw [h] at hentries
      cases d
      cases hentries
      rfl

theorem keys_ofEntries (entries : Entries α) :
    (ofEntries entries).keys = entries.keys.eraseDups := by
  rw [keys, entries_ofEntries, Entries.keys_putAll]

theorem get?_ofEntries (entries : Entries α) (key : String) :
    (ofEntries entries).get? key = Entries.find? key entries.reverse := by
  rw [get?, entries_ofEntries, Entries.find?_putAll]

/-- A dictionary that is made from entries has no others. -/
theorem mem_of_mem_ofEntries {entries : Entries α} {entry : String × α}
    (h : entry ∈ (ofEntries entries).entries) : entry ∈ entries := by
  have hfind := Entries.find?_of_mem (ofEntries entries).nodup h
  rw [← get?, get?_ofEntries] at hfind
  exact List.mem_reverse.mp (Entries.mem_of_find? hfind)

end Dict

/-! ### Groups of keys -/

theorem eraseDups_of_nodup {α : Type} [DecidableEq α] {as : List α} (h : as.Nodup) :
    as.eraseDups = as := by
  induction as with
  | nil => rfl
  | cons a as ih =>
      obtain ⟨hfresh, hnodup⟩ := List.nodup_cons.mp h
      have hfilter : as.filter (fun b => !b == a) = as := by
        apply List.filter_eq_self.mpr
        intro b hb
        simp [show b ≠ a from fun heq => hfresh (heq ▸ hb)]
      rw [List.eraseDups_cons, hfilter, ih hnodup]

/-- Groups that have nothing in common stay together if repetitions are left out. -/
theorem eraseDups_flatMap {α β : Type} [DecidableEq α] [DecidableEq β] {group : α → List β}
    {as : List α} (hnodup : ∀ a ∈ as, (group a).Nodup)
    (hgroup : ∀ a ∈ as, ∀ b ∈ as, ∀ x, x ∈ group a → x ∈ group b → a = b) :
    (as.flatMap group).eraseDups = as.eraseDups.flatMap group := by
  induction as using List.reverseRecOn with
  | nil => rfl
  | append_singleton as a ih =>
      have hbefore := ih (fun b hb => hnodup b (List.mem_append_left _ hb)) fun b hb c hc =>
        hgroup b (List.mem_append_left _ hb) c (List.mem_append_left _ hc)
      have ha : a ∈ as ++ [a] := List.mem_append_right _ (List.mem_singleton_self a)
      have hlast : [a].flatMap group = group a := by simp
      rw [List.flatMap_append, List.eraseDups_append, hbefore, hlast, Entries.eraseDups_concat]
      by_cases hmem : a ∈ as
      · have hold : (group a).removeAll (as.flatMap group) = [] := by
          apply List.filter_eq_nil_iff.mpr
          intro x hx
          have : x ∈ as.flatMap group := List.mem_flatMap.mpr ⟨a, hmem, hx⟩
          simpa using this
        rw [if_pos hmem, hold, List.eraseDups_nil, List.append_nil]
      · have hnew : (group a).removeAll (as.flatMap group) = group a := by
          apply List.filter_eq_self.mpr
          intro x hx
          have : x ∉ as.flatMap group := by
            intro hold
            obtain ⟨b, hb, hxb⟩ := List.mem_flatMap.mp hold
            exact hmem (hgroup b (List.mem_append_left _ hb) a ha x hxb hx ▸ hb)
          simpa using this
        rw [if_neg hmem, hnew, eraseDups_of_nodup (hnodup a ha), List.flatMap_append, hlast]

end ResourceApi
