import Mathlib.Data.List.Basic
import ResourceApi.Proofs.Text.Splitting
import ResourceApi.Proofs.Workspace

/-!
Where paths lead. The parts of a path have no slash in them, and the dots among them are gone once
it is known where they lead, so only names are left. The path of a name in a directory leads to what
has this name there.
-/

namespace ResourceApi.Workspace

/-- A name that something in a directory can have. -/
structure IsName (name : String) : Prop where
  ne_empty : name ≠ ""
  ne_dot : name ≠ "."
  ne_up : name ≠ ".."
  no_slash : '/' ∉ name.toList

namespace Path

variable {path name : String}

/-- What stands between slashes. -/
def parts (s : List Char) : List String :=
  ((Text.split '/' s).filter fun part => !part.isEmpty).map String.ofList

theorem names_eq (path : String) :
    names path = parts path.toList ++ if endsInSlash path then ["."] else [] := by
  rw [names]
  split
  · rfl
  · exact (List.append_nil _).symm

theorem of_mem_parts {s : List Char} (h : name ∈ parts s) : name ≠ "" ∧ '/' ∉ name.toList := by
  obtain ⟨part, hpart, rfl⟩ := List.mem_map.mp h
  obtain ⟨hsplit, hne⟩ := List.mem_filter.mp hpart
  rw [String.toList_ofList]
  refine ⟨?_, Text.not_mem_of_mem_split hsplit⟩
  intro hempty
  have hpart : part = [] := by simpa using congrArg String.toList hempty
  simp [hpart] at hne

theorem of_mem_names (h : name ∈ names path) : name ≠ "" ∧ '/' ∉ name.toList := by
  rw [names_eq, List.mem_append] at h
  rcases h with h | h
  · exact of_mem_parts h
  · split at h
    · obtain rfl := List.mem_singleton.mp h
      decide
    · cases h

theorem mem_names_of_mem_directory (h : name ∈ directory path) : name ∈ names path := by
  have hcomponents : name ∈ components path := List.dropLast_subset _ h
  rw [components] at hcomponents
  split at hcomponents
  · cases hcomponents
  · rename_i first rest hnames
    rw [hnames]
    rcases List.mem_cons.mp hcomponents with rfl | hrest
    · exact List.mem_cons_self
    · exact List.mem_cons_of_mem _ (List.mem_of_mem_filter hrest)

theorem parts_append (s t : List Char) : parts (s ++ '/' :: t) = parts s ++ parts t := by
  rw [parts, Text.split_append_separator, List.filter_append, List.map_append]
  rfl

theorem parts_name (h : IsName name) : parts name.toList = [name] := by
  have hne : name.toList.isEmpty = false := by
    simpa using h.ne_empty
  rw [parts, Text.split_of_not_mem h.no_slash, List.filter_cons_of_pos (by simp [hne])]
  simp

theorem toList_join (hpath : path ≠ "") :
    (join path name).toList =
      path.toList ++ (if endsInSlash path then [] else ['/']) ++ name.toList := by
  rw [join]
  by_cases hslash : endsInSlash path <;> simp [hslash, hpath]

/-- A name that is joined to a path is one more part of it; a slash at the end then stands before
the name. -/
theorem names_join (hpath : path ≠ "") (h : IsName name) :
    names (join path name) = parts path.toList ++ [name] := by
  have hparts : parts (join path name).toList = parts path.toList ++ [name] := by
    rw [toList_join hpath]
    by_cases hslash : endsInSlash path
    -- Behind the slash at the end of the path is an empty part, which is left out.
    · obtain ⟨front, hfront⟩ := List.getLast?_eq_some_iff.mp (of_decide_eq_true hslash)
      rw [if_pos hslash, hfront, List.append_nil, List.append_assoc, List.singleton_append,
        parts_append, parts_append, parts_name h]
      exact congrArg (· ++ [name]) (List.append_nil _).symm
    · rw [if_neg hslash, List.append_assoc, List.singleton_append, parts_append, parts_name h]
  have hend : ¬ endsInSlash (join path name) := by
    intro hslash
    have hlast : (join path name).toList.getLast? = some '/' := of_decide_eq_true hslash
    rw [toList_join hpath, List.getLast?_append_of_ne_nil _ (by simpa using h.ne_empty)] at hlast
    exact h.no_slash (List.mem_of_getLast? hlast)
  rw [names_eq, hparts, if_neg hend, List.append_nil]

end Path

variable {w : Workspace} {path name : String} {names more place found : List String}

/-! ### Names on the way -/

theorem isName_through (hplace : ∀ name ∈ place, IsName name)
    (hname : name ≠ "" ∧ '/' ∉ name.toList) : ∀ other ∈ through place name, IsName other := by
  intro other hother
  rw [through] at hother
  split at hother
  · exact hplace other hother
  · rename_i hdot
    split at hother
    · exact hplace other (List.dropLast_subset _ hother)
    · rename_i hup
      rcases List.mem_append.mp hother with h | h
      · exact hplace other h
      · rw [List.mem_singleton.mp h]
        exact ⟨hname.1, hdot, hup, hname.2⟩

theorem isName_of_follow (hplace : ∀ name ∈ place, IsName name)
    (hnames : ∀ name ∈ names, name ≠ "" ∧ '/' ∉ name.toList)
    (h : w.follow place names = .ok found) : ∀ name ∈ found, IsName name := by
  induction names generalizing place with
  | nil =>
      obtain rfl := Except.ok.inj h
      exact hplace
  | cons name names ih =>
      obtain ⟨hname, hrest⟩ := List.forall_mem_cons.mp hnames
      obtain ⟨-, hfollow⟩ := follow_cons_eq_ok.mp h
      exact ih (isName_through hplace hname) hrest hfollow

/-- Where a path leads, only names are left. -/
theorem isName_of_locate (h : w.locate path = .ok place) : ∀ name ∈ place, IsName name :=
  isName_of_follow (List.forall_mem_nil _) (fun _ => Path.of_mem_names) (locate_eq_ok.mp h).2

/-! ### Names in a directory -/

theorem follow_append_eq_ok :
    w.follow place (names ++ more) = .ok found ↔
      ∃ between, w.follow place names = .ok between ∧ w.follow between more = .ok found := by
  induction names generalizing place with
  | nil =>
      constructor
      · exact fun h => ⟨place, rfl, h⟩
      · rintro ⟨between, hbetween, h⟩
        obtain rfl := Except.ok.inj hbetween
        exact h
  | cons name names ih =>
      simp only [List.cons_append, follow_cons_eq_ok, ih]
      constructor
      · rintro ⟨hplace, between, hbetween, h⟩
        exact ⟨between, ⟨hplace, hbetween⟩, h⟩
      · rintro ⟨between, ⟨hplace, hbetween⟩, h⟩
        exact ⟨hplace, between, hbetween, h⟩

theorem Tree.get?_append (t : Tree) (names more : List String) :
    t.get? (names ++ more) = (t.get? names).bind fun u => u.get? more := by
  induction names generalizing t with
  | nil => cases t <;> rfl
  | cons name names ih =>
      cases t with
      | file content => rfl
      | directory entries =>
          rw [List.cons_append, get?, get?]
          cases Entries.find? name entries with
          | none => rfl
          | some u => exact ih u

theorem find_eq_ok {t : Tree} :
    w.find path = .ok t ↔ ∃ place, w.locate path = .ok place ∧ w.root.get? place = some t := by
  rw [find]
  cases w.locate path with
  | error e => simp
  | ok place => cases hget : w.root.get? place <;> simp [hget]

theorem isDirectory_iff :
    w.isDirectory path ↔ ∃ entries, w.find path = .ok (.directory entries) := by
  rw [isDirectory]
  cases w.find path with
  | error e => simp
  | ok t => cases t <;> simp [Tree.isDirectory]

/-- The path of a name in a directory leads to what has this name there. -/
theorem find_join_eq_ok {entries : List (String × Tree)} {t : Tree}
    (hpath : w.find path = .ok (.directory entries)) (hname : IsName name) :
    w.find (Path.join path name) = .ok t ↔ Entries.find? name entries = some t := by
  obtain ⟨place, hlocate, hget⟩ := find_eq_ok.mp hpath
  obtain ⟨hrelative, hfollow⟩ := locate_eq_ok.mp hlocate
  obtain ⟨hempty, habsolute⟩ := not_or.mp hrelative
  have hne : path ≠ "" := by simpa using hempty
  have hparts : w.follow [] (Path.parts path.toList) = .ok place := by
    rw [Path.names_eq] at hfollow
    split at hfollow
    · obtain ⟨between, hbetween, hdot⟩ := follow_append_eq_ok.mp hfollow
      obtain ⟨-, hstay⟩ := follow_cons_eq_ok.mp hdot
      obtain rfl := Except.ok.inj hstay
      exact hbetween
    · rwa [List.append_nil] at hfollow
  have hjoined : w.locate (Path.join path name) = .ok (place ++ [name]) := by
    apply locate_eq_ok.mpr
    constructor
    · rintro (h | h)
      · have hnil : (Path.join path name).toList = [] := by simpa using h
        rw [Path.toList_join hne] at hnil
        exact hname.ne_empty (by simpa using (List.append_eq_nil_iff.mp hnil).2)
      · apply habsolute
        have hfirst := of_decide_eq_true h
        rw [Path.toList_join hne, List.append_assoc,
          List.head?_append_of_ne_nil _ (by simpa using hne)] at hfirst
        exact decide_eq_true hfirst
    · rw [Path.names_join hne hname]
      refine follow_append_eq_ok.mpr ⟨place, hparts, follow_cons_eq_ok.mpr ⟨⟨entries, hget⟩, ?_⟩⟩
      rw [through, if_neg hname.ne_dot, if_neg hname.ne_up]
      rfl
  have hinside : w.root.get? (place ++ [name]) = Entries.find? name entries := by
    rw [Tree.get?_append, hget]
    change ((Entries.find? name entries).bind fun t => t.get? []) = _
    cases Entries.find? name entries with
    | none => rfl
    | some t => cases t <;> rfl
  rw [find_eq_ok, hjoined]
  constructor
  · rintro ⟨found, hfound, ht⟩
    obtain rfl := Except.ok.inj hfound
    rwa [← hinside]
  · exact fun h => ⟨place ++ [name], rfl, hinside.trans h⟩

end ResourceApi.Workspace
