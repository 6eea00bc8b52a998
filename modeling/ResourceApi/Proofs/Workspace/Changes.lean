import ResourceApi.Proofs.Dictionaries
import ResourceApi.Proofs.Workspace.Paths

/-!
What a workspace keeps while it changes. No directory has a name twice, and what stands in it has a
name that can be written in a path. Making directories, writing files and taking them away leave it
so.
-/

namespace ResourceApi

theorem Entries.mem_put {α : Type} {key : String} {value : α} {entry : String × α}
    {entries : Entries α} (h : entry ∈ put key value entries) :
    entry = (key, value) ∨ entry ∈ entries := by
  induction entries with
  | nil => exact .inl (List.mem_singleton.mp h)
  | cons first rest ih =>
      rw [put] at h
      split at h
      · rename_i hkey
        rcases List.mem_cons.mp h with rfl | hrest
        · exact .inl (by rw [hkey])
        · exact .inr (List.mem_cons_of_mem _ hrest)
      · rcases List.mem_cons.mp h with rfl | hrest
        · exact .inr List.mem_cons_self
        · exact (ih hrest).imp_right (List.mem_cons_of_mem _)

namespace Workspace

namespace Tree

/-- No directory has a name twice, and its names are names. -/
inductive Proper : Tree → Prop
  | file (content : ByteArray) : Proper (.file content)
  | directory {entries : List (String × Tree)} (hkeys : (Entries.keys entries).Nodup)
      (hnames : ∀ entry ∈ entries, IsName entry.1) (hparts : ∀ entry ∈ entries, Proper entry.2) :
      Proper (.directory entries)

variable {t new : Tree} {name : String} {names : List String} {entries : List (String × Tree)}

theorem proper_empty : Proper (.directory []) :=
  .directory List.nodup_nil (List.forall_mem_nil _) (List.forall_mem_nil _)

theorem Proper.part (h : Proper (.directory entries))
    (hfind : Entries.find? name entries = some t) : t.Proper := by
  obtain _ | ⟨-, -, hparts⟩ := h
  exact hparts _ (Entries.mem_of_find? hfind)

theorem Proper.get? (h : t.Proper) (hget : t.get? names = some new) : new.Proper := by
  induction names generalizing t with
  | nil =>
      obtain rfl : t = new := by
        cases t with
        | file content => exact Option.some.inj hget
        | directory entries => exact Option.some.inj hget
      exact h
  | cons name names ih =>
      cases t with
      | file content => cases hget
      | directory entries =>
          obtain ⟨u, hfind, hrest⟩ := Option.bind_eq_some_iff.mp hget
          exact ih (h.part hfind) hrest

theorem Proper.putEntry (h : Proper (.directory entries)) (hname : IsName name)
    (hnew : new.Proper) : Proper (.directory (Entries.put name new entries)) := by
  obtain _ | ⟨hkeys, hnames, hparts⟩ := h
  apply Proper.directory (Entries.nodup_keys_put hkeys)
  · intro entry hentry
    rcases Entries.mem_put hentry with rfl | hold
    · exact hname
    · exact hnames entry hold
  · intro entry hentry
    rcases Entries.mem_put hentry with rfl | hold
    · exact hnew
    · exact hparts entry hold

theorem Proper.put (h : t.Proper) (hnames : ∀ name ∈ names, IsName name) (hnew : new.Proper) :
    (t.put names new).Proper := by
  induction names generalizing t with
  | nil =>
      cases t with
      | file content => exact hnew
      | directory entries => exact hnew
  | cons name names ih =>
      obtain ⟨hname, hrest⟩ := List.forall_mem_cons.mp hnames
      cases t with
      | file content => exact h
      | directory entries =>
          apply h.putEntry hname
          refine ih ?_ hrest
          cases hfind : Entries.find? name entries with
          | none => exact proper_empty
          | some u => exact h.part hfind

theorem Proper.filter (h : Proper (.directory entries)) (p : String × Tree → Bool) :
    Proper (.directory (entries.filter p)) := by
  obtain _ | ⟨hkeys, hnames, hparts⟩ := h
  refine .directory (hkeys.sublist (List.filter_sublist.map Prod.fst)) ?_ ?_
  · exact fun entry hentry => hnames entry (List.mem_of_mem_filter hentry)
  · exact fun entry hentry => hparts entry (List.mem_of_mem_filter hentry)

theorem Proper.remove (h : t.Proper) (hnames : ∀ name ∈ names, IsName name) :
    (t.remove names).Proper := by
  fun_induction Tree.remove t names with
  | case1 entries name => exact h.filter _
  | case2 entries name names _ u hfind ih =>
      obtain ⟨hname, hrest⟩ := List.forall_mem_cons.mp hnames
      exact h.putEntry hname (ih (h.part hfind) hrest)
  | case3 => exact h
  | case4 => exact h

theorem Proper.nodup_entries (h : t.Proper) : (Entries.keys t.entries).Nodup := by
  cases h with
  | file content => exact List.nodup_nil
  | directory hkeys hnames hparts => exact hkeys

theorem Proper.isName_of_mem_entries (h : t.Proper) : ∀ entry ∈ t.entries, IsName entry.1 := by
  cases h with
  | file content => exact List.forall_mem_nil _
  | directory hkeys hnames hparts => exact hnames

end Tree

/-! ### The files in a directory -/

section Files

variable {w : Workspace} {path name : String}

theorem proper_of_find {t : Tree} (hw : w.root.Proper) (h : w.find path = .ok t) : t.Proper := by
  obtain ⟨place, -, hget⟩ := find_eq_ok.mp h
  exact hw.get? hget

theorem nodup_files (hw : w.root.Proper) (path : String) : (w.files path).Nodup := by
  rw [files]
  cases h : w.find path with
  | error e => exact List.nodup_nil
  | ok t =>
      exact (proper_of_find hw h).nodup_entries.sublist (List.filter_sublist.map Prod.fst)

theorem isName_of_mem_files (hw : w.root.Proper) (h : name ∈ w.files path) : IsName name := by
  rw [files] at h
  cases hfind : w.find path with
  | error e =>
      rw [hfind] at h
      cases h
  | ok t =>
      rw [hfind] at h
      obtain ⟨entry, hentry, rfl⟩ := List.mem_map.mp h
      exact (proper_of_find hw hfind).isName_of_mem_entries entry (List.mem_of_mem_filter hentry)

/-- The files in a directory are those to which their paths lead. -/
theorem mem_files (hw : w.root.Proper) (hpath : w.isDirectory path) (hname : IsName name) :
    name ∈ w.files path ↔ ∃ content, w.find (Path.join path name) = .ok (.file content) := by
  obtain ⟨entries, hfind⟩ := isDirectory_iff.mp hpath
  have hkeys : (Entries.keys entries).Nodup := (proper_of_find hw hfind).nodup_entries
  simp only [files, hfind, find_join_eq_ok hfind hname, List.mem_map, List.mem_filter]
  constructor
  · rintro ⟨⟨other, t⟩, ⟨hmem, hfile⟩, rfl⟩
    cases t with
    | file content => exact ⟨content, Entries.find?_of_mem hkeys hmem⟩
    | directory inner => cases hfile
  · rintro ⟨content, hcontent⟩
    exact ⟨(name, .file content), ⟨Entries.mem_of_find? hcontent, rfl⟩, rfl⟩

end Files

/-! ### Changes -/

/-- Something that is done to the files and directories of a workspace. -/
inductive Change where
  | makeDirectoryOf (path : String)
  | write (path : String) (content : ByteArray)
  | remove (path : String)

/-- The workspace after a change. One that cannot be made changes nothing. -/
def Change.apply (w : Workspace) : Change → Workspace
  | .makeDirectoryOf path => (w.makeDirectoryOf path).toOption.getD w
  | .write path content => (w.writeBytes path content).toOption.getD w
  | .remove path => w.remove path

/-- The workspace after changes from the first to the last. -/
def after (w : Workspace) (changes : List Change) : Workspace := changes.foldl Change.apply w

variable {w w' : Workspace} {names place : List String}

theorem proper_makeDirectories (hw : w.root.Proper) (hplace : ∀ name ∈ place, IsName name)
    (hnames : ∀ name ∈ names, name ≠ "" ∧ '/' ∉ name.toList)
    (h : w.makeDirectories place names = .ok w') : w'.root.Proper := by
  induction names generalizing w place with
  | nil =>
      obtain rfl := Except.ok.inj h
      exact hw
  | cons name names ih =>
      obtain ⟨hname, hrest⟩ := List.forall_mem_cons.mp hnames
      have hthrough := isName_through hplace hname
      rw [makeDirectories] at h
      rw [through] at hthrough
      by_cases hdot : name = "."
      · rw [if_pos hdot] at h
        exact ih hw hplace hrest h
      · rw [if_neg hdot] at h hthrough
        by_cases hup : name = ".."
        · rw [if_pos hup] at h hthrough
          exact ih hw hthrough hrest h
        · rw [if_neg hup] at h hthrough
          split at h
          · exact ih hw hthrough hrest h
          · cases h
          · exact ih (hw.put hthrough Tree.proper_empty) hthrough hrest h

/-- A change leaves the names as they have to be. -/
theorem proper_apply (hw : w.root.Proper) (change : Change) : (change.apply w).root.Proper := by
  cases change with
  | makeDirectoryOf path =>
      rw [Change.apply]
      cases h : w.makeDirectoryOf path with
      | error e => exact hw
      | ok w' =>
          exact proper_makeDirectories hw (List.forall_mem_nil _)
            (fun name hname => Path.of_mem_names (Path.mem_names_of_mem_directory hname)) h
  | write path content =>
      rw [Change.apply, writeBytes]
      cases h : w.target path with
      | error e => exact hw
      | ok place => exact hw.put (isName_of_locate (target_eq_ok.mp h).1) (.file content)
  | remove path =>
      rw [Change.apply, remove]
      cases h : w.locate path with
      | error e => exact hw
      | ok place => exact hw.remove (isName_of_locate h)

/-- Whatever changes are made, the names stay as they have to be. -/
theorem proper_after (hw : w.root.Proper) (changes : List Change) :
    (w.after changes).root.Proper := by
  induction changes generalizing w with
  | nil => exact hw
  | cons change changes ih => exact ih (proper_apply hw change)

end Workspace

end ResourceApi
