import ResourceApi.Dict

/-!
Files and directories as a tree. A directory has no name twice.
-/

namespace ResourceApi.Workspace

/-- A file with its bytes, or a directory with what it holds. -/
inductive Tree where
  | file (content : ByteArray)
  | directory (entries : List (String × Tree))

namespace Tree

instance : Inhabited Tree := ⟨.directory []⟩

def isFile : Tree → Bool
  | .file _ => true
  | .directory _ => false

def isDirectory : Tree → Bool
  | .file _ => false
  | .directory _ => true

/-- What is at the end of a list of names. -/
def get? : Tree → List String → Option Tree
  | t, [] => some t
  | .directory entries, name :: names =>
    (Entries.find? name entries).bind fun t => t.get? names
  | .file _, _ :: _ => none

/-- Puts a tree at the end of a list of names; directories that are missing on the way are made. -/
def put : Tree → List String → Tree → Tree
  | _, [], new => new
  | .directory entries, name :: names, new =>
    .directory (Entries.put name
      (put ((Entries.find? name entries).getD (.directory [])) names new) entries)
  | .file content, _ :: _, _ => .file content

/-- Takes away what is at the end of a list of names. -/
def remove : Tree → List String → Tree
  | .directory entries, [name] => .directory (entries.filter fun entry => entry.1 ≠ name)
  | .directory entries, name :: names =>
    match Entries.find? name entries with
    | some t => .directory (Entries.put name (t.remove names) entries)
    | none => .directory entries
  | t, _ => t

/-- The names in a directory and what they stand for; a file holds none. -/
def entries : Tree → List (String × Tree)
  | .file _ => []
  | .directory entries => entries

/-- What is put at a path is found there, if no file is in the way. -/
theorem get?_put_self (t : Tree) (names : List String) (new : Tree)
    (h : ∀ front, front <+: names → front ≠ names → ∀ content,
      t.get? front ≠ some (.file content)) :
    (t.put names new).get? names = some new := by
  induction names generalizing t with
  | nil => cases t <;> simp [put, get?]
  | cons name names ih =>
    cases t with
    | file content => exact absurd rfl (h [] (List.nil_prefix) (by simp) content)
    | directory entries =>
      simp only [put, get?, Entries.find?_put_self, Option.bind_some]
      apply ih
      intro front hp hne content hc
      cases hf : Entries.find? name entries with
      | none =>
        rw [hf] at hc
        cases front <;> simp [get?, Entries.find?] at hc
      | some u =>
        rw [hf] at hc
        refine h (name :: front) (List.cons_prefix_cons.2 ⟨rfl, hp⟩) (by simpa using hne) content ?_
        simpa [get?, hf] using hc

end Tree

end ResourceApi.Workspace
