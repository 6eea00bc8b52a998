import ResourceApi.Toml.Basic

/-!
Tables of TOML and what may be added to them. A table is opened once, by a header, in braces or by
dotted keys, and no key is given twice. A failure is an absent result.
-/

namespace ResourceApi.Toml.Entries

/-- Adds a value under a dotted key, given as its front and its last part. Tables that the front
names must come from dotted keys, too, or at least not be opened yet; the last one must come from
them. -/
def insert (v : Value) (last : Key) : List Key → Entries → Option Entries
  | [], entries =>
    if (entries.find? last.name).isSome then none else some (entries ++ [(last, v)])
  | key :: front, entries =>
    match entries.find? key.name with
    | none =>
      (insert v last front []).map fun inner =>
        entries ++ [(key, .table key.place .dotted inner)]
    | some (.table place form inner) =>
      if form = .inline ∨ form = .header then none
      else if front.isEmpty ∧ form ≠ .dotted then none
      else (insert v last front inner).map fun inner =>
        entries.set key.name (.table place form inner)
    | some (.tables place each) =>
      match each.reverse with
      | [] => none
      | inner :: others =>
        if front.isEmpty then none
        else (insert v last front inner).map fun inner =>
          entries.set key.name (.tables place (inner :: others).reverse)
    | some _ => none

/-- Changes the table at the end of a path of headers. Tables that are not there are made. -/
def modify {α : Type} (change : Entries → Option (α × Entries)) :
    List Key → Entries → Option (α × Entries)
  | [], entries => change entries
  | key :: path, entries =>
    match entries.find? key.name with
    | none =>
      (modify change path []).map fun (a, inner) =>
        (a, entries ++ [(key, .table key.place .implicit inner)])
    | some (.table place form inner) =>
      if form = .inline then none
      else (modify change path inner).map fun (a, inner) =>
        (a, entries.set key.name (.table place form inner))
    | some (.tables place each) =>
      match each.reverse with
      | [] => none
      | inner :: others =>
        (modify change path inner).map fun (a, inner) =>
          (a, entries.set key.name (.tables place (inner :: others).reverse))
    | some _ => none

/-- Opens a table by its header: what it holds already is taken out. -/
def openTable (path : List Key) (last : Key) (entries : Entries) : Option (Entries × Entries) :=
  entries.modify (fun parent =>
    match parent.find? last.name with
    | none => some ([], parent)
    | some (.table _ .implicit inner) => some (inner, parent.without last.name)
    | some _ => none) path

/-- Opens one of several tables under the same header. -/
def openOneOf (path : List Key) (last : Key) (entries : Entries) : Option (Entries × Entries) :=
  entries.modify (fun parent =>
    match parent.find? last.name with
    | none => some ([], parent ++ [(last, .tables last.place [])])
    | some (.tables _ _) => some ([], parent)
    | some _ => none) path

/-- Puts a table in its place. -/
def closeTable (path : List Key) (last : Key) (entries table : Entries) : Option Entries :=
  (entries.modify (fun parent =>
    match parent.find? last.name with
    | none => some ((), parent ++ [(last, .table last.place .header table)])
    | some _ => none) path).map Prod.snd

/-- Adds a table to those under the same header. -/
def closeOneOf (path : List Key) (last : Key) (entries table : Entries) : Option Entries :=
  (entries.modify (fun parent =>
    match parent.find? last.name with
    | some (.tables place each) =>
      some ((), parent.set last.name (.tables place (each ++ [table])))
    | _ => none) path).map Prod.snd

end ResourceApi.Toml.Entries
