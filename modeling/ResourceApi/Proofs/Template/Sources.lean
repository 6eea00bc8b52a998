import Mathlib.Data.List.Nodup
import Mathlib.Data.List.TakeWhile
import ResourceApi.Proofs.Workspace.Changes
import ResourceApi.Template.Source

/-!
What a source of templates lists and what it gives. A collection lists the templates that it gives.
A directory lists the templates whose names its files have. It gives the texts of those files, and
when the bytes of one are no text, the template is listed and cannot be given. There is no other
difference between listing and giving, whatever has been done in the directory before.
-/

namespace ResourceApi.Template

open Workspace (IsName Change)
open Source (ofDirectory)

/-! ### The catalogue -/

namespace Slug

variable {slug : Slug} {name : String} {names : List String}

theorem isName_fileName (slug : Slug) : IsName slug.fileName := by
  cases slug <;> exact ⟨by decide, by decide, by decide, by decide⟩

theorem mem_all (slug : Slug) : slug ∈ all := by
  cases slug <;> decide

theorem rank_injective {a b : Slug} (h : a.rank = b.rank) : a = b :=
  List.idxOf_inj (mem_all a) |>.mp h

/-- Among names without slashes only the name of its file stands for a template. -/
theorem ofName?_eq_some (hname : IsName name) :
    ofName? name = some slug ↔ name = slug.fileName := by
  constructor
  · intro h
    have hfound := List.find?_some h
    have hslash : name.toList.dropWhile (· = '/') = name.toList := by
      apply List.dropWhile_eq_self_iff.mpr
      intro hpos hfirst
      exact hname.no_slash (of_decide_eq_true hfirst ▸ List.getElem_mem hpos)
    rw [hslash, decide_eq_true_eq] at hfound
    exact (String.toList_inj.mp hfound).symm
  · rintro rfl
    exact ofName?_fileName slug

theorem nodup_filterMap_ofName? (hnodup : names.Nodup) (hnames : ∀ name ∈ names, IsName name) :
    (names.filterMap ofName?).Nodup := by
  apply List.pairwise_filterMap.mpr
  refine hnodup.imp_of_mem fun {a b} ha hb hne slug hslug other hother => ?_
  rintro rfl
  apply hne
  rw [(ofName?_eq_some (hnames a ha)).mp hslug, (ofName?_eq_some (hnames b hb)).mp hother]

theorem mem_filterMap_ofName? (hnames : ∀ name ∈ names, IsName name) :
    slug ∈ names.filterMap ofName? ↔ slug.fileName ∈ names := by
  rw [List.mem_filterMap]
  constructor
  · rintro ⟨name, hmem, hname⟩
    rwa [← (ofName?_eq_some (hnames name hmem)).mp hname]
  · exact fun h => ⟨slug.fileName, h, ofName?_fileName slug⟩

/-- Templates that are sorted and not repeated stand as they do in the catalogue. -/
theorem mergeSort_sublist_all {slugs : List Slug} (hnodup : slugs.Nodup) :
    (slugs.mergeSort fun a b => decide (a.rank ≤ b.rank)).Sublist all := by
  have hsorted : (slugs.mergeSort fun a b => decide (a.rank ≤ b.rank)).Pairwise
      fun a b => decide (a.rank ≤ b.rank) = true := by
    apply List.pairwise_mergeSort
    · intro a b c hab hbc
      exact decide_eq_true (Nat.le_trans (of_decide_eq_true hab) (of_decide_eq_true hbc))
    · intro a b
      simpa using Nat.le_total a.rank b.rank
  have hall : all.Pairwise fun a b => decide (a.rank ≤ b.rank) = true := by decide
  -- The part of the catalogue with these templates is sorted, too, so it is the same list.
  have hperm : (slugs.mergeSort fun a b => decide (a.rank ≤ b.rank)).Perm
      (all.filter fun slug => slug ∈ slugs) := by
    refine (List.mergeSort_perm ..).trans ((List.perm_ext_iff_of_nodup hnodup ?_).mpr ?_)
    · exact List.Nodup.filter _ (by decide)
    · intro slug
      simp [mem_all]
  have heq := List.Perm.eq_of_pairwise
    (fun a b _ _ hab hba => rank_injective
      (Nat.le_antisymm (of_decide_eq_true hab) (of_decide_eq_true hba)))
    hsorted (hall.sublist List.filter_sublist) hperm
  rw [heq]
  exact List.filter_sublist

end Slug

/-- The listing of a source is made of the templates of which something holds. They stand in the
order of the catalogue, none of them twice. -/
def Source.Lists (source : Source) (p : Slug → Prop) : Prop :=
  ∃ slugs, source.available = .ok slugs ∧ slugs.Sublist Slug.all ∧ ∀ slug, slug ∈ slugs ↔ p slug

/-- A source has one listing. -/
theorem Source.Lists.iff {source : Source} {p q : Slug → Prop} (h : source.Lists p) :
    source.Lists q ↔ ∀ slug, p slug ↔ q slug := by
  obtain ⟨slugs, hslugs, hsublist, hmem⟩ := h
  constructor
  · rintro ⟨others, hothers, -, hother⟩ slug
    obtain rfl := Except.ok.inj (hslugs.symm.trans hothers)
    exact (hmem slug).symm.trans (hother slug)
  · exact fun h => ⟨slugs, hslugs, hsublist, fun slug => (hmem slug).trans (h slug)⟩

theorem listed_true {names : List String} (root : String) (hnodup : names.Nodup)
    (hnames : ∀ name ∈ names, IsName name) :
    ∃ slugs, listed root true names = .ok slugs ∧ slugs.Sublist Slug.all ∧
      ∀ slug, slug ∈ slugs ↔ slug.fileName ∈ names := by
  refine ⟨_, rfl, Slug.mergeSort_sublist_all (Slug.nodup_filterMap_ofName? hnodup hnames), ?_⟩
  intro slug
  rw [(List.mergeSort_perm ..).mem_iff, Slug.mem_filterMap_ofName? hnames]

/-! ### Directories -/

section Directories

variable {w : Workspace} {root : String} {slug : Slug} {text : String}

/-- A directory lists the templates whose paths lead to files. -/
theorem lists_ofDirectory (hw : w.root.Proper) (hroot : w.isDirectory root) :
    (ofDirectory w root).Lists fun slug =>
      ∃ content, w.find (pathIn root slug) = .ok (.file content) := by
  have hthere : w.exists? root = true := by
    obtain ⟨entries, hfind⟩ := Workspace.isDirectory_iff.mp hroot
    rw [Workspace.exists?, hfind]
    rfl
  obtain ⟨slugs, hslugs, hsublist, hmem⟩ := listed_true root (Workspace.nodup_files hw root)
    fun name => Workspace.isName_of_mem_files hw
  refine ⟨slugs, ?_, hsublist, fun slug => ?_⟩
  · rw [← hslugs, ← hthere]
    rfl
  · rw [hmem, Workspace.mem_files hw hroot slug.isName_fileName]
    rfl

theorem fetch_of_file {content : ByteArray} (h : w.find (pathIn root slug) = .ok (.file content)) :
    (ofDirectory w root).fetch slug =
      (String.fromUTF8? content).elim (.error (.unreadable .notText)) .ok := by
  change fetched root slug (w.isFile (pathIn root slug)) (w.read (pathIn root slug)) = _
  rw [fetched, Workspace.isFile, Workspace.read, h]
  dsimp only
  cases String.fromUTF8? content <;> rfl

theorem fetch_of_no_file (h : ∀ content, w.find (pathIn root slug) ≠ .ok (.file content)) :
    (ofDirectory w root).fetch slug = .error (.notAvailable slug (some root)) := by
  change fetched root slug (w.isFile (pathIn root slug)) (w.read (pathIn root slug)) = _
  have hfile : w.isFile (pathIn root slug) = false := by
    rw [Workspace.isFile]
    cases hfind : w.find (pathIn root slug) with
    | error e => rfl
    | ok t =>
        cases t with
        | file content => exact absurd hfind (h content)
        | directory entries => rfl
  rw [fetched, hfile]
  rfl

/-- Fetching from a directory gives the text that a file has, fails at bytes that are no text, and
has nothing else to give. -/
theorem fetch_cases (w : Workspace) (root : String) (slug : Slug) :
    (∃ text, w.find (pathIn root slug) = .ok (.file text.toUTF8) ∧
        (ofDirectory w root).fetch slug = .ok text) ∨
    (∃ content, w.find (pathIn root slug) = .ok (.file content) ∧ ¬ content.IsValidUTF8 ∧
        (ofDirectory w root).fetch slug = .error (.unreadable .notText)) ∨
    ((∀ content, w.find (pathIn root slug) ≠ .ok (.file content)) ∧
        (ofDirectory w root).fetch slug = .error (.notAvailable slug (some root))) := by
  by_cases hfile : ∃ content, w.find (pathIn root slug) = .ok (.file content)
  · obtain ⟨content, hcontent⟩ := hfile
    have hfetch := fetch_of_file hcontent
    by_cases hvalid : content.IsValidUTF8
    · rw [String.fromUTF8?, dif_pos hvalid] at hfetch
      exact .inl ⟨String.fromUTF8 content hvalid, hcontent, hfetch⟩
    · rw [String.fromUTF8?, dif_neg hvalid] at hfetch
      exact .inr (.inl ⟨content, hcontent, hvalid, hfetch⟩)
  · have hnone := not_exists.mp hfile
    exact .inr (.inr ⟨hnone, fetch_of_no_file hnone⟩)

theorem fetch_eq_ok_iff :
    (ofDirectory w root).fetch slug = .ok text ↔
      w.find (pathIn root slug) = .ok (.file text.toUTF8) := by
  rcases fetch_cases w root slug with
    ⟨found, hfind, hfetch⟩ | ⟨content, hfind, hinvalid, hfetch⟩ | ⟨hnone, hfetch⟩
  · rw [hfetch, hfind]
    simp [← String.toByteArray_inj]
  · rw [hfetch, hfind]
    simp only [reduceCtorEq, Except.ok.injEq, Workspace.Tree.file.injEq, false_iff]
    rintro rfl
    exact hinvalid text.isValidUTF8
  · rw [hfetch]
    simp [hnone]

theorem fetch_eq_notText_iff :
    (ofDirectory w root).fetch slug = .error (.unreadable .notText) ↔
      ∃ content, w.find (pathIn root slug) = .ok (.file content) ∧ ¬ content.IsValidUTF8 := by
  rcases fetch_cases w root slug with
    ⟨found, hfind, hfetch⟩ | ⟨content, hfind, hinvalid, hfetch⟩ | ⟨hnone, hfetch⟩
  · rw [hfetch, hfind]
    simp [found.isValidUTF8]
  · simp [hfetch, hfind, hinvalid]
  · rw [hfetch]
    simp [hnone]

/-- There is a file exactly if fetching gets as far as reading it. -/
theorem exists_file_iff :
    (∃ content, w.find (pathIn root slug) = .ok (.file content)) ↔
      (∃ text, (ofDirectory w root).fetch slug = .ok text) ∨
        (ofDirectory w root).fetch slug = .error (.unreadable .notText) := by
  rcases fetch_cases w root slug with
    ⟨text, hfind, hfetch⟩ | ⟨content, hfind, -, hfetch⟩ | ⟨hnone, hfetch⟩
  · exact iff_of_true ⟨_, hfind⟩ (.inl ⟨text, hfetch⟩)
  · exact iff_of_true ⟨content, hfind⟩ (.inr hfetch)
  · exact iff_of_false (not_exists.mpr hnone) (by simp [hfetch])

end Directories

/-! ### Collections -/

namespace Collection

variable {slug : Slug} {text : String}

/-- A collection into which texts have been put from the first to the last. -/
def ofInserts (inserts : List (Slug × String)) : Collection :=
  inserts.foldl (fun c insert => c.insert insert.1 insert.2) empty

theorem text?_ofInserts (inserts : List (Slug × String)) (slug : Slug) :
    (ofInserts inserts).text? slug = inserts.reverse.lookup slug := by
  induction inserts using List.reverseRecOn with
  | nil => rfl
  | append_singleton inserts last ih =>
      rw [ofInserts, List.foldl_append, List.reverse_append, List.reverse_singleton,
        List.singleton_append, List.lookup_cons]
      change (if slug = last.1 then some last.2 else (ofInserts inserts).text? slug) = _
      by_cases heq : slug = last.1
      · rw [if_pos heq, beq_iff_eq.mpr heq]
      · rw [if_neg heq, ih, beq_false_of_ne heq]

theorem fetch_eq_ok {c : Collection} : c.fetch slug = .ok text ↔ c.text? slug = some text := by
  rw [fetch]
  cases c.text? slug <;> simp

/-- A collection lists the templates for which it gives texts. -/
theorem lists_toSource (c : Collection) :
    c.toSource.Lists fun slug => ∃ text, c.toSource.fetch slug = .ok text := by
  refine ⟨c.available, rfl, List.filter_sublist, fun slug => ?_⟩
  change slug ∈ c.available ↔ ∃ text, c.fetch slug = .ok text
  simp only [available, List.mem_filter, slug.mem_all, true_and, fetch_eq_ok,
    Option.isSome_iff_exists]

end Collection

/-! ### Listing and giving -/

variable {w : Workspace} {root : String}

/-- **A source lists what it has.** Whatever changes have been made before, a directory that is
there lists, in the order of the catalogue and each once, exactly the templates that it gives if and
only if the bytes of all of them are text. In any case it lists those that it gives and those whose
bytes are no text. A collection lists exactly the templates that it gives, and of each the text that
has been put last. -/
theorem available_lists_template_files (changes : List Change) (inserts : List (Slug × String))
    (hw : w.root.Proper) (hroot : (w.after changes).isDirectory root) :
    (((ofDirectory (w.after changes) root).Lists fun slug =>
        ∃ text, (ofDirectory (w.after changes) root).fetch slug = .ok text) ↔
      ∀ slug content, (w.after changes).find (pathIn root slug) = .ok (.file content) →
        content.IsValidUTF8) ∧
    ((ofDirectory (w.after changes) root).Lists fun slug =>
      (∃ text, (ofDirectory (w.after changes) root).fetch slug = .ok text) ∨
        (ofDirectory (w.after changes) root).fetch slug = .error (.unreadable .notText)) ∧
    (∀ slug,
      (∀ text, (ofDirectory (w.after changes) root).fetch slug = .ok text ↔
        (w.after changes).find (pathIn root slug) = .ok (.file text.toUTF8)) ∧
      ((ofDirectory (w.after changes) root).fetch slug = .error (.unreadable .notText) ↔
        ∃ content, (w.after changes).find (pathIn root slug) = .ok (.file content) ∧
          ¬ content.IsValidUTF8)) ∧
    ((Collection.ofInserts inserts).toSource.Lists fun slug =>
      ∃ text, (Collection.ofInserts inserts).toSource.fetch slug = .ok text) ∧
    ∀ slug text, (Collection.ofInserts inserts).toSource.fetch slug = .ok text ↔
      inserts.reverse.lookup slug = some text := by
  have hlists := lists_ofDirectory (Workspace.proper_after hw changes) hroot
  refine ⟨hlists.iff.trans ⟨fun h slug content hfind => ?_, fun h slug => ?_⟩,
    hlists.iff.mpr fun slug => exists_file_iff,
    fun slug => ⟨fun text => fetch_eq_ok_iff, fetch_eq_notText_iff⟩,
    Collection.lists_toSource _, fun slug text => ?_⟩
  · obtain ⟨text, htext⟩ := (h slug).mp ⟨content, hfind⟩
    rw [fetch_eq_ok_iff, hfind] at htext
    cases htext
    exact text.isValidUTF8
  · refine exists_file_iff.trans (or_iff_left ?_)
    intro hfetch
    obtain ⟨content, hfind, hinvalid⟩ := fetch_eq_notText_iff.mp hfetch
    exact hinvalid (h slug content hfind)
  · rw [← Collection.text?_ofInserts]
    exact Collection.fetch_eq_ok

/-- A directory with a text under the name of a template, bytes under that of another, a directory
under that of a third and a file with another name; a fourth template has been taken away. -/
def mixedChanges : List Change :=
  [.makeDirectoryOf "b/LICENCE.md/x", .write "b/README.md" ⟨#[0xff, 0xfe, 0x41]⟩,
    .write "b/SECURITY.md" "x".toUTF8, .write "b/notes.txt" "y".toUTF8,
    .write "b/publiccode.yml" "z".toUTF8, .remove "b/publiccode.yml"]

theorem available_lists_template_files_mixed :
    Workspace.empty.root.Proper ∧ (Workspace.empty.after mixedChanges).isDirectory "b" ∧
      ((ofDirectory (Workspace.empty.after mixedChanges) "b").Lists fun slug =>
        (∃ text, (ofDirectory (Workspace.empty.after mixedChanges) "b").fetch slug = .ok text) ∨
          (ofDirectory (Workspace.empty.after mixedChanges) "b").fetch slug =
            .error (.unreadable .notText)) := by
  have hroot : (Workspace.empty.after mixedChanges).isDirectory "b" := by decide +kernel
  exact ⟨Workspace.Tree.proper_empty, hroot,
    (available_lists_template_files mixedChanges [] Workspace.Tree.proper_empty hroot).2.1⟩

/-- A template whose bytes are no text is listed and cannot be given. -/
theorem unreadable_template_is_listed :
    (ofDirectory (Workspace.empty.after mixedChanges) "b").available = .ok [.security, .readme] ∧
      (ofDirectory (Workspace.empty.after mixedChanges) "b").fetch .readme =
        .error (.unreadable .notText) ∧
      ¬ (ofDirectory (Workspace.empty.after mixedChanges) "b").Lists fun slug =>
        ∃ text, (ofDirectory (Workspace.empty.after mixedChanges) "b").fetch slug = .ok text := by
  have hthere : (Workspace.empty.after mixedChanges).exists? "b" = true := by decide +kernel
  have hnames : ((Workspace.empty.after mixedChanges).files "b").filterMap Slug.ofName? =
      [.readme, .security] := by decide +kernel
  have hfetch : (ofDirectory (Workspace.empty.after mixedChanges) "b").fetch .readme =
      .error (.unreadable .notText) := by decide +kernel
  have havailable : (ofDirectory (Workspace.empty.after mixedChanges) "b").available =
      .ok [.security, .readme] := by
    rw [ofDirectory, hthere, listed, hnames]
    simp [List.mergeSort, Slug.rank, Slug.all]
  refine ⟨havailable, hfetch, ?_⟩
  rintro ⟨slugs, hslugs, -, hmem⟩
  obtain rfl := Except.ok.inj (havailable.symm.trans hslugs)
  obtain ⟨text, htext⟩ := (hmem .readme).mp (by simp)
  rw [hfetch] at htext
  cases htext

end ResourceApi.Template
