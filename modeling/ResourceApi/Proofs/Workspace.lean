import ResourceApi.Workspace.Basic

/-!
Files that are written can be read. Writing a file takes no directory away, so the path leads to the
same place afterwards, and the file can be written again.
-/

namespace ResourceApi.Workspace

namespace Tree

variable {t : Tree} {place names : List String} {content : ByteArray}

/-- A directory is at the end of the names. -/
def HasDirectory (t : Tree) (names : List String) : Prop :=
  ∃ entries, t.get? names = some (.directory entries)

/-- A file that is put where no directory is takes no directory away. -/
theorem HasDirectory.put_file (hplace : t.HasDirectory place) (hfree : ¬ t.HasDirectory names) :
    (t.put names (.file content)).HasDirectory place := by
  induction names generalizing t place with
  | nil =>
      cases t with
      | file c =>
          obtain ⟨entries, hentries⟩ := hplace
          cases place <;> simp [get?] at hentries
      | directory entries => exact absurd ⟨entries, rfl⟩ hfree
  | cons name names ih =>
      cases t with
      | file c => exact hplace
      | directory entries =>
          cases place with
          | nil => exact ⟨_, rfl⟩
          | cons other place =>
              obtain ⟨inner, hinner⟩ := hplace
              obtain ⟨u, hu, hget⟩ := Option.bind_eq_some_iff.mp hinner
              rw [put, HasDirectory, get?]
              by_cases hname : other = name
              · subst hname
                have hrest : ¬ u.HasDirectory names := by
                  rintro ⟨found, hfound⟩
                  exact hfree ⟨found, by rw [get?, hu, Option.bind_some, hfound]⟩
                rw [Entries.find?_put_self, Option.bind_some, hu, Option.getD_some]
                exact ih ⟨inner, hget⟩ hrest
              · rw [Entries.find?_put_of_ne hname, hu, Option.bind_some]
                exact ⟨inner, hget⟩

end Tree

variable {w w' : Workspace} {path text : String} {name : String} {names : List String}
  {place found : List String}

/-- Where a name leads from a directory. -/
def through (place : List String) (name : String) : List String :=
  if name = "." then place else if name = ".." then place.dropLast else place ++ [name]

/-- Each name is followed from a directory. -/
theorem follow_cons_eq_ok :
    w.follow place (name :: names) = .ok found ↔
      w.root.HasDirectory place ∧ w.follow (through place name) names = .ok found := by
  rw [follow, Tree.HasDirectory]
  cases hget : w.root.get? place with
  | none => simp
  | some t =>
      cases t with
      | file content => simp
      | directory entries =>
          rw [through]
          by_cases hdot : name = "."
          · simp [hdot]
          · by_cases hup : name = ".." <;> simp [hdot, hup]

/-- Where there are no fewer directories, names lead to the same place. -/
theorem follow_mono (h : ∀ p, w.root.HasDirectory p → w'.root.HasDirectory p)
    (hfollow : w.follow place names = .ok found) : w'.follow place names = .ok found := by
  induction names generalizing place with
  | nil => exact hfollow
  | cons name names ih =>
      obtain ⟨hplace, hrest⟩ := follow_cons_eq_ok.mp hfollow
      exact follow_cons_eq_ok.mpr ⟨h place hplace, ih hrest⟩

/-- Names lead through directories. -/
theorem hasDirectory_of_follow
    (hplace : ∀ front, front <+: place → front ≠ place → w.root.HasDirectory front)
    (hfollow : w.follow place names = .ok found) :
    ∀ front, front <+: found → front ≠ found → w.root.HasDirectory front := by
  induction names generalizing place with
  | nil =>
      obtain rfl : place = found := by simpa [follow] using hfollow
      exact hplace
  | cons name names ih =>
      obtain ⟨hdirectory, hrest⟩ := follow_cons_eq_ok.mp hfollow
      have hall : ∀ front, front <+: place → w.root.HasDirectory front := by
        intro front hfront
        by_cases heq : front = place
        · rwa [heq]
        · exact hplace front hfront heq
      refine ih (fun front hfront hne => hall front ?_) hrest
      rw [through] at hfront hne
      split at hfront
      · exact hfront
      · split at hfront
        · exact hfront.trans (List.dropLast_prefix place)
        · rename_i hdot hup
          rw [if_neg hdot, if_neg hup] at hne
          exact (List.prefix_concat_iff.mp hfront).resolve_left hne

theorem locate_eq_ok :
    w.locate path = .ok place ↔
      ¬ (path.isEmpty ∨ Path.isAbsolute path) ∧ w.follow [] (Path.names path) = .ok place := by
  rw [locate]
  split <;> simp_all

theorem target_eq_ok :
    w.target path = .ok place ↔ w.locate path = .ok place ∧ ¬ w.root.HasDirectory place := by
  rw [target]
  cases hlocate : w.locate path with
  | error e =>
      cases e with
      | notFound => by_cases hslash : Path.endsInSlash path ∧
          (w.follow [] (Path.names path).dropLast).isOk <;> simp [hslash]
      | _ => simp
  | ok found =>
      dsimp only
      split
      · rename_i entries hentries
        simp only [reduceCtorEq, Except.ok.injEq, false_iff]
        rintro ⟨rfl, hfree⟩
        exact hfree ⟨entries, hentries⟩
      · rename_i hfree
        simp only [Except.ok.injEq]
        refine ⟨?_, And.left⟩
        rintro rfl
        exact ⟨rfl, fun ⟨entries, hentries⟩ => hfree entries hentries⟩

/-! ### Directories that are there -/

/-- Where names lead on to another name, no directory is missing, whether dots count or not. -/
theorem makeDirectories_of_follow {last : String}
    (h : w.follow place (names ++ [last]) = .ok found) :
    w.makeDirectories place (names.filter fun name => name ≠ ".") = .ok w := by
  induction names generalizing place with
  | nil => rfl
  | cons name names ih =>
      rw [List.cons_append] at h
      obtain ⟨-, hrest⟩ := follow_cons_eq_ok.mp h
      have hmade := ih hrest
      rw [through] at hrest hmade
      by_cases hdot : name = "."
      · rw [if_pos hdot] at hmade
        rwa [List.filter_cons_of_neg (by simp [hdot])]
      · rw [if_neg hdot] at hrest hmade
        rw [List.filter_cons_of_pos (by simp [hdot]), makeDirectories, if_neg hdot]
        by_cases hup : name = ".."
        · rw [if_pos hup] at hmade
          rwa [if_pos hup]
        · rw [if_neg hup] at hrest hmade
          obtain ⟨next, more, hnext⟩ : ∃ next more, names ++ [last] = next :: more :=
            List.exists_cons_of_ne_nil (by simp)
          rw [hnext] at hrest
          obtain ⟨⟨entries, hentries⟩, -⟩ := follow_cons_eq_ok.mp hrest
          rw [if_neg hup, hentries]
          exact hmade

theorem makeDirectories_cons_filter (first : String) :
    w.makeDirectories place (first :: names.filter fun name => name ≠ ".") =
      w.makeDirectories place ((first :: names).filter fun name => name ≠ ".") := by
  by_cases hdot : first = "."
  · rw [List.filter_cons_of_neg (by simp [hdot]), makeDirectories, if_pos hdot]
  · rw [List.filter_cons_of_pos (by simp [hdot])]

theorem ne_dot_of_follow {last : String} (h : w.follow place (names ++ [last]) = .ok found)
    (hfree : ¬ w.root.HasDirectory found) : last ≠ "." := by
  induction names generalizing place with
  | nil =>
      obtain ⟨hplace, hlast⟩ := follow_cons_eq_ok.mp h
      rintro rfl
      obtain rfl : place = found := Except.ok.inj hlast
      exact hfree hplace
  | cons name names ih => exact ih (follow_cons_eq_ok.mp h).2

/-- A file that can be written stands in a directory that is there. -/
theorem makeDirectoryOf_of_target (h : (w.target path).isOk) : w.makeDirectoryOf path = .ok w := by
  cases htarget : w.target path with
  | error e =>
      rw [htarget] at h
      cases h
  | ok place =>
      obtain ⟨hlocate, hfree⟩ := target_eq_ok.mp htarget
      obtain ⟨-, hfollow⟩ := locate_eq_ok.mp hlocate
      rw [makeDirectoryOf, Path.directory, Path.components]
      cases hnames : Path.names path with
      | nil => rfl
      | cons first rest =>
          rw [hnames] at hfollow
          dsimp only
          rcases List.eq_nil_or_concat rest with rfl | ⟨rest, last, rfl⟩
          · rfl
          · rw [List.concat_eq_append] at hfollow ⊢
            rw [← List.cons_append] at hfollow
            have hdot : last ≠ "." := ne_dot_of_follow hfollow hfree
            have hdirectory : (first :: (rest ++ [last]).filter fun name => name ≠ ".").dropLast =
                first :: rest.filter fun name => name ≠ "." := by
              rw [List.filter_append, List.filter_cons_of_pos (by simp [hdot]), List.filter_nil,
                ← List.cons_append, List.dropLast_concat]
            rw [hdirectory, makeDirectories_cons_filter]
            exact makeDirectories_of_follow hfollow

theorem fromUTF8?_toUTF8 (text : String) : String.fromUTF8? text.toUTF8 = some text :=
  dif_pos text.isValidUTF8

/-- What is written is read, and the file can be written again. -/
theorem read_write (h : w.write path text = .ok w') :
    w'.read path = .ok text ∧ w'.target path = w.target path := by
  rw [write, writeBytes] at h
  cases htarget : w.target path with
  | error e => simp [htarget, Except.map] at h
  | ok place =>
      obtain rfl : ⟨w.root.put place (.file text.toUTF8)⟩ = w' := by
        simpa [htarget, Except.map] using h
      obtain ⟨hlocate, hfree⟩ := target_eq_ok.mp htarget
      obtain ⟨hrelative, hfollow⟩ := locate_eq_ok.mp hlocate
      have hopen : ∀ front, front <+: place → front ≠ place → w.root.HasDirectory front :=
        hasDirectory_of_follow (by simp) hfollow
      have hput : (w.root.put place (.file text.toUTF8)).get? place =
          some (.file text.toUTF8) := by
        apply Tree.get?_put_self
        intro front hfront hne content hcontent
        obtain ⟨entries, hentries⟩ := hopen front hfront hne
        rw [hcontent] at hentries
        cases hentries
      have hlocate' : locate ⟨w.root.put place (.file text.toUTF8)⟩ path = .ok place :=
        locate_eq_ok.mpr ⟨hrelative, follow_mono (fun p hp => hp.put_file hfree) hfollow⟩
      constructor
      · rw [read, find, hlocate']
        simp only [hput, fromUTF8?_toUTF8]
      · apply target_eq_ok.mpr
        refine ⟨hlocate', ?_⟩
        rintro ⟨entries, hentries⟩
        rw [hput] at hentries
        cases hentries

end ResourceApi.Workspace
