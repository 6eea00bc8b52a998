import ResourceApi.Proofs.Yaml.Blocks

/-!
The whole text of an object. It holds only characters that may stand in a text, and it is read as
the tokens of the object.
-/

namespace ResourceApi.Yaml

open Token (isAllowed)

/-! ### Characters -/

theorem isAllowed_of_ascii {x : Char} (hlow : ' ' ≤ x) (hhigh : x ≤ '~') : isAllowed x = true := by
  simp [isAllowed, hlow, hhigh]

theorem isAllowed_of_wide {x : Char} (hlow : 0xa0 ≤ x.toNat)
    (hmark : x.toNat ≠ 0xfffe ∧ x.toNat ≠ 0xffff) : isAllowed x = true := by
  have hle : '\xa0' ≤ x := hlow
  have hfirst : x ≠ '\ufffe' := fun heq => hmark.1 (by rw [heq]; rfl)
  have hsecond : x ≠ '\uffff' := fun heq => hmark.2 (by rw [heq]; rfl)
  simp [isAllowed, hle, hfirst, hsecond]

theorem isAllowed_of_isPrintable {x : Char} (h : isPrintable x = true) : isAllowed x = true := by
  simp only [isPrintable, Bool.or_eq_true, Bool.and_eq_true, decide_eq_true_eq] at h
  rcases h with (((rfl | ⟨hlow, hhigh⟩) | ⟨hlow, hhigh⟩) | ⟨⟨hlow, hhigh⟩, -⟩) | hlow
  · decide
  · exact isAllowed_of_ascii hlow hhigh
  · have hlow' : 0xa0 ≤ x.toNat := hlow
    have hhigh' : x.toNat ≤ 0xd7ff := hhigh
    exact isAllowed_of_wide hlow' (by omega)
  · have hlow' : 0xe000 ≤ x.toNat := hlow
    have hhigh' : x.toNat ≤ 0xfffd := hhigh
    exact isAllowed_of_wide (by omega) (by omega)
  · exact isAllowed_of_wide (by omega) (by omega)

/-- All characters of the text may stand in a text. -/
def AllAllowed (text : List Char) : Prop := ∀ x ∈ text, isAllowed x = true

theorem allAllowed_of_all {s : List Char} (h : s.all isAllowed = true) : AllAllowed s :=
  List.all_eq_true.mp h

theorem allAllowed_append {s t : List Char} (hs : AllAllowed s) (ht : AllAllowed t) :
    AllAllowed (s ++ t) := by
  intro x hx
  exact (List.mem_append.mp hx).elim (hs x) (ht x)

theorem allAllowed_endLine {s : List Char} (hs : AllAllowed s) : AllAllowed (endLine s) := by
  intro x hx
  rcases mem_endLine hx with hx | rfl
  · exact hs x hx
  · decide

theorem allAllowed_pad (n : Nat) : AllAllowed (pad n) := by
  intro x hx
  rw [eq_space_of_mem_pad hx]
  decide

theorem isAllowed_of_hexValue? {x : Char} {d : Nat} (h : hexValue? x = some d) :
    isAllowed x = true := by
  rw [hexValue?] at h
  split_ifs at h with hdigit hlower hupper
  · exact isAllowed_of_ascii (Char.le_trans (by decide) hdigit.1)
      (Char.le_trans hdigit.2 (by decide))
  · exact isAllowed_of_ascii (Char.le_trans (by decide) hlower.1)
      (Char.le_trans hlower.2 (by decide))
  · exact isAllowed_of_ascii (Char.le_trans (by decide) hupper.1)
      (Char.le_trans hupper.2 (by decide))

theorem allAllowed_hexDigits (width n : Nat) : AllAllowed (hexDigits width n) := by
  intro x hx
  obtain ⟨d, hd⟩ := (isHex_hexDigits width n).exists_hexValue? x hx
  exact isAllowed_of_hexValue? hd

theorem allAllowed_escaped (x : Char) : AllAllowed (escaped x) := by
  unfold escaped
  simp only
  split
  · next letter hletter =>
      obtain ⟨before, behind, hshort, -⟩ := List.lookup_eq_some_iff.mp hletter
      have hletters : ∀ pair ∈ before ++ (x, letter) :: behind, isAllowed pair.2 = true := by
        rw [← hshort, ← List.all_eq_true]
        decide
      intro y hy
      rcases List.mem_cons.mp hy with rfl | hy
      · decide
      · rw [List.mem_singleton.mp hy]
        exact hletters (x, letter) (by simp)
  · split_ifs
    · exact allAllowed_append (allAllowed_of_all (by decide)) (allAllowed_hexDigits 2 _)
    · exact allAllowed_append (allAllowed_of_all (by decide)) (allAllowed_hexDigits 4 _)
    · exact allAllowed_append (allAllowed_of_all (by decide)) (allAllowed_hexDigits 8 _)

theorem allAllowed_flatMap {s : List Char} {f : Char → List Char}
    (hf : ∀ x ∈ s, AllAllowed (f x)) : AllAllowed (s.flatMap f) := by
  intro y hy
  obtain ⟨x, hx, hy⟩ := List.mem_flatMap.mp hy
  exact hf x hx y hy

theorem allAllowed_indentLines (n : Nat) (start : Bool) {s : List Char} (hs : AllAllowed s) :
    AllAllowed (indentLines n start s) := by
  intro x hx
  rcases mem_indentLines hx with rfl | hx
  · decide
  · exact hs x hx

theorem allAllowed_cons {x : Char} {s : List Char} (hx : isAllowed x = true) (hs : AllAllowed s) :
    AllAllowed (x :: s) := List.forall_mem_cons.mpr ⟨hx, hs⟩

theorem allAllowed_of_hasUnprintable {s : List Char} (h : hasUnprintable s = false) :
    AllAllowed s := fun x hx => isAllowed_of_isPrintable (isPrintable_of_hasUnprintable h x hx)

theorem allAllowed_doubleQuoted (s : List Char) : AllAllowed (doubleQuoted s) := by
  rw [doubleQuoted_eq]
  refine allAllowed_cons (by decide) (allAllowed_append (allAllowed_flatMap fun x _ => ?_)
    (allAllowed_cons (by decide) (by simp [AllAllowed])))
  rw [doubleChar]
  split
  · exact allAllowed_escaped x
  · next h =>
      simp only [Bool.or_eq_true, Bool.not_eq_true', decide_eq_true_eq, not_or,
        Bool.not_eq_false] at h
      exact allAllowed_cons (isAllowed_of_isPrintable h.1.1.1) (by simp [AllAllowed])

theorem allAllowed_singleQuoted (n : Nat) {s : List Char} (hs : AllAllowed s) :
    AllAllowed (singleQuoted n s) := by
  have hbody : AllAllowed (singleBody n false s) := by
    rw [singleBody]
    refine allAllowed_append (allAllowed_flatMap fun x hx => ?_) ?_
    · have hx' := allAllowed_indentLines n false hs x hx
      rw [singleChar]
      split
      · exact allAllowed_cons (by decide) (allAllowed_cons (by decide) (by simp [AllAllowed]))
      · exact allAllowed_cons hx' (by simp [AllAllowed])
    · split
      · split
        · exact allAllowed_pad n
        · simp [AllAllowed]
      · simp [AllAllowed]
  rw [singleQuoted_eq]
  exact allAllowed_cons (by decide)
    (allAllowed_append hbody (allAllowed_cons (by decide) (by simp [AllAllowed])))

theorem allAllowed_literalText (n : Nat) {s : List Char} (hs : AllAllowed s) :
    AllAllowed (literalText n s) := by
  have hchomp : (chompMark s).all isAllowed = true := by
    unfold chompMark
    repeat' split
    all_goals decide
  have hmarks : AllAllowed ((if hidesIndentation s then ['2'] else []) ++ chompMark s) := by
    refine allAllowed_append (allAllowed_of_all ?_) (allAllowed_of_all hchomp)
    split <;> decide
  rw [literalText_eq]
  exact allAllowed_cons (by decide)
    (allAllowed_append hmarks (allAllowed_cons (by decide) (allAllowed_indentLines n true hs)))

theorem allAllowed_stringText (n : Nat) (s : List Char) : AllAllowed (stringText n s) := by
  rw [stringText, Style.ofText]
  split_ifs with hfeed hliteral hplain hsingle
  · simp only [literalAllowed, Bool.not_eq_true', Bool.or_eq_false_iff] at hliteral
    exact allAllowed_literalText n (allAllowed_of_hasUnprintable hliteral.1.1)
  · exact allAllowed_doubleQuoted s
  · simp only [plainAllowed, Bool.and_eq_true, Bool.not_eq_true', Bool.or_eq_false_iff] at hplain
    exact allAllowed_of_hasUnprintable hplain.1.1.1.1.2
  · simp only [singleAllowed, Bool.not_eq_true', Bool.or_eq_false_iff] at hsingle
    exact allAllowed_singleQuoted n (allAllowed_of_hasUnprintable hsingle.1.1)
  · exact allAllowed_doubleQuoted s

/-! ### Tokens -/

theorem render_object (entry : String × Json) (entries : List (String × Json)) :
    (render (.object (entry :: entries))).toList = membersBody 0 (entry :: entries) := by
  rw [render, String.toList_ofList, leaf?_members, block, blockMembers_cons]
  rfl

/-- The text of an object is read to its end. -/
theorem run_membersBody {members : List (String × Json)} (hne : members ≠ [])
    (hmembers : ∀ entry ∈ members, Numberless entry.2) :
    ∃ v, Token.Scan.run ((membersBody 0 members).length + 2) (.start (membersBody 0 members)) =
        some v ∧
      Token.splice v.count v.tokens (v.marks.mergeSort fun a b => decide (b.1 ≤ a.1)) [] =
        .mappingStart :: (membersTokens members ++ [.blockEnd]) := by
  -- At the start no block is open; the members open one at column zero, which the end closes.
  obtain ⟨text, htext⟩ : ∃ text, text = membersBody 0 members := ⟨_, rfl⟩
  have hopens : Token.Scan.Opens (membersBody 0 members ++ (pad 0 ++ [])) := by
    obtain ⟨entry, entries, rfl⟩ := List.exists_cons_of_ne_nil hne
    exact Token.Scan.opens_membersBody 0 entry entries _
  have hstart : (Token.Scan.start text).Before (membersBody 0 members ++ (pad 0 ++ [])) 0 true
      [-1] [] := by
    refine Token.Scan.before_pad (j := 0) (by simp [Token.Scan.start, Cursor.ofChars, htext, pad])
      hopens rfl (.of_none rfl) rfl ⟨rfl, rfl, ⟨rfl, by simp [Token.Scan.start], ?_⟩⟩
    simp [Token.Scan.start]
  obtain ⟨s, ⟨n, hn, hrun⟩, hbefore⟩ := hstart.members hne
    (fun entry hentry => Token.Scan.follows (hmembers entry hentry)) (by decide) (Nat.le_refl 0)
    (by intro x hx; cases hx)
  have hlength : n ≤ text.length := Nat.le_trans (Nat.le_add_right n _) hn
  obtain ⟨v, hv, hsplice⟩ := Token.Scan.Before.finish (k := 0) hbefore (text.length + 1 - n)
  refine ⟨v, ?_, ?_⟩
  · rw [← htext, ← hv, ← hrun]
    congr 1
    omega
  · rw [hsplice]
    simp [Token.Scan.startAt]

/-! ### Reading -/

theorem allAllowed_lead (n : Nat) (marked : Bool) : AllAllowed (lead n marked) := by
  rw [lead]
  split
  · exact allAllowed_pad 1
  · exact allAllowed_pad n

theorem allAllowed_behindMark {leaf : Option (List Char)} {block : List Char}
    (hleaf : ∀ w ∈ leaf, AllAllowed w) (hblock : AllAllowed block) :
    AllAllowed (behindMark leaf block) := by
  cases leaf with
  | none => exact hblock
  | some w => exact allAllowed_cons (by decide) (allAllowed_endLine (hleaf w rfl))

/-- The text of a value holds only characters that may stand in a text. -/
structure WritesAllowed (v : Json) : Prop where
  leaf : ∀ n, ∀ w ∈ leaf? n v, AllAllowed w
  block : ∀ i j marked, AllAllowed (block i j marked v)

theorem allAllowed_blockItems {items : List Json} (h : ∀ v ∈ items, WritesAllowed v) (n : Nat)
    (marked : Bool) : AllAllowed (blockItems n marked items) := by
  induction items generalizing marked with
  | nil => simp [AllAllowed, blockItems]
  | cons item items ih =>
      obtain ⟨hitem, hitems⟩ := List.forall_mem_cons.mp h
      rw [blockItems_cons, itemsBody]
      exact allAllowed_append (allAllowed_lead n marked) (allAllowed_cons (by decide)
        (allAllowed_append (allAllowed_behindMark (hitem.leaf _) (hitem.block _ _ _))
          (ih hitems false)))

theorem allAllowed_blockMember {v : Json} (key : String) (hv : WritesAllowed v) (n : Nat) :
    AllAllowed (blockMember n (key, v)) := by
  have hkey := allAllowed_stringText (n + 2) key.toList
  rw [blockMember]
  split
  · exact allAllowed_append (allAllowed_append hkey (allAllowed_of_all (by decide)))
      (allAllowed_behindMark (hv.leaf _) (allAllowed_cons (by decide) (hv.block _ _ _)))
  · exact allAllowed_append (allAllowed_append (allAllowed_append
      (allAllowed_append (allAllowed_of_all (by decide)) (allAllowed_endLine hkey))
      (allAllowed_pad n)) (allAllowed_of_all (by decide)))
      (allAllowed_behindMark (hv.leaf _) (hv.block _ _ _))

theorem allAllowed_blockMembers {members : List (String × Json)}
    (h : ∀ entry ∈ members, WritesAllowed entry.2) (n : Nat) (marked : Bool) :
    AllAllowed (blockMembers n marked members) := by
  induction members generalizing marked with
  | nil => simp [AllAllowed, blockMembers]
  | cons entry entries ih =>
      obtain ⟨hentry, hentries⟩ := List.forall_mem_cons.mp h
      rw [blockMembers]
      exact allAllowed_append (allAllowed_append (allAllowed_lead n marked)
        (allAllowed_blockMember entry.1 hentry n)) (ih hentries false)

theorem writesAllowed {v : Json} (hv : Numberless v) : WritesAllowed v := by
  induction hv with
  | null =>
      refine ⟨fun n w hw => ?_, by simp [block, AllAllowed]⟩
      obtain rfl := Option.some.inj hw
      exact allAllowed_of_all (by decide)
  | bool b =>
      refine ⟨fun n w hw => ?_, by simp [block, AllAllowed]⟩
      obtain rfl := Option.some.inj hw
      exact allAllowed_of_all (by cases b <;> decide)
  | string key =>
      refine ⟨fun n w hw => ?_, by simp [block, AllAllowed]⟩
      obtain rfl := Option.some.inj hw
      exact allAllowed_stringText n key.toList
  | @array items hitems ih =>
      refine ⟨fun n w hw => ?_, fun i j marked => allAllowed_blockItems ih i marked⟩
      cases items with
      | nil =>
          obtain rfl := Option.some.inj hw
          exact allAllowed_of_all (by decide)
      | cons item items => cases hw
  | @object members hmembers ih =>
      refine ⟨fun n w hw => ?_, fun i j marked => allAllowed_blockMembers ih j marked⟩
      cases members with
      | nil =>
          obtain rfl := Option.some.inj hw
          exact allAllowed_of_all (by decide)
      | cons entry entries => cases hw

/-- The text of an object is read as the tokens of the object. -/
theorem scan_render {members : List (String × Json)} (hne : members ≠ [])
    (hmembers : ∀ entry ∈ members, Numberless entry.2) :
    Token.scan (render (.object members)) =
      some (.mappingStart :: (membersTokens members ++ [.blockEnd])) := by
  obtain ⟨entry, entries, rfl⟩ := List.exists_cons_of_ne_nil hne
  obtain ⟨v, hrun, hsplice⟩ := run_membersBody hne hmembers
  have hallowed : (membersBody 0 (entry :: entries)).all isAllowed = true := by
    rw [List.all_eq_true, ← List.nil_append (membersBody _ _)]
    exact allAllowed_blockMembers (fun e he => writesAllowed (hmembers e he)) 0 false
  rw [Token.scan, render_object]
  simp only [hallowed, Bool.not_true, Bool.false_eq_true, if_false, hrun, Option.map_some, hsplice]

end ResourceApi.Yaml
