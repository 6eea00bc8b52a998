import ResourceApi.Proofs.Yaml.Strings

/-!
Blocks of items and members. What stands behind a mark is a leaf on the same line or a block that is
further in; the items of the value of a key may stand at its column. The tokens of a value are those
of its parts, between the start and the end of a block where it has one of its own.
-/

namespace ResourceApi.Yaml

/-- Values in which no number occurs. -/
inductive Numberless : Json → Prop where
  | null : Numberless .null
  | bool (b : Bool) : Numberless (.bool b)
  | string (s : String) : Numberless (.string s)
  | array {items : List Json} (h : ∀ v ∈ items, Numberless v) : Numberless (.array items)
  | object {members : List (String × Json)} (h : ∀ entry ∈ members, Numberless entry.2) :
      Numberless (.object members)

/-! ### Tokens -/

mutual

/-- The tokens of a value. The items of an array at the column of its key have no block of their
own. -/
def valueTokens (level : Bool) : Json → List Token
  | .null => [.scalar .plain "null"]
  | .bool b => [.scalar .plain (if b then "true" else "false")]
  | .number n => [.scalar .plain n.render]
  | .string s => [.scalar (Style.ofText s.toList) s]
  | .array [] => [.openBracket, .closeBracket]
  | .array (item :: items) =>
    if level then itemTokens (item :: items)
    else .sequenceStart :: (itemTokens (item :: items) ++ [.blockEnd])
  | .object [] => [.openBrace, .closeBrace]
  | .object (entry :: entries) => .mappingStart :: (membersTokens (entry :: entries) ++ [.blockEnd])

def itemTokens : List Json → List Token
  | [] => []
  | item :: items => .entry :: (valueTokens false item ++ itemTokens items)

def membersTokens : List (String × Json) → List Token
  | [] => []
  | entry :: entries => memberTokens entry ++ membersTokens entries

def memberTokens : String × Json → List Token
  | (key, v) =>
    [.key, .scalar (Style.ofText key.toList) key, .value] ++ valueTokens (isSimpleKey key) v

end

/-! ### Text -/

/-- The text of items from the mark of the first. -/
def itemsBody (n : Nat) : List Json → List Char
  | [] => []
  | item :: items =>
    '-' :: (behindMark (leaf? (n + 2) item) (block (n + 2) (n + 2) true item)
      ++ blockItems n false items)

/-- The text of members from the key of the first. -/
def membersBody (n : Nat) : List (String × Json) → List Char
  | [] => []
  | entry :: entries => blockMember n entry ++ blockMembers n false entries

theorem blockItems_cons (n : Nat) (marked : Bool) (item : Json) (items : List Json) :
    blockItems n marked (item :: items) = lead n marked ++ itemsBody n (item :: items) := by
  rw [blockItems, itemsBody]
  simp

theorem blockMembers_cons (n : Nat) (marked : Bool) (entry : String × Json)
    (entries : List (String × Json)) :
    blockMembers n marked (entry :: entries) =
      lead n marked ++ membersBody n (entry :: entries) := by
  rw [blockMembers, membersBody, List.append_assoc]

theorem leaf?_items (n : Nat) (item : Json) (items : List Json) :
    leaf? n (.array (item :: items)) = none := rfl

theorem leaf?_members (n : Nat) (entry : String × Json) (entries : List (String × Json)) :
    leaf? n (.object (entry :: entries)) = none := rfl

namespace Token.Scan

variable {s : Scan} {text rest : List Char} {k k' m n : Nat} {allowed : Bool} {outer : List Int}
  {done : List Token} {b : Int} {v : Json}

/-! ### Leaves -/

theorem Scalar.opens {style : Style} {w chars : List Char} (hw : Scalar style w chars)
    (rest : List Char) : Opens (w ++ rest) := by
  cases hw with
  | plain hs hbegins hbom =>
      obtain ⟨y, t, rfl, hblank, hbreak⟩ := hs.exists_cons
      have hcomment : y ≠ '#' := ne_of_isIndicator (beginsMarkup_cons hbegins).1 (by decide)
      refine opens_cons ⟨hblank, hbreak, hcomment, ?_⟩ _
      rintro rfl
      exact hbom rfl
  | single h => exact opens_cons (by decide) _
  | double h => exact opens_cons (by decide) _

/-- A string on the line of its mark, in any style. -/
theorem Before.string (key : List Char)
    (h : s.Before (endLine (stringText (k + 2) key) ++ (pad k' ++ text)) m allowed (k :: outer)
      done)
    (hm : k < m) (hk : k' ≤ k) (htext : Opens text) :
    ∃ s', s.Advances s' ∧ s'.Before text k' true (k :: outer)
      (done ++ [.scalar (Style.ofText key) (String.ofList key)]) := by
  by_cases hstyle : Style.ofText key = .literal
  · obtain ⟨hne, hprint⟩ := isPrintable_of_literal hstyle
    rw [stringText, hstyle] at h
    rw [hstyle]
    exact h.literal hne hprint hm hk htext
  · have hw := scalar_stringText (k + 1) hstyle
    rw [endLine_scalar hw, List.append_assoc] at h
    exact h.scalar hw hm hk htext

theorem opens_stringText (key : List Char) (rest : List Char) :
    Opens (endLine (stringText (k + 2) key) ++ rest) := by
  by_cases hstyle : Style.ofText key = .literal
  · obtain ⟨hne, -⟩ := isPrintable_of_literal hstyle
    rw [stringText, hstyle]
    change Opens (endLine (literalText (k + 2) key) ++ rest)
    rw [endLine_literalText _ hne]
    exact opens_cons (by decide) _
  · have hw := scalar_stringText (k + 1) hstyle
    rw [endLine_scalar hw, List.append_assoc]
    exact hw.opens _

/-- The words for null and for truth values are written without quotes. -/
theorem scalar_bool (b : Bool) : Scalar .plain (if b then "true" else "false").toList
    (if b then "true" else "false").toList := by
  cases b <;> exact scalar_plain (by decide) (by decide)

theorem scalar_null : Scalar .plain "null".toList "null".toList :=
  scalar_plain (by decide) (by decide)

/-- A leaf on the line of its mark. -/
theorem Before.leaf {w : List Char} (hv : Numberless v) (hleaf : leaf? (k + 2) v = some w)
    (h : s.Before (endLine w ++ (pad k' ++ text)) m allowed (k :: outer) done) (hm : k < m)
    (hk : k' ≤ k) (htext : Opens text) (level : Bool) :
    ∃ s', s.Advances s' ∧ s'.Before text k' true (k :: outer) (done ++ valueTokens level v) := by
  cases hv with
  | null =>
      obtain rfl := Option.some.inj hleaf
      rw [endLine_scalar scalar_null, List.append_assoc] at h
      exact h.scalar scalar_null hm hk htext
  | bool b =>
      obtain rfl := Option.some.inj hleaf
      rw [endLine_scalar (scalar_bool b), List.append_assoc] at h
      have hread := h.scalar (scalar_bool b) hm hk htext
      rw [String.ofList_toList] at hread
      exact hread
  | string key =>
      obtain rfl := Option.some.inj hleaf
      have hread := h.string key.toList hm hk htext
      rw [String.ofList_toList] at hread
      exact hread
  | @array items hitems =>
      cases items with
      | nil =>
          obtain rfl := Option.some.inj hleaf
          exact h.empty .sequence hm htext
      | cons item items => cases hleaf
  | @object members hmembers =>
      cases members with
      | nil =>
          obtain rfl := Option.some.inj hleaf
          exact h.empty .mapping hm htext
      | cons entry entries => cases hleaf

theorem opens_leaf {w : List Char} (hv : Numberless v) (hleaf : leaf? (k + 2) v = some w)
    (rest : List Char) : Opens (endLine w ++ rest) := by
  cases hv with
  | null =>
      obtain rfl := Option.some.inj hleaf
      rw [endLine_scalar scalar_null, List.append_assoc]
      exact scalar_null.opens _
  | bool b =>
      obtain rfl := Option.some.inj hleaf
      rw [endLine_scalar (scalar_bool b), List.append_assoc]
      exact (scalar_bool b).opens _
  | string key =>
      obtain rfl := Option.some.inj hleaf
      exact opens_stringText key.toList rest
  | @array items hitems =>
      cases items with
      | nil =>
          obtain rfl := Option.some.inj hleaf
          exact Brackets.sequence.opens_open _
      | cons item items => cases hleaf
  | @object members hmembers =>
      cases members with
      | nil =>
          obtain rfl := Option.some.inj hleaf
          exact Brackets.mapping.opens_open _
      | cons entry entries => cases hleaf

/-! ### Blocks -/

/-- Behind a mark that stands alone, the text of the value becomes its tokens. -/
def Follows (v : Json) : Prop :=
  ∀ {s : Scan} {text : List Char} {k k' : Nat} {outer : List Int} {done : List Token},
    s.Ready (behindMark (leaf? (k + 2) v) (block (k + 2) (k + 2) true v) ++ (pad k' ++ text))
      (k + 1) true (k :: outer) done →
    k' ≤ k → Opens text →
    ∃ s', s.Advances s' ∧ s'.Before text k' true (k :: outer) (done ++ valueTokens false v)

/-- The same behind the colon of a key. -/
def FollowsKey (v : Json) : Prop :=
  ∀ {s : Scan} {text : List Char} {k k' m : Nat} {outer : List Int} {done : List Token},
    s.Ready (behindMark (leaf? (k + 2) v) ('\n' :: block k (k + 2) false v) ++ (pad k' ++ text))
      m false (k :: outer) done →
    k < m → k' ≤ k → Opens text →
    ∃ s', s.Advances s' ∧ s'.Before text k' true (k :: outer) (done ++ valueTokens true v)

theorem columnsAt_eq_cons (hb : b ≤ n) (outer : List Int) :
    ∃ tail, columnsAt n b outer = (n : Int) :: tail := by
  rw [columnsAt]
  split
  · exact ⟨_, rfl⟩
  · next h => exact ⟨outer, by rw [show b = n by omega]⟩

theorem columnsAt_self (n : Nat) (outer : List Int) :
    columnsAt n n outer = (n : Int) :: outer := by simp [columnsAt]

theorem startAt_self (n : Nat) (t : Token) : startAt n n t = [] := by simp [startAt]

theorem endsWord_marked (i j n : Nat) (v : Json) (rest : List Char) :
    endsWord (behindMark (leaf? n v) (block i j true v) ++ rest).head? = true := by
  cases hleaf : leaf? n v with
  | some w => rfl
  | none =>
      cases v with
      | array items =>
          cases items with
          | nil => cases hleaf
          | cons item items =>
              rw [behindMark, block, blockItems_cons]
              rfl
      | object members =>
          cases members with
          | nil => cases hleaf
          | cons entry entries =>
              rw [behindMark, block, blockMembers_cons]
              rfl
      | null => cases hleaf
      | bool b => cases hleaf
      | number n => cases hleaf
      | string s => cases hleaf

/-- Items one below the other. -/
theorem Before.items {items : List Json} (hne : items ≠ []) (hitems : ∀ v ∈ items, Follows v)
    (h : s.Before (itemsBody n items ++ (pad k ++ text)) n true (b :: outer) done) (hb : b ≤ n)
    (hk : k ≤ n) (htext : Opens text) :
    ∃ s', s.Advances s' ∧ s'.Before text k true (columnsAt n b outer)
      (done ++ startAt n b .sequenceStart ++ itemTokens items) := by
  induction items generalizing s b outer done with
  | nil => exact absurd rfl hne
  | cons item items ih =>
      obtain ⟨hitem, hitems⟩ := List.forall_mem_cons.mp hitems
      obtain ⟨tail, htail⟩ := columnsAt_eq_cons hb outer
      rw [itemsBody, List.cons_append, List.append_assoc] at h
      obtain ⟨s₁, hadvance₁, hmarked⟩ :=
        h.marked hb fun v hv => hv.step_entry (endsWord_marked _ _ _ item _)
      rw [htail] at hmarked ⊢
      -- The first mark may start the block; the others find it open.
      cases items with
      | nil =>
          obtain ⟨s₂, hadvance₂, hbefore⟩ := hitem (by simpa [blockItems] using hmarked) hk htext
          refine ⟨s₂, hadvance₁.trans hadvance₂, ?_⟩
          simpa [itemTokens] using hbefore
      | cons next items =>
          have hopens : Opens (itemsBody n (next :: items) ++ (pad k ++ text)) :=
            opens_cons (by decide) _
          rw [blockItems_cons, lead, if_neg (by decide), List.append_assoc] at hmarked
          obtain ⟨s₂, hadvance₂, hbefore⟩ := hitem hmarked (Nat.le_refl n) hopens
          obtain ⟨s₃, hadvance₃, hlast⟩ :=
            ih (List.cons_ne_nil next items) hitems hbefore (Int.le_refl _)
          rw [columnsAt_self, startAt_self] at hlast
          refine ⟨s₃, hadvance₁.trans (hadvance₂.trans hadvance₃), ?_⟩
          rw [itemTokens]
          simpa using hlast

/-- One member: a short key on the line of its value, or a key of its own. -/
theorem Before.member {key : String} (hv : Follows v ∧ FollowsKey v)
    (h : s.Before (blockMember n (key, v) ++ (pad k ++ text)) n true (b :: outer) done) (hb : b ≤ n)
    (hk : k ≤ n) (htext : Opens text) :
    ∃ s', s.Advances s' ∧ s'.Before text k true (columnsAt n b outer)
      (done ++ startAt n b .mappingStart ++ memberTokens (key, v)) := by
  obtain ⟨tail, htail⟩ := columnsAt_eq_cons hb outer
  rw [blockMember] at h
  by_cases hkey : isSimpleKey key = true
  · obtain ⟨hstyle, hflat, hshort⟩ := stringText_simpleKey hkey (n + 1)
    rw [if_pos hkey, List.append_assoc, List.append_assoc, List.singleton_append] at h
    have hends : endsWord (behindMark (leaf? (n + 2) v) ('\n' :: block n (n + 2) false v) ++
        (pad k ++ text)).head? = true := by
      cases leaf? (n + 2) v <;> rfl
    obtain ⟨s₁, hadvance₁, hmarked⟩ :=
      h.key hb (scalar_stringText (n + 1) hstyle) hflat hshort hends
    rw [htail] at hmarked ⊢
    obtain ⟨s₂, hadvance₂, hbefore⟩ := hv.2 hmarked (by omega) hk htext
    refine ⟨s₂, hadvance₁.trans hadvance₂, ?_⟩
    rw [String.ofList_toList] at hbefore
    rw [memberTokens, hkey]
    simpa using hbefore
  -- A key of its own is a part behind a question mark, and the value one behind a colon below it.
  · rw [if_neg hkey] at h
    obtain ⟨text', htext'⟩ : ∃ text', text' =
        behindMark (leaf? (n + 2) v) (block (n + 2) (n + 2) true v) ++ (pad k ++ text) := ⟨_, rfl⟩
    have hsplit : ['?', ' '] ++ endLine (stringText (n + 2) key.toList) ++ pad n ++ [':'] ++
        behindMark (leaf? (n + 2) v) (block (n + 2) (n + 2) true v) ++ (pad k ++ text) =
        '?' :: ' ' :: (endLine (stringText (n + 2) key.toList) ++ (pad n ++ ':' :: text')) := by
      rw [htext']
      simp
    have hopens : Opens (':' :: text') := opens_cons (by decide) text'
    rw [hsplit] at h
    obtain ⟨s₁, hadvance₁, hmarked⟩ := h.marked hb fun v hv => hv.step_key rfl
    rw [htail] at hmarked ⊢
    obtain ⟨s₂, hadvance₂, hbefore⟩ := (hmarked.before_blank (opens_stringText _ _)).string
      key.toList (by omega) (Nat.le_refl n) hopens
    obtain ⟨s₃, hadvance₃, hvalue⟩ := hbefore.marked (Int.le_refl _) fun w hw =>
      hw.step_value (by rw [htext']; exact endsWord_marked _ _ _ v _)
    rw [htext'] at hvalue
    obtain ⟨s₄, hadvance₄, hlast⟩ := hv.1 hvalue hk htext
    refine ⟨s₄, hadvance₁.trans (hadvance₂.trans (hadvance₃.trans hadvance₄)), ?_⟩
    rw [String.ofList_toList] at hlast
    rw [memberTokens, Bool.eq_false_iff.mpr hkey]
    simpa using hlast

theorem opens_blockMember (entry : String × Json) (rest : List Char) :
    Opens (blockMember n entry ++ rest) := by
  obtain ⟨key, v⟩ := entry
  rw [blockMember]
  by_cases hkey : isSimpleKey key = true
  · obtain ⟨hstyle, -, -⟩ := stringText_simpleKey hkey (n + 1)
    rw [if_pos hkey, List.append_assoc, List.append_assoc]
    exact (scalar_stringText (n + 1) hstyle).opens _
  · rw [if_neg hkey]
    exact opens_cons (by decide) _

/-- Members one below the other. -/
theorem Before.members {members : List (String × Json)} (hne : members ≠ [])
    (hmembers : ∀ entry ∈ members, Follows entry.2 ∧ FollowsKey entry.2)
    (h : s.Before (membersBody n members ++ (pad k ++ text)) n true (b :: outer) done) (hb : b ≤ n)
    (hk : k ≤ n) (htext : Opens text) :
    ∃ s', s.Advances s' ∧ s'.Before text k true (columnsAt n b outer)
      (done ++ startAt n b .mappingStart ++ membersTokens members) := by
  induction members generalizing s b outer done with
  | nil => exact absurd rfl hne
  | cons entry entries ih =>
      obtain ⟨hentry, hentries⟩ := List.forall_mem_cons.mp hmembers
      obtain ⟨tail, htail⟩ := columnsAt_eq_cons hb outer
      rw [membersBody, List.append_assoc] at h
      cases entries with
      | nil =>
          obtain ⟨s₁, hadvance₁, hbefore⟩ :=
            Before.member hentry (by simpa [blockMembers] using h) hb hk htext
          exact ⟨s₁, hadvance₁, by simpa [membersTokens] using hbefore⟩
      | cons next entries =>
          have hopens : Opens (membersBody n (next :: entries) ++ (pad k ++ text)) := by
            rw [membersBody, List.append_assoc]
            exact opens_blockMember next _
          rw [blockMembers_cons, lead, if_neg (by decide), List.append_assoc] at h
          obtain ⟨s₁, hadvance₁, hbefore⟩ := Before.member hentry h hb (Nat.le_refl n) hopens
          rw [htail] at hbefore ⊢
          obtain ⟨s₂, hadvance₂, hlast⟩ :=
            ih (List.cons_ne_nil next entries) hentries hbefore (Int.le_refl _)
          rw [columnsAt_self, startAt_self] at hlast
          refine ⟨s₂, hadvance₁.trans hadvance₂, ?_⟩
          rw [membersTokens]
          simpa using hlast

/-- A block that is further in than its mark ends in front of what stands no further in. -/
theorem Before.close (h : s.Before text k' true (columnsAt (k + 2) k outer) done) (hk : k' ≤ k) :
    s.Before text k' true (k :: outer) (done ++ [.blockEnd]) := by
  rw [columnsAt, if_pos (by omega)] at h
  exact h.pop (by omega)

theorem startAt_inner (k : Nat) (t : Token) : startAt (k + 2) k t = [t] := if_pos (by omega)

theorem follows_leaf (hv : Numberless v) (hleaf : ∀ n, ∃ w, leaf? n v = some w) :
    Follows v ∧ FollowsKey v := by
  constructor
  · intro s text k k' outer done h hk htext
    obtain ⟨w, hw⟩ := hleaf (k + 2)
    rw [hw] at h
    exact (h.before_blank (opens_leaf hv hw _)).leaf hv hw (by omega) hk htext false
  · intro s text k k' m outer done h hm hk htext
    obtain ⟨w, hw⟩ := hleaf (k + 2)
    rw [hw] at h
    exact (h.before_blank (opens_leaf hv hw _)).leaf hv hw (by omega) hk htext true

theorem opens_itemsBody (n : Nat) (item : Json) (items : List Json) (rest : List Char) :
    Opens (itemsBody n (item :: items) ++ rest) :=
  opens_cons (by decide) _

theorem opens_membersBody (n : Nat) (entry : String × Json) (entries : List (String × Json))
    (rest : List Char) : Opens (membersBody n (entry :: entries) ++ rest) := by
  rw [membersBody, List.append_assoc]
  exact opens_blockMember entry _

theorem follows_items {item : Json} {items : List Json}
    (hitems : ∀ v ∈ item :: items, Follows v) :
    Follows (.array (item :: items)) ∧ FollowsKey (.array (item :: items)) := by
  have hne := List.cons_ne_nil item items
  constructor
  · intro s text k k' outer done h hk htext
    rw [leaf?_items, behindMark, block, blockItems_cons, lead, if_pos rfl, List.append_assoc] at h
    obtain ⟨s', hadvance, hbefore⟩ := (h.before_blank (opens_itemsBody _ _ _ _)).items hne hitems
      (by omega) (by omega) htext
    rw [startAt_inner] at hbefore
    refine ⟨s', hadvance, ?_⟩
    rw [valueTokens]
    simpa using hbefore.close hk
  · intro s text k k' m outer done h hm hk htext
    rw [leaf?_items, behindMark, block, blockItems_cons, lead, if_neg (by decide), List.cons_append,
      List.append_assoc] at h
    obtain ⟨s', hadvance, hbefore⟩ := (h.before_line (opens_itemsBody _ _ _ _)).items hne hitems
      (Int.le_refl _) hk htext
    rw [columnsAt_self, startAt_self, List.append_nil] at hbefore
    refine ⟨s', hadvance, ?_⟩
    rw [valueTokens, if_pos rfl]
    exact hbefore

theorem follows_members {entry : String × Json} {entries : List (String × Json)}
    (hmembers : ∀ e ∈ entry :: entries, Follows e.2 ∧ FollowsKey e.2) :
    Follows (.object (entry :: entries)) ∧ FollowsKey (.object (entry :: entries)) := by
  have hne := List.cons_ne_nil entry entries
  constructor
  · intro s text k k' outer done h hk htext
    rw [leaf?_members, behindMark, block, blockMembers_cons, lead, if_pos rfl,
      List.append_assoc] at h
    obtain ⟨s', hadvance, hbefore⟩ := (h.before_blank (opens_membersBody _ _ _ _)).members hne
      hmembers (by omega) (by omega) htext
    rw [startAt_inner] at hbefore
    refine ⟨s', hadvance, ?_⟩
    rw [valueTokens]
    simpa using hbefore.close hk
  · intro s text k k' m outer done h hm hk htext
    rw [leaf?_members, behindMark, block, blockMembers_cons, lead, if_neg (by decide),
      List.cons_append, List.append_assoc] at h
    obtain ⟨s', hadvance, hbefore⟩ := (h.before_line (opens_membersBody _ _ _ _)).members hne
      hmembers (by omega) (by omega) htext
    rw [startAt_inner] at hbefore
    refine ⟨s', hadvance, ?_⟩
    rw [valueTokens]
    simpa using hbefore.close hk

/-- Every value follows its mark as its tokens. -/
theorem follows (hv : Numberless v) : Follows v ∧ FollowsKey v := by
  induction hv with
  | null => exact follows_leaf .null fun n => ⟨_, rfl⟩
  | bool b => exact follows_leaf (.bool b) fun n => ⟨_, rfl⟩
  | string key => exact follows_leaf (.string key) fun n => ⟨_, rfl⟩
  | @array items hitems ih =>
      cases items with
      | nil => exact follows_leaf (.array hitems) fun n => ⟨_, rfl⟩
      | cons item items => exact follows_items fun v hv => (ih v hv).1
  | @object members hmembers ih =>
      cases members with
      | nil => exact follows_leaf (.object hmembers) fun n => ⟨_, rfl⟩
      | cons entry entries => exact follows_members ih

end Token.Scan

end ResourceApi.Yaml
