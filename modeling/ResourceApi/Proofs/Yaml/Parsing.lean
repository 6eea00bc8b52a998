import ResourceApi.Yaml.Node
import ResourceApi.Proofs.Json.Trees
import ResourceApi.Proofs.Yaml.Rendered

/-!
From tokens to values. The tokens of a value are read as its tree, by an induction over the value in
which each part takes no more fuel than three times its tokens. The tree stands for the value: text
without quotes is only written where it stands for itself. With what the scanner makes of the text
of an object, the object is what its text is read as.
-/

namespace ResourceApi.Yaml

mutual

/-- The tree of a value. -/
def treeOf : Json → Node
  | .null => .scalar none .plain "null"
  | .bool b => .scalar none .plain (if b then "true" else "false")
  | .number n => .scalar none .plain n.render
  | .string s => .scalar none (Style.ofText s.toList) s
  | .array items => .sequence none (treesOf items)
  | .object members => .mapping none (entriesOf members)

def treesOf : List Json → List Node
  | [] => []
  | item :: items => treeOf item :: treesOf items

def entriesOf : List (String × Json) → List (Node × Node)
  | [] => []
  | entry :: entries => entryOf entry :: entriesOf entries

def entryOf : String × Json → Node × Node
  | (key, v) => (.scalar none (Style.ofText key.toList) key, treeOf v)

end

namespace Node

variable {fuel : Nat} {level : Bool} {p : Parse} {rest : List Token} {t : Token} {v : Json}

/-- The same parse, in front of other tokens. -/
def Parse.at (p : Parse) (tokens : List Token) : Parse := { p with tokens }

/-- Tokens that may begin a value in a block. -/
def beginsValue (level : Bool) : Token → Bool
  | .scalar _ _ | .openBracket | .openBrace | .sequenceStart | .mappingStart => true
  | .entry => level
  | _ => false

theorem exists_beginsValue (level : Bool) (v : Json) :
    ∃ t tokens, valueTokens level v = t :: tokens ∧ beginsValue level t = true := by
  cases v with
  | null => exact ⟨_, _, rfl, rfl⟩
  | bool b => exact ⟨_, _, rfl, rfl⟩
  | number n => exact ⟨_, _, rfl, rfl⟩
  | string s => exact ⟨_, _, rfl, rfl⟩
  | array items =>
      cases items with
      | nil => exact ⟨_, _, rfl, rfl⟩
      | cons item items => cases level <;> exact ⟨_, _, rfl, rfl⟩
  | object members =>
      cases members with
      | nil => exact ⟨_, _, rfl, rfl⟩
      | cons entry entries => exact ⟨_, _, rfl, rfl⟩

theorem parseUnless_of_begins {stops : List Token} (hp : p.tokens = t :: rest)
    (hstops : t ∉ stops) (block : Bool) :
    parseUnless stops (fuel + 1) block level p = parse fuel block level p := by
  rw [parseUnless, Parse.next, hp]
  simp [hstops]

/-- Without an anchor or a tag the token itself says what comes. -/
theorem parse_scalar (style : Style) (text : String) (block : Bool) :
    parse (fuel + 1) block level (p.at (.scalar style text :: rest)) =
      some (.scalar none style text, p.at rest) := by
  simp [parse, Parse.next, Parse.at, Parse.properties, Parse.longTag, Parse.declare, Parse.define,
    Parse.drop]

theorem parse_emptySequence (block : Bool) :
    parse (fuel + 2) block level (p.at (.openBracket :: .closeBracket :: rest)) =
      some (.sequence none [], p.at rest) := by
  simp [parse, Parse.next, Parse.at, Parse.properties, Parse.longTag, Parse.declare, Parse.define,
    Parse.drop, flowItems]

theorem parse_emptyMapping (block : Bool) :
    parse (fuel + 2) block level (p.at (.openBrace :: .closeBrace :: rest)) =
      some (.mapping none [], p.at rest) := by
  simp [parse, Parse.next, Parse.at, Parse.properties, Parse.longTag, Parse.declare, Parse.define,
    Parse.drop, flowMembers]

theorem parse_sequence :
    parse (fuel + 1) true level (p.at (.sequenceStart :: rest)) =
      (blockItems fuel (p.at rest)).map fun r => (.sequence none r.1, r.2) := by
  simp [parse, Parse.next, Parse.at, Parse.properties, Parse.longTag, Parse.declare, Parse.define,
    Parse.drop]
  cases blockItems fuel { p with tokens := rest } <;> rfl

theorem parse_mapping :
    parse (fuel + 1) true level (p.at (.mappingStart :: rest)) =
      (blockMembers fuel (p.at rest)).map fun r => (.mapping none r.1, r.2) := by
  simp [parse, Parse.next, Parse.at, Parse.properties, Parse.longTag, Parse.declare, Parse.define,
    Parse.drop]
  cases blockMembers fuel { p with tokens := rest } <;> rfl

theorem parse_level :
    parse (fuel + 1) true true (p.at (.entry :: rest)) =
      (levelItems fuel (p.at (.entry :: rest))).map fun r => (.sequence none r.1, r.2) := by
  simp [parse, Parse.next, Parse.at, Parse.properties, Parse.longTag, Parse.declare, Parse.define]
  cases levelItems fuel { p with tokens := .entry :: rest } <;> rfl

/-! ### Values and their parts -/

/-- The tokens of a value are read as its tree. Items at the column of a key are only read there,
and nothing behind them may look like one more. -/
def ReadsBack (v : Json) : Prop :=
  ∀ (p : Parse) {fuel : Nat} {marked level : Bool} {rest : List Token},
    3 * (valueTokens marked v).length + 2 ≤ fuel →
    (marked = true → level = true ∧ rest.head? ≠ some .entry) →
    parse fuel true level (p.at (valueTokens marked v ++ rest)) = some (treeOf v, p.at rest)

/-- Where nothing at all might stand, a value is read as it is elsewhere: it does not begin with a
token that says so. -/
theorem ReadsBack.parseUnless {stops : List Token} {marked : Bool} (hv : ReadsBack v)
    (hstops : ∀ t ∈ stops, beginsValue marked t = false) (p : Parse)
    (hfuel : 3 * (valueTokens marked v).length + 2 ≤ fuel)
    (hmarked : marked = true → level = true ∧ rest.head? ≠ some .entry) :
    parseUnless stops (fuel + 1) true level (p.at (valueTokens marked v ++ rest)) =
      some (treeOf v, p.at rest) := by
  obtain ⟨t, tokens, htokens, hbegins⟩ := exists_beginsValue marked v
  have hnot : t ∉ stops := fun ht => by simp [hstops t ht] at hbegins
  have hhead : (p.at (valueTokens marked v ++ rest)).tokens = t :: (tokens ++ rest) := by
    simp [Parse.at, htokens]
  rw [parseUnless_of_begins hhead hnot]
  exact hv p hfuel hmarked

/-! ### Items -/

theorem blockItems_entry (tokens : List Token) :
    blockItems (fuel + 1) (p.at (.entry :: tokens)) =
      (parseUnless [.entry, .blockEnd] fuel true false (p.at tokens)).bind fun item =>
        (blockItems fuel item.2).bind fun items => some (item.1 :: items.1, items.2) := by
  simp only [blockItems, Parse.next, Parse.at, Parse.drop, List.head?_cons, List.tail_cons]
  rfl

theorem levelItems_entry (tokens : List Token) :
    levelItems (fuel + 1) (p.at (.entry :: tokens)) =
      (parseUnless [.entry, .key, .value, .blockEnd] fuel true false (p.at tokens)).bind fun item =>
        (levelItems fuel item.2).bind fun items => some (item.1 :: items.1, items.2) := by
  simp only [levelItems, Parse.next, Parse.at, Parse.drop, List.head?_cons, List.tail_cons]
  rfl

theorem levelItems_of_ne (h : rest.head? ≠ some .entry) :
    levelItems (fuel + 1) (p.at rest) = some ([], p.at rest) := by
  rw [levelItems]
  cases hhead : rest.head? with
  | none => simp [Parse.next, Parse.at, hhead]
  | some t =>
      cases t
      all_goals first | exact absurd hhead h | simp [Parse.next, Parse.at, hhead]

theorem length_itemTokens (v : Json) (items : List Json) :
    (itemTokens (v :: items)).length =
      (valueTokens false v).length + (itemTokens items).length + 1 := by
  simp [itemTokens]

theorem blockItems_itemTokens {items : List Json} (hitems : ∀ v ∈ items, ReadsBack v)
    (hfuel : 3 * (itemTokens items).length + 1 ≤ fuel) :
    blockItems fuel (p.at (itemTokens items ++ .blockEnd :: rest)) =
      some (treesOf items, p.at rest) := by
  induction items generalizing fuel with
  | nil =>
      obtain ⟨fuel, rfl⟩ : ∃ n, fuel = n + 1 := ⟨fuel - 1, by omega⟩
      rfl
  | cons v items ih =>
      -- The list itself and the look at the next token take one unit of fuel each; the three that
      -- the mark brings are enough.
      rw [length_itemTokens] at hfuel
      obtain ⟨fuel, rfl⟩ : ∃ n, fuel = n + 2 := ⟨fuel - 2, by omega⟩
      rw [List.forall_mem_cons] at hitems
      have hitem : parseUnless [.entry, .blockEnd] (fuel + 1) true false
          (p.at (valueTokens false v ++ (itemTokens items ++ .blockEnd :: rest))) =
            some (treeOf v, p.at (itemTokens items ++ .blockEnd :: rest)) :=
        hitems.1.parseUnless (by decide) p (by omega) nofun
      have hmore : blockItems (fuel + 1) (p.at (itemTokens items ++ .blockEnd :: rest)) =
          some (treesOf items, p.at rest) := ih hitems.2 (by omega)
      rw [itemTokens, List.cons_append, List.append_assoc, blockItems_entry, hitem,
        Option.bind_some, hmore]
      rfl

theorem levelItems_itemTokens {items : List Json} (hitems : ∀ v ∈ items, ReadsBack v)
    (hfuel : 3 * (itemTokens items).length + 1 ≤ fuel) (hrest : rest.head? ≠ some .entry) :
    levelItems fuel (p.at (itemTokens items ++ rest)) = some (treesOf items, p.at rest) := by
  induction items generalizing fuel with
  | nil =>
      obtain ⟨fuel, rfl⟩ : ∃ n, fuel = n + 1 := ⟨fuel - 1, by omega⟩
      exact levelItems_of_ne hrest
  | cons v items ih =>
      rw [length_itemTokens] at hfuel
      obtain ⟨fuel, rfl⟩ : ∃ n, fuel = n + 2 := ⟨fuel - 2, by omega⟩
      rw [List.forall_mem_cons] at hitems
      have hitem : parseUnless [.entry, .key, .value, .blockEnd] (fuel + 1) true false
          (p.at (valueTokens false v ++ (itemTokens items ++ rest))) =
            some (treeOf v, p.at (itemTokens items ++ rest)) :=
        hitems.1.parseUnless (by decide) p (by omega) nofun
      have hmore : levelItems (fuel + 1) (p.at (itemTokens items ++ rest)) =
          some (treesOf items, p.at rest) := ih hitems.2 (by omega)
      rw [itemTokens, List.cons_append, List.append_assoc, levelItems_entry, hitem,
        Option.bind_some, hmore]
      rfl

/-! ### Members -/

theorem blockMembers_key (style : Style) (key : String) (tokens : List Token) :
    blockMembers (fuel + 3) (p.at (.key :: .scalar style key :: .value :: tokens)) =
      (parseUnless [.key, .value, .blockEnd] (fuel + 2) true true (p.at tokens)).bind fun v =>
        (blockMembers (fuel + 2) v.2).bind fun members =>
          some ((.scalar none style key, v.1) :: members.1, members.2) := by
  have hkey : parseUnless [.key, .value, .blockEnd] (fuel + 2) true true
      (p.at (.scalar style key :: .value :: tokens)) =
        some (.scalar none style key, p.at (.value :: tokens)) := by
    rw [parseUnless_of_begins rfl (by simp), parse_scalar]
  have hdrop : (p.at (.key :: .scalar style key :: .value :: tokens)).drop =
      p.at (.scalar style key :: .value :: tokens) := rfl
  rw [blockMembers]
  simp only [Parse.next, hdrop, hkey]
  rfl

theorem length_membersTokens (key : String) (v : Json) (members : List (String × Json)) :
    (membersTokens ((key, v) :: members)).length =
      (valueTokens (isSimpleKey key) v).length + (membersTokens members).length + 3 := by
  simp [membersTokens, memberTokens]

theorem blockMembers_membersTokens {members : List (String × Json)}
    (hmembers : ∀ entry ∈ members, ReadsBack entry.2)
    (hfuel : 3 * (membersTokens members).length + 1 ≤ fuel) :
    blockMembers fuel (p.at (membersTokens members ++ .blockEnd :: rest)) =
      some (entriesOf members, p.at rest) := by
  induction members generalizing fuel with
  | nil =>
      obtain ⟨fuel, rfl⟩ : ∃ n, fuel = n + 1 := ⟨fuel - 1, by omega⟩
      rfl
  | cons entry members ih =>
      obtain ⟨key, v⟩ := entry
      rw [List.forall_mem_cons] at hmembers
      rw [length_membersTokens] at hfuel
      obtain ⟨fuel, rfl⟩ : ∃ n, fuel = n + 3 := ⟨fuel - 3, by omega⟩
      -- Behind a value stands the mark of the next key or the end of the block, but no item.
      have hhead : (membersTokens members ++ .blockEnd :: rest).head? ≠ some .entry := by
        cases members with
        | nil => simp [membersTokens]
        | cons entry _ => cases entry; simp [membersTokens, memberTokens]
      have hvalue : parseUnless [.key, .value, .blockEnd] (fuel + 2) true true
          (p.at (valueTokens (isSimpleKey key) v ++ (membersTokens members ++ .blockEnd :: rest))) =
            some (treeOf v, p.at (membersTokens members ++ .blockEnd :: rest)) :=
        hmembers.1.parseUnless (by simp [beginsValue]) p (by simp only; omega)
          fun _ => ⟨rfl, hhead⟩
      have hmore : blockMembers (fuel + 2) (p.at (membersTokens members ++ .blockEnd :: rest)) =
          some (entriesOf members, p.at rest) := ih hmembers.2 (by omega)
      rw [membersTokens, memberTokens]
      simp only [List.append_assoc, List.cons_append, List.nil_append]
      rw [blockMembers_key, hvalue, Option.bind_some, hmore]
      rfl

/-! ### Trees -/

theorem readsBack_scalar {style : Style} {text : String}
    (htokens : ∀ marked, valueTokens marked v = [.scalar style text])
    (htree : treeOf v = .scalar none style text) : ReadsBack v := by
  intro p fuel marked level rest hfuel _
  obtain ⟨fuel, rfl⟩ : ∃ n, fuel = n + 1 := ⟨fuel - 1, by omega⟩
  rw [htokens, htree]
  exact parse_scalar style text true

theorem readsBack_array {items : List Json} (hitems : ∀ v ∈ items, ReadsBack v) :
    ReadsBack (.array items) := by
  intro p fuel marked level rest hfuel hmarked
  obtain ⟨fuel, rfl⟩ : ∃ n, fuel = n + 2 := ⟨fuel - 2, by omega⟩
  cases items with
  | nil => exact parse_emptySequence true
  | cons v items =>
      cases marked with
      | true =>
          obtain ⟨rfl, hrest⟩ := hmarked rfl
          have hparts : levelItems (fuel + 1) (p.at (itemTokens (v :: items) ++ rest)) =
              some (treesOf (v :: items), p.at rest) :=
            levelItems_itemTokens hitems (by simp [valueTokens] at hfuel; omega) hrest
          rw [valueTokens, if_pos rfl, itemTokens, List.cons_append, parse_level,
            ← List.cons_append, ← itemTokens, hparts]
          rfl
      | false =>
          have hparts : blockItems (fuel + 1)
              (p.at (itemTokens (v :: items) ++ .blockEnd :: rest)) =
                some (treesOf (v :: items), p.at rest) :=
            blockItems_itemTokens hitems (by simp [valueTokens] at hfuel; omega)
          rw [valueTokens, if_neg Bool.false_ne_true, List.cons_append, List.append_assoc,
            List.singleton_append, parse_sequence, hparts]
          rfl

theorem readsBack_object {members : List (String × Json)}
    (hmembers : ∀ entry ∈ members, ReadsBack entry.2) : ReadsBack (.object members) := by
  intro p fuel marked level rest hfuel _
  obtain ⟨fuel, rfl⟩ : ∃ n, fuel = n + 2 := ⟨fuel - 2, by omega⟩
  cases members with
  | nil => exact parse_emptyMapping true
  | cons entry members =>
      have hparts : blockMembers (fuel + 1)
          (p.at (membersTokens (entry :: members) ++ .blockEnd :: rest)) =
            some (entriesOf (entry :: members), p.at rest) :=
        blockMembers_membersTokens hmembers (by simp [valueTokens] at hfuel; omega)
      rw [valueTokens, List.cons_append, List.append_assoc, List.singleton_append, parse_mapping,
        hparts]
      rfl

theorem readsBack (v : Json) : ReadsBack v := by
  induction v using Json.inductionOn with
  | null => exact readsBack_scalar (fun _ => rfl) rfl
  | bool b => exact readsBack_scalar (fun _ => rfl) rfl
  | number n => exact readsBack_scalar (fun _ => rfl) rfl
  | string s => exact readsBack_scalar (fun _ => rfl) rfl
  | array items ih => exact readsBack_array ih
  | object members ih => exact readsBack_object ih

theorem parse_valueTokens (v : Json) (p : Parse) :
    parse (4 * (valueTokens false v).length + 4) true false (p.at (valueTokens false v)) =
      some (treeOf v, p.at []) := by
  have hread : parse (4 * (valueTokens false v).length + 4) true false
      (p.at (valueTokens false v ++ [])) = some (treeOf v, p.at []) :=
    readsBack v p (by omega) nofun
  rwa [List.append_nil] at hread

/-- The only document is the tree of an object if its tokens are all there is. -/
theorem ofTokens?_members {members : List (String × Json)} (hne : members ≠ []) :
    ofTokens? (.mappingStart :: (membersTokens members ++ [.blockEnd])) =
      some (treeOf (.object members)) := by
  obtain ⟨entry, entries, rfl⟩ := List.exists_cons_of_ne_nil hne
  let p : Parse := ⟨[], standardPrefixes, [], []⟩
  have hcontent : content [] (.mappingStart :: (membersTokens (entry :: entries) ++ [.blockEnd])) =
      some (treeOf (.object (entry :: entries)), p.at []) :=
    parse_valueTokens (.object (entry :: entries)) p
  simp only [ofTokens?, hcontent]
  rfl

/-! ### Values -/

/-- Text without quotes is only written for a string that it stands for. -/
theorem toJson?_string (s : String) : toJson? (treeOf (.string s)) = some (.string s) := by
  rw [treeOf]
  cases hstyle : Style.ofText s.toList with
  | plain =>
      rw [Style.ofText] at hstyle
      split_ifs at hstyle with hfeed hliteral hplain hsingle
      have hquotes : needsQuotes s.toList = false := by
        simpa using (Bool.and_eq_true_iff.mp hplain).2
      have htext : Plain.ofText s.toList = .text := by
        simpa using (Bool.or_eq_false_iff.mp hquotes).1
      rw [toJson?, htext]
  | single => rfl
  | double => rfl
  | literal => rfl
  | folded => rfl

theorem itemsToJson?_treesOf {items : List Json}
    (hitems : ∀ v ∈ items, toJson? (treeOf v) = some v) :
    itemsToJson? (treesOf items) = some items := by
  induction items with
  | nil => rfl
  | cons v items ih =>
      rw [List.forall_mem_cons] at hitems
      rw [treesOf, itemsToJson?, hitems.1, ih hitems.2]
      rfl

theorem entriesToJson?_entriesOf {members : List (String × Json)}
    (hmembers : ∀ entry ∈ members, toJson? (treeOf entry.2) = some entry.2) :
    entriesToJson? (entriesOf members) = some members := by
  induction members with
  | nil => rfl
  | cons entry members ih =>
      rw [List.forall_mem_cons] at hmembers
      rw [entriesOf, entriesToJson?, entryOf, entryToJson?, hmembers.1, ih hmembers.2]
      rfl

theorem toJson?_treeOf (hv : Numberless v) : toJson? (treeOf v) = some v := by
  induction hv with
  | null =>
      have hplain : Plain.ofText "null".toList = .null := by decide
      rw [treeOf, toJson?, hplain]
  | bool b =>
      have hplain : Plain.ofText (if b then "true" else "false").toList = .bool b := by
        cases b <;> decide
      rw [treeOf, toJson?, hplain]
  | string s => exact toJson?_string s
  | array _ ih => rw [treeOf, toJson?, itemsToJson?_treesOf ih, Option.map_some]
  | object _ ih => rw [treeOf, toJson?, entriesToJson?_entriesOf ih, Option.map_some]

/-- The text of an object is read as the tree of the object, which stands for the object. -/
theorem ofText?_render {members : List (String × Json)} (hne : members ≠ [])
    (hmembers : ∀ entry ∈ members, Numberless entry.2) :
    (ofText? (render (.object members))).bind toJson? = some (.object members) := by
  rw [ofText?, scan_render hne hmembers, Option.bind_some, ofTokens?_members hne, Option.bind_some]
  exact toJson?_treeOf (.object hmembers)

end Node

end ResourceApi.Yaml
