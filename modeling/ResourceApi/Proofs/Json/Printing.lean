import Mathlib.Tactic.SplitIfs
import Std.Data.String.ToNat
import ResourceApi.Proofs.Json.Reading

/-!
What is printed is written by the grammar. Strings come back with all their characters and integers
of 64 bits come back exactly, so a value is read back from its compact and from its pretty form.
-/

namespace ResourceApi.Json

open Reader

/-! ### Strings -/

theorem hexValue?_digitChar : ∀ n < 16, hexValue? n.digitChar = some n := by decide

/-- A control character is written with its code in four hexadecimal digits. -/
theorem escape_controlDigits {c : Char} (h : c.toNat < 32) :
    Escape ('u' :: '0' :: '0' :: controlDigits c) c := by
  have hzero : hexValue? '0' = some 0 := by decide
  have hhigh := hexValue?_digitChar (c.toNat / 16) (by omega)
  have hlow := hexValue?_digitChar (c.toNat % 16) (by omega)
  have hvalue : ((0 * 16 + 0) * 16 + c.toNat / 16) * 16 + c.toNat % 16 = c.toNat := by omega
  have hunit : HexUnit ('0' :: '0' :: controlDigits c) c.toNat := by
    rw [← hvalue]
    exact .digits hzero hzero hhigh hlow
  have hescape := Escape.unit hunit (.inl (by omega))
  rwa [Char.ofNat_toNat] at hescape

/-- An escaped character stands for itself. -/
theorem stringRest_escapeChar {text chars : List Char} (c : Char) (h : StringRest text chars) :
    StringRest (escapeChar c ++ text) (c :: chars) := by
  have hletter : ∀ {l d : Char}, simpleEscape? l = some d → c = d →
      StringRest ('\\' :: ([l] ++ text)) (c :: chars) := by
    rintro l d hl rfl
    exact .escape (.letter hl) h
  unfold escapeChar
  split_ifs with hquote hslash hfeed hreturn htab hback hform hcontrol
  · exact hletter rfl hquote
  · exact hletter rfl hslash
  · exact hletter rfl hfeed
  · exact hletter rfl hreturn
  · exact hletter rfl htab
  · exact hletter rfl hback
  · exact hletter rfl hform
  · exact .escape (escape_controlDigits hcontrol) h
  · exact .plain hquote hslash (by omega) h

theorem quoted_quote (s : String) : Quoted (quote s).toList s := by
  have hrest : ∀ chars : List Char, StringRest (chars.flatMap escapeChar ++ ['"']) chars := by
    intro chars
    induction chars with
    | nil => exact .close
    | cons c chars ih =>
        rw [List.flatMap_cons, List.append_assoc]
        exact stringRest_escapeChar c ih
  have hquoted := Quoted.mk (hrest s.toList)
  rw [String.ofList_toList] at hquoted
  rw [quote, String.toList_ofList]
  exact hquoted

/-! ### Integers -/

theorem le_ofDigitChars (ds : List Char) (n : Nat) : n ≤ Nat.ofDigitChars 10 ds n := by
  induction ds generalizing n with
  | nil => exact Nat.le_refl n
  | cons d ds ih =>
      rw [Nat.ofDigitChars_cons]
      have := ih (10 * n + (d.toNat - '0'.toNat))
      omega

/-- All digits of a number below the limit are gathered. -/
theorem gather_digits {limit n count : Nat} {ds rest : List Char} (hds : Digits ds)
    (hlimit : Nat.ofDigitChars 10 ds n < limit) (hrest : startsWithDigit rest = false) :
    gather limit n count (ds ++ rest) =
      (Nat.ofDigitChars 10 ds n, count + ds.length, rest) := by
  induction ds generalizing n count with
  | nil => exact gather_of_not_digit hrest
  | cons d ds ih =>
      obtain ⟨hd, hds⟩ := List.forall_mem_cons.mp hds
      rw [Nat.ofDigitChars_cons] at hlimit ⊢
      have hfits : 10 * n + digitValue d < limit :=
        Nat.lt_of_le_of_lt (le_ofDigitChars ds _) hlimit
      rw [List.cons_append, gather, if_pos (by simp [hd, hfits]), digitValue, ih hds hlimit,
        List.length_cons, Nat.add_right_comm, Nat.add_assoc]

/-- The decimal digits of a number other than zero do not start with a zero. -/
theorem toDigits_eq_cons {n : Nat} (h : 0 < n) :
    ∃ c ds, Nat.toDigits 10 n = c :: ds ∧ c ≠ '0' := by
  induction n using Nat.strongRecOn with
  | ind n ih =>
      by_cases hbase : n < 10
      · have hdigit : ∀ m < 10, 0 < m → m.digitChar ≠ '0' := by decide
        exact ⟨n.digitChar, [], Nat.toDigits_of_lt_base hbase, hdigit n hbase h⟩
      · obtain ⟨c, ds, hds, hc⟩ := ih (n / 10) (by omega) (by omega)
        refine ⟨c, ds ++ [(n % 10).digitChar], ?_, hc⟩
        rw [Nat.toDigits_of_base_le (by decide) (by omega), hds, List.cons_append]

theorem digits_toDigits (n : Nat) : Digits (Nat.toDigits 10 n) := by
  intro c hc
  rw [isDigit_eq]
  exact Nat.isDigit_of_mem_toDigits (by decide) (by decide) hc

theorem unsigned_toDigits (n : Nat) : Unsigned (Nat.toDigits 10 n) := by
  refine ⟨Nat.toDigits 10 n, [], (List.append_nil _).symm, ?_, [], [], rfl, .absent, .absent⟩
  by_cases hzero : n = 0
  · rw [hzero]
    exact .zero
  · obtain ⟨c, ds, hds, hc⟩ := toDigits_eq_cons (Nat.pos_of_ne_zero hzero)
    have hdigits := digits_toDigits n
    rw [hds] at hdigits ⊢
    obtain ⟨hdigit, hdigits⟩ := List.forall_mem_cons.mp hdigits
    exact .digits hdigit hc hdigits

/-- The digits of a number of 64 bits are read up to where the number may end. -/
theorem number_toDigits {n : Nat} (h : n < integerLimit) (negative : Bool) {rest : List Char}
    (hrest : Stops rest) :
    Reader.number negative (Nat.toDigits 10 n ++ rest) = afterInteger negative n rest := by
  have hstop := startsWithDigit_of_stops hrest
  by_cases hzero : n = 0
  · subst hzero
    change Reader.number negative ('0' :: rest) = _
    rw [Reader.number, if_pos rfl, hstop, if_neg (by decide)]
  · obtain ⟨c, ds, hds, hc⟩ := toDigits_eq_cons (Nat.pos_of_ne_zero hzero)
    have hdigits := digits_toDigits n
    have hvalue : Nat.ofDigitChars 10 (Nat.toDigits 10 n) 0 = n :=
      Nat.ofDigitChars_toDigits (by decide) (by decide)
    rw [hds] at hdigits hvalue
    rw [Nat.ofDigitChars_cons, Nat.mul_zero, Nat.zero_add] at hvalue
    obtain ⟨hdigit, hdigits⟩ := List.forall_mem_cons.mp hdigits
    have hlimit : Nat.ofDigitChars 10 ds (c.toNat - '0'.toNat) < integerLimit := by
      rw [hvalue]
      exact h
    have hgather : gather integerLimit (c.toNat - '0'.toNat) 1 (ds ++ rest) = _ :=
      gather_digits hdigits hlimit hstop
    rw [hds, List.cons_append, Reader.number, if_neg hc, if_pos hdigit, digitValue, hgather,
      hvalue]
    dsimp only
    rw [hstop, if_neg (by decide)]

theorem toList_toString (n : Nat) : (toString n).toList = Nat.toDigits 10 n := by
  rw [Nat.toString_eq_ofList_toDigits, String.toList_ofList]

/-- An integer of 64 bits, with or without a sign, is written as its digits. -/
theorem numeral_integer {i : Int} (hlow : -(Nat.pow 2 63 : Int) ≤ i) (hhigh : i < Nat.pow 2 64) :
    Numeral (toString i).toList (.integer i) := by
  cases i with
  | ofNat n =>
      change Numeral (toString n).toList _
      rw [toList_toString]
      refine .plain (unsigned_toDigits n) fun rest hrest => ?_
      have hn : n < integerLimit := Int.ofNat_lt.mp hhigh
      rw [number_toDigits hn false hrest, afterInteger_of_stops hrest]
      rfl
  | negSucc n =>
      have hn : n + 1 ≤ Nat.pow 2 63 := by
        rw [Int.negSucc_eq] at hlow
        omega
      have hlimit : n + 1 < integerLimit := Nat.lt_of_le_of_lt hn (by decide)
      have htext : ("-" ++ toString (n + 1)).toList = '-' :: Nat.toDigits 10 (n + 1) := by
        rw [String.toList_append, toList_toString]
        rfl
      change Numeral ("-" ++ toString (n + 1)).toList _
      rw [htext]
      refine .minus (unsigned_toDigits (n + 1)) fun rest hrest => ?_
      have hrange : ¬ (n + 1 = 0 ∨ Nat.pow 2 63 < n + 1) := by omega
      rw [number_toDigits hlimit true hrest, afterInteger_of_stops hrest, if_pos rfl,
        if_neg hrange]
      rfl

/-! ### Values -/

/-- Values whose written forms are read back: integers fit into 64 bits, and nothing is nested too
deep. -/
inductive Printable : Nat → Json → Prop where
  | null {depth : Nat} : Printable depth .null
  | bool {depth : Nat} (b : Bool) : Printable depth (.bool b)
  | integer {depth : Nat} {i : Int} (hlow : -(Nat.pow 2 63 : Int) ≤ i) (hhigh : i < Nat.pow 2 64) :
      Printable depth (.number (.integer i))
  | string {depth : Nat} (s : String) : Printable depth (.string s)
  | array {depth : Nat} {items : List Json} (h : ∀ v ∈ items, Printable depth v) :
      Printable (depth + 1) (.array items)
  | object {depth : Nat} {members : Entries Json} (h : ∀ entry ∈ members, Printable depth entry.2) :
      Printable (depth + 1) (.object members)

section Lists

variable {α β : Type} {inner last : α → β}

/-- Parts of a list that are written alike, but for the last one. -/
def spread (inner last : α → β) : List α → List β
  | [] => []
  | [a] => [last a]
  | a :: b :: as => inner a :: spread inner last (b :: as)

theorem map_spread {f : β → α} (hinner : ∀ a, f (inner a) = a) (hlast : ∀ a, f (last a) = a)
    (as : List α) : (spread inner last as).map f = as := by
  fun_induction spread inner last as with
  | case1 => rfl
  | case2 a => rw [List.map_singleton, hlast]
  | case3 a b as ih => rw [List.map_cons, ih, hinner]

theorem mem_spread {as : List α} {b : β} (h : b ∈ spread inner last as) :
    ∃ a ∈ as, b = inner a ∨ b = last a := by
  fun_induction spread inner last as with
  | case1 => simp at h
  | case2 a => exact ⟨a, List.mem_cons_self, .inr (List.mem_singleton.mp h)⟩
  | case3 a c as ih =>
      rcases List.mem_cons.mp h with rfl | h
      · exact ⟨a, List.mem_cons_self, .inl rfl⟩
      · obtain ⟨a', ha', heq⟩ := ih h
        exact ⟨a', List.mem_cons_of_mem _ ha', heq⟩

/-- If the last part has more blanks behind it, they stand before the closing bracket. -/
theorem listed_spread {chars : β → List Char} {blank : List Char}
    (hlast : ∀ a, chars (last a) = chars (inner a) ++ blank) (close : Char) (b : List Char)
    (a : α) (as : List α) :
    listed close b ((spread inner last (a :: as)).map chars) =
      chars (inner a) ++ (as.flatMap (fun a => ',' :: chars (inner a)) ++ (blank ++ [close])) := by
  induction as generalizing a with
  | nil =>
      rw [spread, List.map_singleton, listed, followed, hlast, List.flatMap_nil, List.nil_append,
        List.append_assoc]
  | cons c as ih =>
      have hfollowed : ∀ part parts, followed close (part :: parts) =
          ',' :: listed close b (part :: parts) := fun _ _ => rfl
      obtain ⟨d, ds, hd⟩ : ∃ d ds, spread inner last (c :: as) = d :: ds := by
        cases as <;> exact ⟨_, _, rfl⟩
      have ih := ih c
      rw [hd, List.map_cons] at ih
      rw [spread, hd, List.map_cons, List.map_cons, listed, hfollowed, ih, List.flatMap_cons,
        List.cons_append, List.cons_append, List.append_assoc]

end Lists

section Values

variable {depth : Nat} {before space behind : List Char} {text : Json → List Char}

def printedItem (before behind : List Char) (text : Json → List Char) (v : Json) : Item :=
  ⟨before, text v, behind, v⟩

/-- Items with the same blanks before each, and with others behind the last one. -/
def printedItems (before behind : List Char) (text : Json → List Char) : List Json → List Item :=
  spread (printedItem before [] text) (printedItem before behind text)

theorem listed_printedItems (v : Json) (vs : List Json) :
    listed ']' [] ((printedItems before behind text (v :: vs)).map Item.chars) =
      before ++ text v ++
        (vs.flatMap (fun w => ',' :: (before ++ text w)) ++ (behind ++ [']'])) := by
  have hchars : ∀ w, (printedItem before [] text w).chars = before ++ text w := by
    simp [printedItem, Item.chars]
  have hlast : ∀ w, (printedItem before behind text w).chars =
      (printedItem before [] text w).chars ++ behind := by
    simp [printedItem, Item.chars]
  rw [printedItems, listed_spread hlast]
  simp only [hchars]

theorem value_printedItems (vs : List Json) :
    (printedItems before behind text vs).map Item.value = vs :=
  map_spread (fun _ => rfl) (fun _ => rfl) vs

theorem spaced_printedItems (hbefore : Blank before) (hbehind : Blank behind) {vs : List Json} :
    ∀ i ∈ printedItems before behind text vs, i.Spaced := by
  intro i hi
  obtain ⟨w, -, rfl | rfl⟩ := mem_spread hi
  · exact ⟨hbefore, blank_nil⟩
  · exact ⟨hbefore, hbehind⟩

/-- What holds of each value and its text holds of the items. -/
theorem forall_printedItems {p : List Char → Json → Prop} {vs : List Json}
    (h : ∀ w ∈ vs, p (text w) w) : ∀ i ∈ printedItems before behind text vs, p i.text i.value := by
  intro i hi
  obtain ⟨w, hw, rfl | rfl⟩ := mem_spread hi <;> exact h w hw

theorem Written.items (hbefore : Blank before) (hbehind : Blank behind) {vs : List Json}
    (h : ∀ w ∈ vs, Written depth (text w) w) :
    Written (depth + 1) ('[' :: listed ']' [] ((printedItems before behind text vs).map Item.chars))
      (.array vs) := by
  have hwritten := Written.array blank_nil (spaced_printedItems hbefore hbehind)
    (forall_printedItems (p := Written depth) h)
  rwa [value_printedItems] at hwritten

/-- A key, its colon and its value. -/
def memberText (space : List Char) (text : Json → List Char) (entry : String × Json) : List Char :=
  (quote entry.1).toList ++ ':' :: (space ++ text entry.2)

def printedMember (before space behind : List Char) (text : Json → List Char)
    (entry : String × Json) : Member :=
  ⟨before, (quote entry.1).toList, entry.1, [], space, text entry.2, behind, entry.2⟩

theorem spaced_printedMember (hbefore : Blank before) (hspace : Blank space)
    (hbehind : Blank behind) (entry : String × Json) :
    (printedMember before space behind text entry).Spaced := by
  have hquoted := quoted_quote entry.1
  rw [printedMember]
  refine ⟨hbefore, ?_, ?_, hspace, hbehind⟩
  · dsimp only
    exact hquoted
  · exact blank_nil

/-- Members with the same blanks before each and before its value, and with others behind the last
one. -/
def printedMembers (before space behind : List Char) (text : Json → List Char) :
    Entries Json → List Member :=
  spread (printedMember before space [] text) (printedMember before space behind text)

theorem listed_printedMembers (m : String × Json) (ms : Entries Json) :
    listed '}' [] ((printedMembers before space behind text (m :: ms)).map Member.chars) =
      before ++ memberText space text m ++
        (ms.flatMap (fun entry => ',' :: (before ++ memberText space text entry)) ++
          (behind ++ ['}'])) := by
  have hchars : ∀ entry, (printedMember before space [] text entry).chars =
      before ++ memberText space text entry := by
    simp [printedMember, Member.chars, Member.fromColon, memberText]
  have hlast : ∀ entry, (printedMember before space behind text entry).chars =
      (printedMember before space [] text entry).chars ++ behind := by
    simp [printedMember, Member.chars, Member.fromColon]
  rw [printedMembers, listed_spread hlast]
  simp only [hchars]

theorem entry_printedMembers (ms : Entries Json) :
    (printedMembers before space behind text ms).map Member.entry = ms :=
  map_spread (fun _ => rfl) (fun _ => rfl) ms

theorem spaced_printedMembers (hbefore : Blank before) (hspace : Blank space)
    (hbehind : Blank behind) {ms : Entries Json} :
    ∀ m ∈ printedMembers before space behind text ms, m.Spaced := by
  intro m hm
  obtain ⟨entry, -, rfl | rfl⟩ := mem_spread hm
  · exact spaced_printedMember hbefore hspace blank_nil entry
  · exact spaced_printedMember hbefore hspace hbehind entry

/-- What holds of each value and its text holds of the members. -/
theorem forall_printedMembers {p : List Char → Json → Prop} {ms : Entries Json}
    (h : ∀ entry ∈ ms, p (text entry.2) entry.2) :
    ∀ m ∈ printedMembers before space behind text ms, p m.text m.value := by
  intro m hm
  obtain ⟨entry, hentry, rfl | rfl⟩ := mem_spread hm <;> exact h entry hentry

theorem Written.members (hbefore : Blank before) (hspace : Blank space) (hbehind : Blank behind)
    {ms : Entries Json} (h : ∀ entry ∈ ms, Written depth (text entry.2) entry.2) :
    Written (depth + 1)
      ('{' :: listed '}' [] ((printedMembers before space behind text ms).map Member.chars))
      (.object ms) := by
  have hwritten := Written.object blank_nil (spaced_printedMembers hbefore hspace hbehind)
    (forall_printedMembers (p := Written depth) h)
  rwa [entry_printedMembers] at hwritten

end Values

/-! ### Compact text -/

def compactChars (v : Json) : List Char := v.compact.toList

theorem toList_compactItems (items : List Json) :
    (compactItems items).toList = items.flatMap fun v => ',' :: ([] ++ compactChars v) := by
  induction items with
  | nil => rfl
  | cons v items ih =>
      rw [compactItems, String.toList_append, String.toList_append, ih, List.flatMap_cons]
      rfl

theorem toList_compactMember (entry : String × Json) :
    (compactMember entry).toList = memberText [] compactChars entry := by
  rw [compactMember, String.toList_append, String.toList_append, List.append_assoc]
  rfl

theorem toList_compactMembers (members : Entries Json) :
    (compactMembers members).toList = members.flatMap fun entry =>
      ',' :: ([] ++ memberText [] compactChars entry) := by
  induction members with
  | nil => rfl
  | cons entry members ih =>
      rw [compactMembers, String.toList_append, String.toList_append, ih, List.flatMap_cons,
        toList_compactMember]
      rfl

theorem compactChars_array (vs : List Json) :
    compactChars (.array vs) =
      '[' :: listed ']' [] ((printedItems [] [] compactChars vs).map Item.chars) := by
  cases vs with
  | nil => rfl
  | cons v vs =>
      rw [listed_printedItems, ← toList_compactItems]
      simp [compactChars, compact]

theorem compactChars_object (ms : Entries Json) :
    compactChars (.object ms) =
      '{' :: listed '}' [] ((printedMembers [] [] [] compactChars ms).map Member.chars) := by
  cases ms with
  | nil => rfl
  | cons m ms =>
      rw [listed_printedMembers, ← toList_compactMembers, ← toList_compactMember]
      simp [compactChars, compact]

theorem Printable.written_compact {depth : Nat} {v : Json} (h : Printable depth v) :
    Written depth (compactChars v) v := by
  induction h with
  | null => exact .nullWord
  | bool b => cases b <;> constructor
  | integer hlow hhigh => exact .number (numeral_integer hlow hhigh)
  | string s => exact .string (quoted_quote s)
  | array _ ih =>
      rw [compactChars_array]
      exact Written.items blank_nil blank_nil ih
  | object _ ih =>
      rw [compactChars_object]
      exact Written.members blank_nil blank_nil blank_nil ih

/-! ### Pretty text -/

def prettyChars (level : Nat) (v : Json) : List Char := (v.prettyAt level).toList

theorem blank_newline (level : Nat) : Blank (newline level).toList := by
  rw [newline, String.toList_ofList]
  refine List.forall_mem_cons.mpr ⟨by decide, fun c hc => ?_⟩
  rw [List.eq_of_mem_replicate hc]
  decide

theorem toList_prettyItems (level : Nat) (items : List Json) :
    (prettyItems level items).toList = items.flatMap fun v =>
      ',' :: ((newline level).toList ++ prettyChars level v) := by
  induction items with
  | nil => rfl
  | cons v items ih =>
      rw [prettyItems, String.toList_append, String.toList_append, String.toList_append, ih,
        List.flatMap_cons, List.append_assoc (",".toList)]
      rfl

theorem toList_prettyMember (level : Nat) (entry : String × Json) :
    (prettyMember level entry).toList = memberText [' '] (prettyChars level) entry := by
  rw [prettyMember, String.toList_append, String.toList_append, List.append_assoc]
  rfl

theorem toList_prettyMembers (level : Nat) (members : Entries Json) :
    (prettyMembers level members).toList = members.flatMap fun entry =>
      ',' :: ((newline level).toList ++ memberText [' '] (prettyChars level) entry) := by
  induction members with
  | nil => rfl
  | cons entry members ih =>
      rw [prettyMembers, String.toList_append, String.toList_append, String.toList_append, ih,
        List.flatMap_cons, List.append_assoc (",".toList), toList_prettyMember]
      rfl

theorem prettyChars_array (level : Nat) (vs : List Json) :
    prettyChars level (.array vs) = '[' :: listed ']' [] ((printedItems (newline (level + 1)).toList
      (newline level).toList (prettyChars (level + 1)) vs).map Item.chars) := by
  cases vs with
  | nil =>
      rw [prettyChars, prettyAt]
      rfl
  | cons v vs =>
      rw [listed_printedItems, ← toList_prettyItems]
      simp [prettyChars, prettyAt]

theorem prettyChars_object (level : Nat) (ms : Entries Json) :
    prettyChars level (.object ms) = '{' :: listed '}' [] ((printedMembers
      (newline (level + 1)).toList [' '] (newline level).toList (prettyChars (level + 1)) ms).map
        Member.chars) := by
  cases ms with
  | nil =>
      rw [prettyChars, prettyAt]
      rfl
  | cons m ms =>
      rw [listed_printedMembers, ← toList_prettyMembers, ← toList_prettyMember]
      simp [prettyChars, prettyAt]

theorem blank_space : Blank [' '] := by simp [Blank, isBlank]

theorem Printable.written_prettyAt {depth : Nat} {v : Json} (h : Printable depth v)
    (level : Nat) : Written depth (prettyChars level v) v := by
  induction h generalizing level with
  | null =>
      rw [prettyChars, prettyAt]
      exact .nullWord
  | bool b =>
      rw [prettyChars, prettyAt]
      cases b <;> constructor
  | integer hlow hhigh =>
      rw [prettyChars, prettyAt]
      exact .number (numeral_integer hlow hhigh)
  | string s =>
      rw [prettyChars, prettyAt]
      exact .string (quoted_quote s)
  | array _ ih =>
      rw [prettyChars_array]
      exact Written.items (blank_newline (level + 1)) (blank_newline level)
        fun w hw => ih w hw (level + 1)
  | object _ ih =>
      rw [prettyChars_object]
      exact Written.members (blank_newline (level + 1)) blank_space (blank_newline level)
        fun entry hentry => ih entry hentry (level + 1)

/-! ### Documents -/

theorem IsDocument.of_written {depth : Nat} {text : String} {v : Json}
    (h : Written depth text.toList v) (hdepth : depth ≤ depthLimit) : IsDocument text v := by
  refine ⟨[], text.toList, [], ?_, blank_nil, blank_nil, h.mono hdepth⟩
  rw [List.append_nil, List.nil_append]

/-- The compact text of a value is a document of this value. -/
theorem Printable.isDocument_compact {v : Json} (h : Printable depthLimit v) :
    IsDocument v.compact v :=
  .of_written h.written_compact (Nat.le_refl _)

/-- The pretty text of a value is a document of this value. -/
theorem Printable.isDocument_pretty {v : Json} (h : Printable depthLimit v) :
    IsDocument v.pretty v :=
  .of_written (h.written_prettyAt 0) (Nat.le_refl _)

end ResourceApi.Json
