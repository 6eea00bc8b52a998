import ResourceApi.Proofs.Json.Records
import ResourceApi.Proofs.Json.Rendering

/-!
The pretty text of every value is one in which typed readers find their way, as long as the value is
not nested too deep. The numbers in it need not read back as they were, nor be in range at all, so
it is more than what the strict reader could say about this text.
-/

namespace ResourceApi.Json

open Reader

/-- Values that are nested at most so deep. -/
inductive Nested : Nat → Json → Prop where
  | null {depth : Nat} : Nested depth .null
  | bool {depth : Nat} (b : Bool) : Nested depth (.bool b)
  | number {depth : Nat} (n : Number) : Nested depth (.number n)
  | string {depth : Nat} (s : String) : Nested depth (.string s)
  | array {depth : Nat} {items : List Json} (h : ∀ v ∈ items, Nested depth v) :
      Nested (depth + 1) (.array items)
  | object {depth : Nat} {members : Entries Json} (h : ∀ entry ∈ members, Nested depth entry.2) :
      Nested (depth + 1) (.object members)

theorem Written.nested {depth : Nat} {text : List Char} {w : Json} (h : Written depth text w) :
    Nested depth w := by
  induction h with
  | nullWord => exact .null
  | trueWord | falseWord => exact .bool _
  | number => exact .number _
  | string => exact .string _
  | array _ _ _ ih =>
      refine .array fun v hv => ?_
      obtain ⟨i, hi, rfl⟩ := List.mem_map.mp hv
      exact ih i hi
  | object _ _ _ ih =>
      refine .object fun entry hentry => ?_
      obtain ⟨m, hm, rfl⟩ := List.mem_map.mp hentry
      exact ih m hm

theorem Nested.lastWins {depth : Nat} {w : Json} (h : Nested depth w) :
    Nested depth (lastWins w) := by
  induction h with
  | null => exact .null
  | bool b => exact .bool b
  | number n => exact .number n
  | string s => exact .string s
  | array _ ih =>
      rw [lastWins_array]
      refine .array fun v hv => ?_
      obtain ⟨w, hw, rfl⟩ := List.mem_map.mp hv
      exact ih w hw
  | object _ ih =>
      rw [lastWins_object]
      refine .object fun entry hentry => ?_
      obtain ⟨m, hm, rfl⟩ := mem_lastMembers hentry
      exact ih m hm

/-! ### Pretty text -/

/-- The text of a value at some level of indentation. -/
def Pretty (depth : Nat) (text : List Char) (v : Json) : Prop :=
  Nested depth v ∧ ∃ level, text = prettyChars level v

theorem opens_prettyChars (level : Nat) (v : Json) :
    ∃ c t, prettyChars level v = c :: t ∧ Opens c := by
  cases v with
  | null =>
      rw [prettyChars, prettyAt]
      exact ⟨_, _, rfl, by decide⟩
  | bool b =>
      rw [prettyChars, prettyAt]
      cases b <;> exact ⟨_, _, rfl, by decide⟩
  | number n =>
      rw [prettyChars, prettyAt]
      exact n.opens_render
  | string s =>
      rw [prettyChars, prettyAt]
      exact opens_quote s
  | array vs =>
      rw [prettyChars_array]
      exact ⟨_, _, rfl, by decide⟩
  | object ms =>
      rw [prettyChars_object]
      exact ⟨_, _, rfl, by decide⟩

/-- Every value that is printed is passed over. -/
theorem skips_prettyChars (level : Nat) (v : Json) : Skips (prettyChars level v) := by
  induction v using inductionOn generalizing level with
  | null =>
      rw [prettyChars, prettyAt]
      exact (@Written.nullWord 0).skips
  | bool b =>
      rw [prettyChars, prettyAt]
      cases b
      · exact (@Written.falseWord 0).skips
      · exact (@Written.trueWord 0).skips
  | number n =>
      rw [prettyChars, prettyAt]
      exact n.signed_render.skips
  | string s =>
      rw [prettyChars, prettyAt]
      exact skips_quoted (quoted_quote s)
  | array vs ih =>
      rw [prettyChars_array]
      refine skips_array blank_nil
        (spaced_printedItems (blank_newline (level + 1)) (blank_newline level)) ?_ ?_
      · exact forall_printedItems (p := fun text _ => ∃ c t, text = c :: t ∧ Opens c)
          fun v _ => opens_prettyChars (level + 1) v
      · exact forall_printedItems (p := fun text _ => Skips text) fun v hv => ih v hv (level + 1)
  | object ms ih =>
      rw [prettyChars_object]
      refine skips_object blank_nil (spaced_printedMembers (blank_newline (level + 1)) blank_space
        (blank_newline level)) ?_
      exact forall_printedMembers (p := fun text _ => Skips text)
        fun entry hentry => ih entry hentry (level + 1)

/-- Typed readers find their way in pretty text. -/
theorem layout_pretty : Layout Pretty where
  layer := by
    rintro depth text v ⟨hnested, level, rfl⟩
    cases hnested with
    | null =>
        rw [prettyChars, prettyAt]
        exact .nullWord
    | bool b =>
        rw [prettyChars, prettyAt]
        cases b
        · exact .falseWord
        · exact .trueWord
    | number n =>
        obtain ⟨c, t, hrender, hc⟩ := n.signed_render.cons
        rw [prettyChars, prettyAt, hrender]
        exact .number hc
    | string s =>
        rw [prettyChars, prettyAt]
        exact .string (quoted_quote s)
    | @array depth vs h =>
        have hitems : ∀ i ∈ printedItems (newline (level + 1)).toList (newline level).toList
            (prettyChars (level + 1)) vs, Pretty depth i.text i.value :=
          forall_printedItems fun v hv => ⟨h v hv, level + 1, rfl⟩
        have hlayer := Layer.array blank_nil
          (spaced_printedItems (blank_newline (level + 1)) (blank_newline level)) hitems
        rwa [value_printedItems, ← prettyChars_array] at hlayer
    | @object depth ms h =>
        have hmembers : ∀ m ∈ printedMembers (newline (level + 1)).toList [' ']
            (newline level).toList (prettyChars (level + 1)) ms, Pretty depth m.text m.value :=
          forall_printedMembers fun entry hentry => ⟨h entry hentry, level + 1, rfl⟩
        have hlayer := Layer.object blank_nil (spaced_printedMembers (blank_newline (level + 1))
          blank_space (blank_newline level)) hmembers
        rwa [entry_printedMembers, ← prettyChars_object] at hlayer
  skipped := by
    rintro depth text v ⟨-, level, rfl⟩
    exact (skips_prettyChars level v).reads_skipValue

end ResourceApi.Json
