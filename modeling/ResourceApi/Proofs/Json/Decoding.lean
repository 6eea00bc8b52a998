import ResourceApi.Json.Record
import ResourceApi.Proofs.Json.Skipping

/-!
Typed readers as functions on trees. What a typed reader makes of a written value, with whatever
stands around it, is what a function makes of the tree with all its members; so it does not matter
to a typed reader how a value is written.
-/

namespace ResourceApi.Json

open Reader

/-! ### Layouts -/

/-- One layer of the text of a value: what stands between its brackets is known by a relation only,
and of a number no more than how it starts. -/
inductive Layer (inner : Nat → List Char → Json → Prop) : Nat → List Char → Json → Prop where
  | nullWord {depth : Nat} : Layer inner depth ['n', 'u', 'l', 'l'] .null
  | trueWord {depth : Nat} : Layer inner depth ['t', 'r', 'u', 'e'] (.bool true)
  | falseWord {depth : Nat} : Layer inner depth ['f', 'a', 'l', 's', 'e'] (.bool false)
  | number {depth : Nat} {c : Char} {t : List Char} {n : Number}
      (h : c = '-' ∨ isDigit c = true) : Layer inner depth (c :: t) (.number n)
  | string {depth : Nat} {text : List Char} {s : String} (h : Quoted text s) :
      Layer inner depth text (.string s)
  | array {depth : Nat} {blank : List Char} {items : List Item} (hblank : Blank blank)
      (hspaced : ∀ i ∈ items, i.Spaced) (h : ∀ i ∈ items, inner depth i.text i.value) :
      Layer inner (depth + 1) ('[' :: listed ']' blank (items.map Item.chars))
        (.array (items.map Item.value))
  | object {depth : Nat} {blank : List Char} {members : List Member} (hblank : Blank blank)
      (hspaced : ∀ m ∈ members, m.Spaced) (h : ∀ m ∈ members, inner depth m.text m.value) :
      Layer inner (depth + 1) ('{' :: listed '}' blank (members.map Member.chars))
        (.object (members.map Member.entry))

/-- A way to lay out values in which typed readers find their way: layer by layer, and a value that
no field asks for can be passed over. -/
structure Layout (laid : Nat → List Char → Json → Prop) : Prop where
  layer : ∀ {depth text w}, laid depth text w → Layer laid depth text w
  skipped : ∀ {depth text w}, laid depth text w → Reads skipValue text (some ())

/-- The grammar is such a way. -/
theorem layout_written : Layout Written where
  layer := by
    intro depth text w h
    cases h with
    | nullWord => exact .nullWord
    | trueWord => exact .trueWord
    | falseWord => exact .falseWord
    | number h =>
        obtain ⟨c, t, rfl, hc⟩ := h.cons
        exact .number hc
    | string h => exact .string h
    | array hblank hspaced h => exact .array hblank hspaced h
    | object hblank hspaced h => exact .object hblank hspaced h
  skipped h := h.skips.reads_skipValue

/-! ### Where the kinds of values start -/

section Layers

variable {laid : Nat → List Char → Json → Prop} {depth : Nat} {c : Char} {t text : List Char}
  {w : Json}

theorem Layer.opens (h : Layer laid depth text w) : ∃ c t, text = c :: t ∧ Opens c := by
  cases h with
  | @number _ c t _ hc =>
      refine ⟨c, t, rfl, ?_⟩
      rcases hc with rfl | hc
      · decide
      · simp [Opens, hc]
  | string h =>
      obtain ⟨t, rfl⟩ := h.cons
      exact ⟨_, _, rfl, by decide⟩
  | nullWord | trueWord | falseWord | array | object => exact ⟨_, _, rfl, by decide⟩

/-- Which character starts which values. -/
structure Starts (c : Char) (w : Json) : Prop where
  quote : c = '"' → ∃ s, w = .string s
  bracket : c = '[' → ∃ items, w = .array items
  brace : c = '{' → ∃ members, w = .object members
  true : c = 't' → w = .bool true
  false : c = 'f' → w = .bool false
  null : c = 'n' → w = .null

theorem starts_of_numeral {c : Char} (w : Json) (h : c = '-' ∨ isDigit c = true) : Starts c w := by
  have hne : ∀ d, d ≠ '-' → isDigit d = false → c = d → False := by
    rintro d hminus hdigit rfl
    rcases h with rfl | h
    · exact hminus rfl
    · rw [h] at hdigit
      cases hdigit
  constructor <;> intro hc <;> exact absurd hc (hne _ (by decide) (by decide))

theorem Layer.starts (h : Layer laid depth (c :: t) w) : Starts c w := by
  cases h with
  | nullWord | trueWord | falseWord => constructor <;> simp
  | number h => exact starts_of_numeral _ h
  | string h =>
      cases h
      constructor <;> simp
  | array => constructor <;> simp
  | object => constructor <;> simp

theorem Written.starts (h : Written depth (c :: t) w) : Starts c w :=
  (layout_written.layer h).starts

end Layers

/-! ### Strings and booleans -/

/-- The characters of a string. -/
def asString? : Json → Option String
  | .string s => some s
  | _ => none

def asBool? : Json → Option Bool
  | .bool b => some b
  | _ => none

/-- A typed reader makes of every value that is laid out in some way what a function makes of its
tree. -/
def DecodesFrom {α : Type} (laid : Nat → List Char → Json → Prop) (decoder : Decoder α)
    (f : Json → Option α) : Prop :=
  ∀ ⦃depth text w⦄, laid depth text w → Reads (decoder depth) text (f w)

section Leaves

variable {laid : Nat → List Char → Json → Prop}

theorem Layout.string (hlaid : Layout laid) : DecodesFrom laid Decoder.string asString? := by
  intro depth text w h lead rest hlead hrest
  have hlayer := hlaid.layer h
  obtain ⟨c, t, rfl, hc⟩ := hlayer.opens
  rw [Decoder.string, Decoder.stringAs, skipBlank_append hlead, List.cons_append,
    skipBlank_cons hc.not_blank]
  split
  · rename_i heq
    obtain ⟨rfl, rfl⟩ := List.cons.inj heq
    obtain ⟨s, rfl⟩ := hlayer.starts.quote rfl
    cases hlayer with
    | string h =>
        rw [string_append h]
        rfl
  · rename_i hother
    cases w with
    | string s =>
        cases hlayer with
        | string h =>
            cases h
            exact absurd rfl (hother _)
    | null | bool | number | array | object => rfl

theorem Layout.bool (hlaid : Layout laid) : DecodesFrom laid Decoder.bool asBool? := by
  intro depth text w h lead rest hlead hrest
  have hlayer := hlaid.layer h
  obtain ⟨c, t, rfl, hc⟩ := hlayer.opens
  rw [Decoder.bool, skipBlank_append hlead, List.cons_append, skipBlank_cons hc.not_blank]
  split
  · rename_i heq
    obtain ⟨rfl, rfl⟩ := List.cons.inj heq
    obtain rfl := hlayer.starts.true rfl
    cases hlayer
    rw [word_append]
    rfl
  · rename_i heq
    obtain ⟨rfl, rfl⟩ := List.cons.inj heq
    obtain rfl := hlayer.starts.false rfl
    cases hlayer
    rw [word_append]
    rfl
  · rename_i htrue hfalse
    cases w with
    | bool b =>
        cases hlayer
        · exact absurd rfl (htrue _)
        · exact absurd rfl (hfalse _)
    | null | string | number | array | object => rfl

end Leaves

/-- A typed reader makes of every written value what a function makes of its tree. -/
def Decodes {α : Type} (decoder : Decoder α) (f : Json → Option α) : Prop :=
  ∀ {depth text w}, Written depth text w → Reads (decoder depth) text (f w)

theorem Decodes.fromWritten {α : Type} {decoder : Decoder α} {f : Json → Option α}
    (hf : Decodes decoder f) : DecodesFrom Written decoder f := fun _ _ _ h => hf h

theorem decodes_string : Decodes Decoder.string asString? := fun h => layout_written.string h

theorem decodes_bool : Decodes Decoder.bool asBool? := fun h => layout_written.bool h

section Combinators

variable {α : Type} {laid : Nat → List Char → Json → Prop} {decoder : Decoder α}
  {f : Json → Option α}

/-- What an optional value is: nothing if it is `null`. -/
def orNull (f : Json → Option α) : Json → Option (Option α)
  | .null => some none
  | w => (f w).map some

theorem DecodesFrom.optional (hlaid : Layout laid) (hf : DecodesFrom laid decoder f) :
    DecodesFrom laid (Decoder.optional decoder) (orNull f) := by
  intro depth text w h lead rest hlead hrest
  have hread := hf h [] rest (by simp [Blank]) hrest
  have hlayer := hlaid.layer h
  obtain ⟨c, t, rfl, hc⟩ := hlayer.opens
  rw [Decoder.optional, skipBlank_append hlead, List.cons_append, skipBlank_cons hc.not_blank]
  split
  · rename_i heq
    obtain ⟨rfl, rfl⟩ := List.cons.inj heq
    obtain rfl := hlayer.starts.null rfl
    cases hlayer
    rw [word_append]
    rfl
  · rename_i hother
    have hnull : w ≠ .null := by
      rintro rfl
      cases hlayer
      exact hother _ rfl
    have hw : orNull f w = (f w).map some := by
      cases w <;> first | rfl | exact absurd rfl hnull
    rw [List.nil_append, List.cons_append] at hread
    rw [map_toOption, hread, hw]
    cases f w <;> rfl

theorem Decodes.optional (hf : Decodes decoder f) :
    Decodes (Decoder.optional decoder) (orNull f) :=
  fun h => hf.fromWritten.optional layout_written h

/-- The items of an array, each as a function takes it. -/
def asList? (f : Json → Option α) : Json → Option (List α)
  | .array items => items.mapM f
  | _ => none

/-- Putting what is read in front of what has been read gives the list in reverse. -/
theorem foldlM_reverse {β : Type} (g : β → Option α) (xs : List β) (done : List α) :
    (xs.foldlM (fun done x => (g x).map (· :: done)) done).map List.reverse =
      (xs.mapM g).map (done.reverse ++ ·) := by
  induction xs generalizing done with
  | nil => simp
  | cons x xs ih =>
      rw [List.foldlM_cons, List.mapM_cons]
      cases hx : g x with
      | none => rfl
      | some a =>
          simp only [Option.map_some, Option.bind_eq_bind, Option.bind_some, ih,
            List.reverse_cons, List.append_assoc, List.singleton_append]
          cases xs.mapM g <;> rfl

/-- Reads one more item in front of those that have been read. -/
def listStep (decoder : Decoder α) (depth : Nat) (done : List α) : Reader (List α) :=
  fun s => (decoder depth s).map fun r => (r.1 :: done, r.2)

theorem DecodesFrom.list (hlaid : Layout laid) (hf : DecodesFrom laid decoder f) :
    DecodesFrom laid (Decoder.list decoder) (asList? f) := by
  intro depth text w h lead rest hlead hrest
  have hlayer := hlaid.layer h
  obtain ⟨c, t, rfl, hc⟩ := hlayer.opens
  rw [Decoder.list, skipBlank_append hlead, List.cons_append, skipBlank_cons hc.not_blank]
  split
  · rename_i heq
    obtain ⟨rfl, rfl⟩ := List.cons.inj heq
    obtain ⟨ws, rfl⟩ := hlayer.starts.bracket rfl
    cases hlayer with
    | @array depth blank items hblank hspaced hitems =>
        have hstep : ∀ i ∈ items, ∀ done, Reads (listStep decoder depth done) i.text
            ((f i.value).map (· :: done)) := by
          intro i hi done lead rest hlead hrest
          rw [listStep, map_toOption, hf (hitems i hi) lead rest hlead hrest]
          cases f i.value <;> rfl
        have hopens : ∀ i ∈ items, ∃ c t, i.text = c :: t ∧ Opens c := fun i hi =>
          (hlaid.layer (hitems i hi)).opens
        have hloop := items_remaining hspaced hopens hstep hblank rest
          true (length_lt_listed ']' blank items Item.chars rest) []
        have hinside := bracketed_toOption hloop (closeArray_cons rest)
        simp only [remaining] at hinside
        have hfold := foldlM_reverse (fun i : Item => f i.value) items []
        change (Except.map (fun r => (r.1.reverse, r.2)) (bracketed closeArray
          (Reader.items (listStep decoder depth) ((listed ']' blank (items.map Item.chars) ++
            rest).length + 1) true [])
          (listed ']' blank (items.map Item.chars) ++ rest))).toOption =
          ((items.map Item.value).mapM f).map fun a => (a, rest)
        rw [map_toOption, hinside, List.mapM_map]
        have hmap := congrArg (fun o => o.map fun a => (a, rest)) hfold
        simpa [Option.map_map, Function.comp_def] using hmap
  · rename_i hother
    cases w with
    | array ws =>
        cases hlayer
        exact absurd rfl (hother _)
    | null | bool | string | number | object => rfl

theorem Decodes.list (hf : Decodes decoder f) : Decodes (Decoder.list decoder) (asList? f) :=
  fun h => hf.fromWritten.list layout_written h

end Combinators

end ResourceApi.Json
