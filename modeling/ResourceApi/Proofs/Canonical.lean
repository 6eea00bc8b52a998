import ResourceApi.Description
import ResourceApi.Proofs.Json.Printing

/-!
Formatting a text keeps its value, and formatting it again changes nothing. What is no JSON stays as
it is. For JSON this holds as long as all numbers are integers: those that are read have 64 bits, so
their digits are read back, while the digits of a double may be read as another one.
-/

namespace ResourceApi

namespace Json

open Reader

/-! ### Integers that are read -/

/-- A reader of numbers that gives no integers. -/
def GivesNoInteger (reader : Reader Number) : Prop := ∀ s i rest, reader s ≠ .ok (.integer i, rest)

section Doubles

variable {negative : Bool} {digits : Nat} {e : Int}

theorem givesNoInteger_double : GivesNoInteger (double negative digits e) := by
  intro s i rest h
  rw [double] at h
  split at h <;> cases h

theorem givesNoInteger_exponentDigits {down : Bool} :
    GivesNoInteger (exponentDigits negative digits e down) := by
  intro s i rest h
  unfold exponentDigits at h
  split at h
  · cases h
  · split at h
    · dsimp only at h
      split at h
      · split at h
        · split at h <;> cases h
        · exact givesNoInteger_double _ _ _ h
      · exact givesNoInteger_double _ _ _ h
    · cases h

theorem givesNoInteger_exponentPart : GivesNoInteger (exponentPart negative digits e) := by
  intro s i rest h
  obtain ⟨sign, t, -, -, heq⟩ := exponentPart_eq negative digits e s
  rw [heq] at h
  exact givesNoInteger_exponentDigits _ _ _ h

theorem givesNoInteger_exponentPart? : GivesNoInteger (exponentPart? negative digits e) := by
  intro s i rest h
  unfold exponentPart? at h
  split at h
  · exact givesNoInteger_exponentPart _ _ _ h
  · exact givesNoInteger_exponentPart _ _ _ h
  · exact givesNoInteger_double _ _ _ h

theorem givesNoInteger_fractionPart : GivesNoInteger (fractionPart negative digits e) := by
  intro s i rest h
  unfold fractionPart at h
  dsimp only at h
  split at h
  · exact givesNoInteger_exponentPart? _ _ _ h
  · split at h
    · split at h <;> cases h
    · exact givesNoInteger_exponentPart? _ _ _ h

end Doubles

theorem digitValue_lt {c : Char} (h : isDigit c = true) : digitValue c < 10 := by
  simp only [isDigit, Bool.and_eq_true, decide_eq_true_eq] at h
  have hnine : c.toNat ≤ '9'.toNat := h.2
  have hvalue : digitValue c = c.toNat - '0'.toNat := rfl
  have hzero : '0'.toNat = 48 := rfl
  have hlast : '9'.toNat = 57 := rfl
  omega

theorem gather_lt {limit n count m total : Nat} {s rest : List Char} (hn : n < limit)
    (h : gather limit n count s = (m, total, rest)) : m < limit := by
  induction s generalizing n count with
  | nil => exact (Prod.mk.inj h).1 ▸ hn
  | cons c s ih =>
      rw [gather] at h
      split at h
      · rename_i hfits
        rw [Bool.and_eq_true, decide_eq_true_eq] at hfits
        exact ih hfits.2 h
      · exact (Prod.mk.inj h).1 ▸ hn

/-- An integer of 64 bits, signed or unsigned. -/
def Number.InRange (i : Int) : Prop := -(Nat.pow 2 63 : Int) ≤ i ∧ i < Nat.pow 2 64

theorem inRange_of_afterInteger {negative : Bool} {n : Nat} {i : Int} {s rest : List Char}
    (hn : n < integerLimit) (h : afterInteger negative n s = .ok (.integer i, rest)) :
    Number.InRange i := by
  change n < Nat.pow 2 64 at hn
  unfold afterInteger at h
  split at h
  · exact absurd h (givesNoInteger_fractionPart _ _ _)
  · exact absurd h (givesNoInteger_exponentPart _ _ _)
  · exact absurd h (givesNoInteger_exponentPart _ _ _)
  · split at h
    · split at h
      · cases h
      · rename_i hsigned
        obtain rfl := Number.integer.inj (Prod.mk.inj (Except.ok.inj h)).1
        have hsize : n ≤ Nat.pow 2 63 := by omega
        exact ⟨by omega, by omega⟩
    · obtain rfl := Number.integer.inj (Prod.mk.inj (Except.ok.inj h)).1
      exact ⟨by omega, by omega⟩

theorem inRange_of_number {negative : Bool} {i : Int} {s rest : List Char}
    (h : Reader.number negative s = .ok (.integer i, rest)) : Number.InRange i := by
  cases s with
  | nil => cases h
  | cons c s =>
      rw [Reader.number] at h
      split at h
      · split at h
        · cases h
        · exact inRange_of_afterInteger (by decide) h
      split at h
      · rename_i hdigit
        rcases hgather : gather integerLimit (digitValue c) 1 s with ⟨n, count, r⟩
        have hvalue : digitValue c < integerLimit := by
          have hsmall := digitValue_lt hdigit
          have hlimit : 10 < integerLimit := by decide
          omega
        simp only [hgather] at h
        split at h
        · split at h
          · exact absurd h (givesNoInteger_fractionPart _ _ _)
          · exact absurd h (givesNoInteger_exponentPart? _ _ _)
        · exact inRange_of_afterInteger (gather_lt hvalue hgather) h
      · cases h

theorem Numeral.inRange {text : List Char} {i : Int} (h : Numeral text (.integer i)) :
    Number.InRange i := by
  cases h with
  | plain _ takes => exact inRange_of_number (takes [] stops_nil)
  | minus _ takes => exact inRange_of_number (takes [] stops_nil)

/-! ### Values with integers -/

/-- Every number inside the value is an integer. -/
inductive IntegersOnly : Json → Prop where
  | null : IntegersOnly .null
  | bool (b : Bool) : IntegersOnly (.bool b)
  | integer (i : Int) : IntegersOnly (.number (.integer i))
  | string (s : String) : IntegersOnly (.string s)
  | array {items : List Json} (h : ∀ v ∈ items, IntegersOnly v) : IntegersOnly (.array items)
  | object {members : Entries Json} (h : ∀ entry ∈ members, IntegersOnly entry.2) :
      IntegersOnly (.object members)

/-- What has been read into a value without doubles is printed in a form that is read back. -/
theorem Written.printable {depth : Nat} {text : List Char} {w : Json} (h : Written depth text w)
    (hw : IntegersOnly (lastWins w)) : Printable depth (lastWins w) := by
  induction h with
  | nullWord => exact .null
  | trueWord | falseWord => exact .bool _
  | @number depth text n hn =>
      change IntegersOnly (.number n) at hw
      cases hw with
      | integer i => exact .integer hn.inRange.1 hn.inRange.2
  | string => exact .string _
  | @array depth blank items _ _ _ ih =>
      rw [lastWins_array] at hw ⊢
      cases hw with
      | array hitems =>
          refine .array fun v hv => ?_
          obtain ⟨w, hw, rfl⟩ := List.mem_map.mp hv
          obtain ⟨i, hi, rfl⟩ := List.mem_map.mp hw
          exact ih i hi (hitems _ hv)
  | @object depth blank members _ _ _ ih =>
      rw [lastWins_object] at hw ⊢
      cases hw with
      | object hmembers =>
          refine .object fun entry hentry => ?_
          have hinteger := hmembers entry hentry
          obtain ⟨w, hw, rfl⟩ := mem_lastMembers hentry
          obtain ⟨m, hm, rfl⟩ := List.mem_map.mp hw
          exact ih m hm hinteger

end Json

/-! ### Formatting -/

open Json

theorem formatDocument_of_error {text : String} {e : Json.Error} (h : Json.parse text = .error e) :
    formatDocument text = text := by
  rw [formatDocument, h]

theorem formatDocument_of_ok {text : String} {v : Json} (h : Json.parse text = .ok v) :
    formatDocument text = v.pretty := by
  rw [formatDocument, h]

/-- In the formatted text stands what has been read, and no key is repeated any more. -/
theorem isDocument_formatDocument {text : String} {w : Json} (h : IsDocument text w)
    (hw : IntegersOnly (lastWins w)) : IsDocument (formatDocument text) (lastWins w) := by
  rw [formatDocument_of_ok (parse_eq_ok.mpr ⟨w, h, rfl⟩)]
  obtain ⟨lead, value, trail, -, -, -, hvalue⟩ := h
  exact (hvalue.printable hw).isDocument_pretty

/-- A document in which no key is repeated is read as it stands. -/
theorem parse_of_isDocument_lastWins {text : String} {w : Json}
    (h : IsDocument text (lastWins w)) : Json.parse text = .ok (lastWins w) :=
  parse_eq_ok.mpr ⟨lastWins w, h, (lastWins_of_distinctKeys (distinctKeys_lastWins w)).symm⟩

/-- **Formatting keeps the value of a text and is idempotent.** What is no JSON stays as it is. From
JSON without doubles comes a text in which exactly the value stands that was read, each key at its
first place and with its last value. Neither of them changes when it is formatted again. -/
theorem formatting_keeps_integers (text : String) :
    ((∃ e, Json.parse text = .error e) → formatDocument text = text ∧
      formatDocument (formatDocument text) = formatDocument text) ∧
    ∀ v, Json.parse text = .ok v → IntegersOnly v →
      Json.parse (formatDocument text) = .ok v ∧
      (∃ w, IsDocument text w ∧ v = lastWins w ∧ IsDocument (formatDocument text) v) ∧
      formatDocument (formatDocument text) = formatDocument text := by
  constructor
  · rintro ⟨e, he⟩
    have hsame := formatDocument_of_error he
    exact ⟨hsame, by rw [hsame, hsame]⟩
  · intro v hv hintegers
    obtain ⟨w, hw, rfl⟩ := parse_eq_ok.mp hv
    have hformatted := isDocument_formatDocument hw hintegers
    have hparse := parse_of_isDocument_lastWins hformatted
    refine ⟨hparse, ⟨w, hw, rfl, hformatted⟩, ?_⟩
    rw [formatDocument_of_ok hparse, formatDocument_of_ok hv]

/-- Both limits of 64 bits, empty and nested brackets, escapes and a repeated key. -/
def crowdedText : String :=
  "\x7b\"b\":0, \"a\":[-9223372036854775808,18446744073709551615,[\x7b\x7d]],"
    ++ "\"\\u0041/\":\"\\u0007\\ud83d\\ude00\",\"b\":[]\x7d"

def crowdedValue : Json :=
  .object [("b", .array []),
    ("a", .array [.number (.integer (-9223372036854775808)),
      .number (.integer 18446744073709551615), .array [.object []]]),
    ("A/", .string "\u0007😀")]

theorem integersOnly_crowdedValue : IntegersOnly crowdedValue := by
  refine .object ?_
  simp only [List.forall_mem_cons, List.not_mem_nil, false_imp_iff, implies_true, and_true]
  refine ⟨.array (by simp), .array ?_, .string _⟩
  simp only [List.forall_mem_cons, List.not_mem_nil, false_imp_iff, implies_true, and_true]
  refine ⟨.integer _, .integer _, .array ?_⟩
  simp only [List.forall_mem_cons, List.not_mem_nil, false_imp_iff, implies_true, and_true]
  exact .object (by simp)

theorem formatting_keeps_integers_crowded :
    Json.parse crowdedText = .ok crowdedValue ∧ IntegersOnly crowdedValue ∧
      formatDocument crowdedText ≠ crowdedText ∧
      Json.parse (formatDocument crowdedText) = .ok crowdedValue ∧
      formatDocument (formatDocument crowdedText) = formatDocument crowdedText ∧
      formatDocument "\x7b" = "\x7b" := by
  have hparse : Json.parse crowdedText = .ok crowdedValue := eq_ok_of_toOption (by decide +kernel)
  have hchanged : formatDocument crowdedText ≠ crowdedText := by decide +kernel
  obtain ⟨hsame, -, hagain⟩ :=
    (formatting_keeps_integers crowdedText).2 crowdedValue hparse integersOnly_crowdedValue
  have hunread : ∃ e, Json.parse "\x7b" = .error e := ⟨_, rfl⟩
  exact ⟨hparse, integersOnly_crowdedValue, hchanged, hsame, hagain,
    ((formatting_keeps_integers "\x7b").1 hunread).1⟩

end ResourceApi
