import ResourceApi.Proofs.Json.Causes

/-!
What messages say. A typed reader fails for causes whose messages it has made itself, never with a
message that it was handed. Among these messages those about missing fields are the only ones that
start with an m, so a message tells whether a field is missing.
-/

namespace ResourceApi

namespace Text

/-- A text that starts, but not with this character. -/
def StartsApart (first : Char) (s : String) : Prop := ∃ c t, s.toList = c :: t ∧ c ≠ first

theorem StartsApart.append {first : Char} {s : String} (h : StartsApart first s) (t : String) :
    StartsApart first (s ++ t) := by
  obtain ⟨c, u, hs, hc⟩ := h
  exact ⟨c, u ++ t.toList, by rw [String.toList_append, hs, List.cons_append], hc⟩

end Text

namespace Json

open Reader

/-- The message of the cause is not one that was handed in. -/
def Cause.isOwn : Cause → Bool
  | .custom _ => false
  | _ => true

theorem Cause.isOwn_of_isSyntax {cause : Cause} (h : cause.isSyntax = true) :
    cause.isOwn = true := by
  cases cause <;> first | rfl | cases h

theorem Cause.IsMismatch.isOwn {expected : String} {cause : Cause} (h : cause.IsMismatch expected) :
    cause.isOwn = true := by
  rcases h with hsyntax | ⟨found, rfl⟩
  · exact isOwn_of_isSyntax hsyntax
  · rfl

/-! ### Readers -/

/-- A failure, if this is one, is the reader's own. -/
abbrev Own {α : Type} (r : Except Failure α) : Prop := FailsFor Cause.isOwn r

theorem FailsFor.own {α : Type} {r : Except Failure α} (h : FailsFor Cause.isSyntax r) : Own r :=
  h.mono fun _ => Cause.isOwn_of_isSyntax

theorem own_unexpected {α : Type} (expected : String) (s : List Char) :
    Own (.error (Reader.unexpected expected s) : Except Failure α) :=
  .error (isMismatch_unexpected expected s).isOwn

section Decoders

variable {α β : Type} {decoder : Decoder α}

theorem own_string (depth : Nat) (s : List Char) : Own (Decoder.string depth s) := by
  rw [Decoder.string, Decoder.stringAs]
  split
  · exact (syntactic_string _).own
  · exact own_unexpected _ _

theorem own_bool (depth : Nat) (s : List Char) : Own (Decoder.bool depth s) := by
  rw [Decoder.bool]
  split
  · exact ((syntactic_word _ _).map _).own
  · exact ((syntactic_word _ _).map _).own
  · exact own_unexpected _ _

theorem own_optional (h : ∀ depth s, Own (decoder depth s)) (depth : Nat) (s : List Char) :
    Own (Decoder.optional decoder depth s) := by
  rw [Decoder.optional]
  split
  · exact ((syntactic_word _ _).map _).own
  · exact (h _ _).map _

theorem own_nested {inside : Nat → Reader α} (h : ∀ depth s, Own (inside depth s)) (depth : Nat)
    (s : List Char) : Own (Decoder.nested depth s inside) := by
  cases depth with
  | zero => exact .error rfl
  | succ depth => exact h depth s.tail

theorem own_bracketed {close : List Char → Option Failure × List Char} {inside : Reader α}
    (hclose : ∀ t f rest, close t = (some f, rest) → f.cause.isSyntax = true) {s : List Char}
    (h : Own (inside s)) : Own (bracketed close inside s) := by
  unfold bracketed
  split
  · split
    · exact .ok _
    · rename_i hfailed
      exact .error (Cause.isOwn_of_isSyntax (hclose _ _ _ hfailed))
  · rename_i f hf
    refine .error ?_
    rw [Failure.cause_place]
    exact h hf

/-- A loop over items fails between them or in one of them. -/
theorem own_items {step : β → Reader β} (h : ∀ b s, Own (step b s)) (limit : Nat) (first : Bool)
    (b : β) (s : List Char) : Own (Reader.items step limit first b s) := by
  induction limit generalizing first b s with
  | zero => exact .error rfl
  | succ limit ih =>
      rw [Reader.items]
      split
      · rename_i hnext
        exact (syntactic_nextItem _ _).own.pass hnext
      · exact .ok _
      · split
        · rename_i hstep
          exact (h _ _).pass hstep
        · exact ih _ _ _

theorem own_members {step : β → String → Reader β} (h : ∀ b key s, Own (step b key s))
    (limit : Nat) (first : Bool) (b : β) (s : List Char) :
    Own (Reader.members step limit first b s) := by
  induction limit generalizing first b s with
  | zero => exact .error rfl
  | succ limit ih =>
      rw [Reader.members]
      split
      · rename_i hnext
        exact (syntactic_nextKey _ _).own.pass hnext
      · exact .ok _
      · split
        · rename_i hstep
          exact (h _ _ _).pass hstep
        · exact ih _ _ _

theorem own_list (h : ∀ depth s, Own (decoder depth s)) (depth : Nat) (s : List Char) :
    Own (Decoder.list decoder depth s) := by
  rw [Decoder.list]
  split
  · refine (own_nested (fun depth s => ?_) _ _).map _
    exact own_bracketed (fun _ _ _ => isSyntax_of_closeArray)
      (own_items (fun done s => (h depth s).map _) _ _ _ s)
  · exact own_unexpected _ _

end Decoders

section Records

variable {α β : Type} {r : Record α} {depth : Nat}

/-- The failures in the value of a field are the reader's own. -/
def OwnField (field : Field α) : Prop := ∀ depth a s, Own (field.read depth a s)

theorem ownField_mandatory {decoder : Decoder β} (h : ∀ depth s, Own (decoder depth s))
    (name : String) (set : α → β → α) : OwnField (.mandatory name decoder set) :=
  fun depth _ s => (h depth s).map _

theorem ownField_defaulted {decoder : Decoder β} (h : ∀ depth s, Own (decoder depth s))
    (name : String) (set : α → β → α) : OwnField (.defaulted name decoder set) :=
  fun depth _ s => (h depth s).map _

theorem own_member (h : ∀ field ∈ r.fields, OwnField field) (p : Record.Partial α) (key : String)
    (s : List Char) : Own (r.member depth p key s) := by
  rw [Record.member]
  split
  · split
    · rename_i hcolon
      exact (syntactic_colon _).own.pass hcolon
    · exact ((syntactic_skipValue _).map _).own
  · rename_i field hfind
    split
    · exact .error rfl
    split
    · rename_i hcolon
      exact (syntactic_colon _).own.pass hcolon
    · exact (h field (List.mem_of_find?_eq_some hfind) _ _ _).map _

theorem own_finish (p : Record.Partial α) (s : List Char) : Own (r.finish p s) := by
  unfold Record.finish
  split
  · exact .error rfl
  · exact .ok _

theorem own_ofMembers (h : ∀ field ∈ r.fields, OwnField field) (s : List Char) :
    Own (r.ofMembers depth s) := by
  unfold Record.ofMembers
  split
  · rename_i hmembers
    exact (own_members (fun p key s => own_member h p key s) _ _ _ _).pass hmembers
  · exact own_finish _ _

theorem own_ofItems {fields : List (Field α)} (h : ∀ field ∈ fields, OwnField field)
    (index : Nat) (first : Bool) (a : α) (s : List Char) :
    Own (r.ofItems depth fields index first a s) := by
  induction fields generalizing index first a s with
  | nil => exact .ok _
  | cons field fields ih =>
      obtain ⟨hfield, hfields⟩ := List.forall_mem_cons.mp h
      rw [Record.ofItems]
      split
      · rename_i hnext
        exact (syntactic_nextItem _ _).own.pass hnext
      · split
        · rename_i hread
          exact (hfield _ _ _).pass hread
        · exact ih hfields _ _ _ _
      · split
        · exact .error rfl
        · exact ih hfields _ _ _ _

theorem own_record (h : ∀ field ∈ r.fields, OwnField field) (depth : Nat) (s : List Char) :
    Own (r.decoder depth s) := by
  rw [Record.decoder]
  split
  · exact own_nested (fun depth s => own_bracketed (fun _ _ _ => isSyntax_of_closeArray)
      (own_ofItems h _ _ _ s)) _ _
  · exact own_nested (fun depth s => own_bracketed (fun _ _ _ => isSyntax_of_closeObject)
      (own_ofMembers h s)) _ _
  · exact own_unexpected _ _

end Records

/-- What stands behind the value, if anything does, is an error of the reader's own too. -/
theorem isOwn_of_run {α : Type} {reader : Reader α} (h : ∀ s, Own (reader s)) {text : String}
    {e : Error} (hrun : Reader.run reader text = .error e) : e.cause.isOwn = true := by
  rw [Reader.run] at hrun
  split at hrun
  · rename_i f hf
    obtain rfl := Except.error.inj hrun
    exact h _ hf
  · split at hrun
    · cases hrun
    · obtain rfl := Except.error.inj hrun
      rfl

/-! ### Messages -/

/-- The message of the reader's own cause starts with an m only if a field is missing. -/
theorem startsApart_message {cause : Cause} (hown : cause.isOwn = true)
    (hmissing : ∀ name, cause ≠ .missingField name) : Text.StartsApart 'm' cause.message := by
  cases cause with
  | missingField name => exact absurd rfl (hmissing name)
  | custom message => cases hown
  | duplicateField name => exact .append (.append ⟨'d', _, rfl, by decide⟩ _) _
  | unknownVariant found expected =>
      exact .append (.append (.append ⟨'u', _, rfl, by decide⟩ _) _) _
  | invalidType found expected => exact .append (.append (.append ⟨'i', _, rfl, by decide⟩ _) _) _
  | invalidValue found expected => exact .append (.append (.append ⟨'i', _, rfl, by decide⟩ _) _) _
  | invalidLength length expected =>
      exact .append (.append (.append ⟨'i', _, rfl, by decide⟩ _) _) _
  | noVariant enumeration => exact .append ⟨'d', _, rfl, by decide⟩ _
  | _ => exact ⟨_, _, rfl, by decide⟩

end Json

end ResourceApi
