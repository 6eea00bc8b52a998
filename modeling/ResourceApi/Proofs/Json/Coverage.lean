import ResourceApi.Json.Spans
import ResourceApi.Proofs.Json.Pointers
import ResourceApi.Proofs.Json.Trees

/-!
What it means that spans cover a value: under the pointer of each part stands a range of characters
from which that part is read again. The spans of a value are those of its parts, the latest part
first, behind its own. Parts that a repeated key hides leave spans behind, but these are found under
no pointer of a part that stays.
-/

namespace ResourceApi

/-- The characters of a text in a range. -/
def Span.slice (span : Span) (text : String) : String :=
  String.ofList ((text.toList.drop span.start).take (span.stop - span.start))

/-- A range of characters of a text that are, read on their own, a value. -/
structure Span.Holds (span : Span) (text : String) (v : Json) : Prop where
  start_lt_stop : span.start < span.stop
  stop_le_length : span.stop ≤ text.length
  parse_slice : Json.parse (span.slice text) = .ok v

namespace Json.Spans

open Pointer (ofTokens)

/-! ### What spans cover -/

/-- The spans recorded for a value with these tokens: they are all below its pointer, they hold the
parts of the value that stay, and without repeated keys there are no others. -/
structure Covers (text : String) (entries : Entries Span) (ts : List String) (w : Json) : Prop where
  below : ∀ entry ∈ entries, ∃ us, entry.1 = ofTokens (ts ++ us)
  found : ∀ path node, (lastWins w).at? path = some node → ∃ span,
    entries.find? (ofTokens (ts ++ path.map Step.token)) = some span ∧ span.Holds text node
  only : w.DistinctKeys → ∀ entry ∈ entries, ∃ path, (w.at? path).isSome ∧
    entry.1 = ofTokens (ts ++ path.map Step.token)

/-- The spans of the parts of a value, the latest part first. -/
inductive CoversParts (text : String) (ts : List String) : Entries Span → Entries Json → Prop where
  | none : CoversParts text ts [] []
  | later {entries more : Entries Span} {parts : Entries Json} {token : String} {w : Json}
      (hparts : CoversParts text ts entries parts) (h : Covers text more (ts ++ [token]) w) :
      CoversParts text ts (entries ++ more) (parts ++ [(token, w)])

section Parts

variable {text : String} {ts : List String} {entries : Entries Span} {parts : Entries Json}

theorem CoversParts.token_below (h : CoversParts text ts entries parts) :
    ∀ entry ∈ entries, ∃ token ∈ parts.keys, ∃ us, entry.1 = ofTokens (ts ++ token :: us) := by
  induction h with
  | none => simp
  | @later entries more parts token w hparts h ih =>
      have hkeys : (parts ++ [(token, w)] : Entries Json).keys = parts.keys ++ [token] := by
        simp [Entries.keys]
      intro entry hentry
      rw [hkeys]
      rcases List.mem_append.mp hentry with hentry | hentry
      · obtain ⟨key, hkey, us, heq⟩ := ih entry hentry
        exact ⟨key, List.mem_append_left _ hkey, us, heq⟩
      · obtain ⟨us, heq⟩ := h.below entry hentry
        exact ⟨token, by simp, us, by rw [heq, List.append_assoc, List.singleton_append]⟩

theorem find?_eq_none_of_token (h : CoversParts text ts entries parts) {token : String}
    (htoken : token ∉ parts.keys) (us : List String) :
    entries.find? (ofTokens (ts ++ token :: us)) = none := by
  rw [Entries.find?_eq_none]
  intro hmem
  obtain ⟨entry, hentry, hpointer⟩ := List.mem_map.mp hmem
  obtain ⟨key, hkey, vs, heq⟩ := h.token_below entry hentry
  rw [hpointer] at heq
  have := List.append_cancel_left (Pointer.ofTokens_injective heq)
  exact htoken ((List.cons.inj this).1 ▸ hkey)

theorem CoversParts.found (h : CoversParts text ts entries parts) {token : String} {w node : Json}
    {path : Path} (hpart : parts.find? token = some w) (hnode : (lastWins w).at? path = some node) :
    ∃ span, entries.find? (ofTokens (ts ++ token :: path.map Step.token)) = some span ∧
      span.Holds text node := by
  induction h with
  | none => simp [Entries.find?] at hpart
  | @later entries more parts last u hparts h ih =>
      rw [Entries.find?_append] at hpart
      cases hfirst : parts.find? token with
      | some v =>
          rw [hfirst, Option.some_or] at hpart
          obtain ⟨span, hspan, hholds⟩ := ih (hfirst.trans hpart)
          exact ⟨span, by rw [Entries.find?_append, hspan, Option.some_or], hholds⟩
      | none =>
          rw [hfirst, Option.none_or, Entries.find?] at hpart
          split at hpart
          · rename_i hlast
            change last = token at hlast
            subst hlast
            obtain rfl := Option.some.inj hpart
            obtain ⟨span, hspan, hholds⟩ := h.found path node hnode
            rw [List.append_assoc, List.singleton_append] at hspan
            refine ⟨span, ?_, hholds⟩
            rw [Entries.find?_append,
              find?_eq_none_of_token hparts (Entries.find?_eq_none.mp hfirst), Option.none_or,
              hspan]
          · simp [Entries.find?] at hpart

theorem CoversParts.only (h : CoversParts text ts entries parts)
    (hdistinct : ∀ part ∈ parts, part.2.DistinctKeys) :
    ∀ entry ∈ entries, ∃ part ∈ parts, ∃ path, (part.2.at? path).isSome ∧
      entry.1 = ofTokens (ts ++ part.1 :: path.map Step.token) := by
  induction h with
  | none => simp
  | @later entries more parts token w hparts h ih =>
      obtain ⟨hearlier, hlast⟩ := List.forall_mem_append.mp hdistinct
      intro entry hentry
      rcases List.mem_append.mp hentry with hentry | hentry
      · obtain ⟨part, hpart, path, hpath, heq⟩ := ih hearlier entry hentry
        exact ⟨part, List.mem_append_left _ hpart, path, hpath, heq⟩
      · obtain ⟨path, hpath, heq⟩ := h.only (hlast _ (List.mem_singleton_self _)) entry hentry
        rw [List.append_assoc, List.singleton_append] at heq
        exact ⟨(token, w), by simp, path, hpath, heq⟩

/-- A value is covered by its own span before those of its parts. -/
theorem Covers.of_parts {w : Json} {span : Span} (h : CoversParts text ts entries parts)
    (hspan : span.Holds text (lastWins w))
    (hfound : ∀ step node, (lastWins w).step? step = some node → ∃ u,
      parts.find? step.token = some u ∧ node = lastWins u)
    (honly : w.DistinctKeys → ∀ part ∈ parts, part.2.DistinctKeys ∧ ∃ step : Step,
      step.token = part.1 ∧ w.step? step = some part.2) :
    Covers text ((ofTokens ts, span) :: entries) ts w where
  below := by
    refine List.forall_mem_cons.mpr ⟨⟨[], by rw [List.append_nil]⟩, fun entry hentry => ?_⟩
    obtain ⟨token, -, us, heq⟩ := h.token_below entry hentry
    exact ⟨token :: us, heq⟩
  found := by
    intro path node hnode
    cases path with
    | nil =>
        obtain rfl := Option.some.inj hnode
        exact ⟨span, by rw [List.map_nil, List.append_nil, Entries.find?, if_pos rfl], hspan⟩
    | cons step path =>
        obtain ⟨part, hpart, hnode⟩ := Option.bind_eq_some_iff.mp hnode
        obtain ⟨u, hu, rfl⟩ := hfound step part hpart
        obtain ⟨found, hfound, hholds⟩ := h.found hu hnode
        have hne : ofTokens ts ≠ ofTokens (ts ++ (step :: path).map Step.token) := by
          intro heq
          have := congrArg List.length (Pointer.ofTokens_injective heq)
          simp at this
        exact ⟨found, by rw [Entries.find?, if_neg hne]; exact hfound, hholds⟩
  only := by
    intro hdistinct
    refine List.forall_mem_cons.mpr ⟨⟨[], rfl, by rw [List.map_nil, List.append_nil]⟩,
      fun entry hentry => ?_⟩
    obtain ⟨part, hpart, path, hpath, heq⟩ :=
      h.only (fun part hpart => (honly hdistinct part hpart).1) entry hentry
    obtain ⟨step, hstep, hpart⟩ := (honly hdistinct part hpart).2
    refine ⟨step :: path, ?_, by rw [heq, List.map_cons, hstep]⟩
    rw [at?, hpart, Option.bind_some]
    exact hpath

/-- A value without parts is covered by its own span. -/
theorem Covers.of_no_parts {w : Json} {span : Span} (hspan : span.Holds text (lastWins w))
    (hnone : ∀ step, (lastWins w).step? step = none) :
    Covers text [(ofTokens ts, span)] ts w :=
  .of_parts .none hspan (fun step node hstep => by rw [hnone step] at hstep; cases hstep)
    (fun _ part hpart => by cases hpart)

/-- The items of an array by the tokens of their indices, the latest first. -/
def indexed (index : Nat) : List Json → Entries Json
  | [] => []
  | v :: vs => indexed (index + 1) vs ++ [(toString index, v)]

theorem mem_indexed {index : Nat} {vs : List Json} {part : String × Json}
    (h : part ∈ indexed index vs) :
    ∃ k, part.1 = toString (index + k) ∧ vs[k]? = some part.2 := by
  induction vs generalizing index with
  | nil => cases h
  | cons v vs ih =>
      rcases List.mem_append.mp h with h | h
      · obtain ⟨k, hkey, hitem⟩ := ih h
        exact ⟨k + 1, by rw [hkey, Nat.add_right_comm, Nat.add_assoc], hitem⟩
      · obtain rfl := List.mem_singleton.mp h
        exact ⟨0, rfl, rfl⟩

theorem find?_indexed (index k : Nat) (vs : List Json) :
    (indexed index vs).find? (toString (index + k)) = vs[k]? := by
  induction vs generalizing index k with
  | nil => rfl
  | cons v vs ih =>
      rw [indexed, Entries.find?_append]
      cases k with
      | zero =>
          have hnone : (indexed (index + 1) vs).find? (toString (index + 0)) = none := by
            rw [Entries.find?_eq_none]
            intro hmem
            obtain ⟨part, hpart, heq⟩ := List.mem_map.mp hmem
            obtain ⟨k, hkey, -⟩ := mem_indexed hpart
            have := Nat.repr_injective (heq.symm.trans hkey)
            omega
          rw [hnone, Option.none_or, Entries.find?, Nat.add_zero, if_pos rfl]
          rfl
      | succ k =>
          have hne : toString index ≠ toString (index + (k + 1)) := by
            intro heq
            have := Nat.repr_injective heq
            omega
          rw [Nat.add_comm k 1, ← Nat.add_assoc, ih, Nat.add_assoc, Nat.add_comm 1 k,
            Entries.find?, if_neg hne, Entries.find?, Option.or_none, List.getElem?_cons_succ]

theorem Covers.array {items : List Json} {span : Span}
    (h : CoversParts text ts entries (indexed 0 items))
    (hspan : span.Holds text (lastWins (.array items))) :
    Covers text ((ofTokens ts, span) :: entries) ts (.array items) := by
  refine .of_parts h hspan (fun step node hstep => ?_) (fun hdistinct part hpart => ?_)
  · rw [lastWins_array] at hstep
    cases step with
    | key k => cases hstep
    | index i =>
        rw [step?, item?, List.getElem?_map] at hstep
        obtain ⟨u, hu, rfl⟩ := Option.map_eq_some_iff.mp hstep
        refine ⟨u, ?_, rfl⟩
        have := find?_indexed 0 i items
        rw [Nat.zero_add] at this
        rw [Step.token, this, hu]
  · obtain ⟨k, hkey, hitem⟩ := mem_indexed hpart
    rw [Nat.zero_add] at hkey
    cases hdistinct with
    | array h => exact ⟨h _ (List.mem_of_getElem? hitem), .index k, hkey.symm, hitem⟩

theorem Covers.object {members : Entries Json} {span : Span}
    (h : CoversParts text ts entries members.reverse)
    (hspan : span.Holds text (lastWins (.object members))) :
    Covers text ((ofTokens ts, span) :: entries) ts (.object members) := by
  refine .of_parts h hspan (fun step node hstep => ?_) (fun hdistinct part hpart => ?_)
  · cases step with
    | key k =>
        rw [step?, member?_lastWins] at hstep
        obtain ⟨u, hu, rfl⟩ := Option.map_eq_some_iff.mp hstep
        exact ⟨u, hu, rfl⟩
    | index i =>
        rw [lastWins_object] at hstep
        cases hstep
  · cases hdistinct with
    | object hkeys h =>
        have hmem := List.mem_reverse.mp hpart
        exact ⟨h part hmem, .key part.1, rfl, Entries.find?_of_mem hkeys hmem⟩

end Parts

end Json.Spans

end ResourceApi
