import ResourceApi.Proofs.Json.Lists
import ResourceApi.Proofs.Json.Trees

/-!
The reader of values and the grammar agree. Whatever way members are collected, the reader takes
exactly the written values that are not nested too deep, and it gives the value in which the members
of each object have been collected.
-/

namespace ResourceApi.Json

open Reader

variable {collect : Collect}

/-! ### What is written is read -/

theorem map_toOption {ε α β : Type} (r : Except ε α) (f : α → β) :
    (r.map f).toOption = r.toOption.map f := by
  cases r <;> rfl

theorem bind_toOption {ε α β : Type} (r : Except ε α) (g : α → Except ε β) :
    (r.bind g).toOption = r.toOption.bind fun a => (g a).toOption := by
  cases r <;> rfl

theorem word_append (w rest : List Char) : word w (w ++ rest) = .ok ((), rest) := by
  induction w with
  | nil => rfl
  | cons c w ih => simp only [List.cons_append, word, if_true, ih]

theorem bracketed_toOption {α : Type} {close : List Char → Option Failure × List Char}
    {inside : Reader α} {s t : List Char} {c : Char} {o : Option α}
    (hinside : (inside s).toOption = o.map fun a => (a, c :: t))
    (hclose : close (c :: t) = (none, t)) :
    (bracketed close inside s).toOption = o.map fun a => (a, t) := by
  unfold bracketed
  cases hr : inside s with
  | error e =>
      rw [eq_none_of_toOption hinside hr]
      rfl
  | ok r =>
      obtain ⟨a, rfl, rfl⟩ := eq_some_of_toOption hinside hr
      simp only [hclose]
      rfl

theorem closeArray_cons (t : List Char) : closeArray (']' :: t) = (none, t) := rfl

theorem closeObject_cons (t : List Char) : closeObject ('}' :: t) = (none, t) := rfl

theorem ne_of_digit {c d : Char} (hc : isDigit c = true) (hd : isDigit d = false) : c ≠ d := by
  rintro rfl
  rw [hc] at hd
  cases hd

/-- What stands between brackets is longer than the number of its parts. -/
theorem length_lt_listed {α : Type} (close : Char) (b : List Char) (parts : List α)
    (chars : α → List Char) (rest : List Char) :
    parts.length < (listed close b (parts.map chars) ++ rest).length + 1 := by
  cases parts with
  | nil => simp
  | cons part parts =>
      have := length_lt_followed close (parts.map chars)
      simp only [List.map_cons, listed, List.length_cons, List.length_append, List.length_map]
        at this ⊢
      omega

theorem colon_append {b : List Char} (hb : Blank b) (s : List Char) :
    colon (b ++ ':' :: s) = .ok ((), s) := by
  rw [colon, skipBlank_append hb]
  rfl

/-- Reads one more item of an array. -/
def itemStep (collect : Collect) (depth : Nat) (done : List Json) : Reader (List Json) :=
  fun s => (valueBy collect depth s).map fun r => (r.1 :: done, r.2)

/-- Reads the colon and the value of one more member of an object. -/
def memberStep (collect : Collect) (depth : Nat) (done : List (String × Json)) (key : String) :
    Reader (List (String × Json)) :=
  fun s => match colon s with
  | .error f => .error f
  | .ok (_, s) => (valueBy collect depth s).map fun r => (collect key r.1 done, r.2)

section Openings

variable {depth : Nat} {lead : List Char}

/-- Blanks before a value do not matter. -/
theorem valueBy_append (hlead : Blank lead) (s : List Char) :
    valueBy collect depth (lead ++ s) = valueBy collect depth s := by
  rw [valueBy, valueBy, skipBlank_append hlead]

theorem valueBy_string (hlead : Blank lead) (s : List Char) :
    valueBy collect depth (lead ++ '"' :: s) =
      (Reader.string s).map fun r => (.string r.1, r.2) := by
  rw [valueBy_append hlead]
  cases depth <;> rfl

theorem valueBy_array (hlead : Blank lead) (s : List Char) :
    valueBy collect (depth + 1) (lead ++ '[' :: s) =
      (bracketed closeArray (Reader.items (itemStep collect depth) (s.length + 1) true []) s).map
        fun r => (.array r.1.reverse, r.2) := by
  rw [valueBy_append hlead]
  rfl

theorem valueBy_object (hlead : Blank lead) (s : List Char) :
    valueBy collect (depth + 1) (lead ++ '{' :: s) =
      (bracketed closeObject (Reader.members (memberStep collect depth) (s.length + 1) true [])
        s).map fun r => (.object r.1, r.2) := by
  rw [valueBy_append hlead]
  rfl

theorem valueBy_minus (hlead : Blank lead) (s : List Char) :
    valueBy collect depth (lead ++ '-' :: s) =
      (Reader.number true s).map fun r => (.number r.1, r.2) := by
  rw [valueBy_append hlead]
  cases depth <;> rfl

theorem valueBy_digit {c : Char} (hlead : Blank lead) (hc : isDigit c = true) (s : List Char) :
    valueBy collect depth (lead ++ c :: s) =
      (Reader.number false (c :: s)).map fun r => (.number r.1, r.2) := by
  rw [valueBy_append hlead, valueBy, skipBlank_cons (not_blank_of_digit hc)]
  simp only [ne_of_digit hc (show isDigit 'n' = false by decide),
    ne_of_digit hc (show isDigit 't' = false by decide),
    ne_of_digit hc (show isDigit 'f' = false by decide),
    ne_of_digit hc (show isDigit '-' = false by decide), hc, if_false, if_true]

end Openings

theorem Numeral.reads {depth : Nat} {text : List Char} {n : Number} (h : Numeral text n) :
    Reads (valueBy collect depth) text (some (.number n)) := by
  intro lead rest hlead hrest
  cases h with
  | plain shape takes =>
      obtain ⟨c, t, rfl, hc⟩ := shape.cons
      have htakes := takes rest hrest
      rw [List.cons_append] at htakes ⊢
      rw [valueBy_digit hlead hc, htakes]
      rfl
  | minus shape takes =>
      rw [List.cons_append, valueBy_minus hlead, takes rest hrest]
      rfl

/-- Every written value that is not nested too deep is read, whatever follows it. -/
theorem Written.reads {depth : Nat} {text : List Char} {w : Json} (h : Written depth text w) :
    Reads (valueBy collect depth) text (some (gathered collect w)) := by
  induction h with
  | @nullWord depth | @trueWord depth | @falseWord depth =>
      intro lead rest hlead hrest
      rw [valueBy_append hlead]
      cases depth <;> rfl
  | number h => exact h.reads
  | string h =>
      intro lead rest hlead hrest
      obtain ⟨t, rfl⟩ := h.cons
      rw [List.cons_append, valueBy_string hlead, string_append h]
      rfl
  | @array depth blank items hblank hspaced hitems ih =>
      intro lead rest hlead hrest
      have hstep : ∀ i ∈ items, ∀ done, Reads (itemStep collect depth done) i.text
          (some (gathered collect i.value :: done)) := by
        intro i hi done lead rest hlead hrest
        rw [itemStep, map_toOption, ih i hi lead rest hlead hrest]
        rfl
      have hloop := items_remaining hspaced (fun i hi => (hitems i hi).opens) hstep hblank rest
        true (length_lt_listed ']' blank items Item.chars rest) []
      have hfold : items.foldlM (fun done i => some (gathered collect i.value :: done)) [] =
          some (items.map fun i => gathered collect i.value).reverse := by
        rw [← Option.pure_def, List.foldlM_pure, List.foldl_flip_cons_eq_append, List.append_nil]
      simp only [hfold, remaining] at hloop
      rw [List.cons_append, valueBy_array hlead, map_toOption,
        bracketed_toOption hloop (closeArray_cons rest), gathered_array]
      simp [Function.comp_def]
  | @object depth blank members hblank hspaced hmembers ih =>
      intro lead rest hlead hrest
      have hstep : ∀ m ∈ members, ∀ done, ReadsMember (memberStep collect depth done m.key) m
          (some (collect m.key (gathered collect m.value) done)) := by
        intro m hm done rest hrest
        have hread := ih m hm m.beforeValue rest (hspaced m hm).beforeValue hrest
        simp only [memberStep, colon_append (hspaced m hm).beforeColon, map_toOption, hread]
        rfl
      have hloop := members_remaining hspaced hstep hblank rest
        true (length_lt_listed '}' blank members Member.chars rest) []
      have hfold : members.foldlM
          (fun done m => some (collect m.key (gathered collect m.value) done)) [] =
          some ((members.map Member.entry).foldl
            (fun done entry => collect entry.1 (gathered collect entry.2) done) []) := by
        rw [← Option.pure_def, List.foldlM_pure, List.foldl_map]
        rfl
      simp only [hfold, remaining] at hloop
      rw [List.cons_append, valueBy_object hlead, map_toOption,
        bracketed_toOption hloop (closeObject_cons rest), gathered_object]
      rfl

/-! ### What is read is written -/

theorem word_eq_ok {w s rest : List Char} {u : Unit} (h : word w s = .ok (u, rest)) :
    s = w ++ rest := by
  induction w generalizing s with
  | nil =>
      simp only [word, Except.ok.injEq, Prod.mk.injEq] at h
      exact h.2
  | cons c w ih =>
      cases s with
      | nil => simp [word] at h
      | cons d s =>
          rw [word] at h
          split at h
          · rename_i hd
            rw [hd, ih h, List.cons_append]
          · simp at h

theorem map_eq_ok {ε α β : Type} {r : Except ε α} {f : α → β} {b : β} (h : r.map f = .ok b) :
    ∃ a, r = .ok a ∧ b = f a := by
  cases r with
  | error e => cases h
  | ok a => exact ⟨a, rfl, (Except.ok.inj h).symm⟩

theorem colon_eq_ok {s rest : List Char} {u : Unit} (h : colon s = .ok (u, rest)) :
    ∃ b, s = b ++ ':' :: rest ∧ Blank b := by
  obtain ⟨b, hs, hb⟩ := exists_blank s
  rw [colon] at h
  split at h
  · rename_i heq
    simp only [Except.ok.injEq, Prod.mk.injEq] at h
    obtain ⟨-, rfl⟩ := h
    exact ⟨b, by rw [hs, heq], hb⟩
  · simp at h
  · simp at h

theorem bracketed_eq_ok {α : Type} {close : List Char → Option Failure × List Char}
    {inside : Reader α} {s rest : List Char} {a : α}
    (h : bracketed close inside s = .ok (a, rest)) :
    ∃ r, inside s = .ok (a, r) ∧ close r = (none, rest) := by
  unfold bracketed at h
  split at h
  · rename_i r hr
    split at h
    · rename_i hclose
      simp only [Except.ok.injEq, Prod.mk.injEq] at h
      obtain ⟨rfl, rfl⟩ := h
      exact ⟨r, hr, hclose⟩
    · simp at h
  · simp at h

theorem closeArray_eq_ok {t rest : List Char} (h : closeArray (']' :: t) = (none, rest)) :
    t = rest := by
  rw [closeArray_cons] at h
  exact (Prod.mk.inj h).2

theorem closeObject_eq_ok {t rest : List Char} (h : closeObject ('}' :: t) = (none, rest)) :
    t = rest := by
  rw [closeObject_cons] at h
  exact (Prod.mk.inj h).2

/-- What a reader of values passes over, and the value it gives. -/
def Passes (collect : Collect) (depth : Nat) (s : List Char) (v : Json) (rest : List Char) :
    Prop :=
  ∃ lead text w, s = lead ++ (text ++ rest) ∧ Blank lead ∧ Written depth text w ∧
    v = gathered collect w

section Brackets

variable {depth : Nat} {s rest : List Char} {v : Json}

theorem array_of_ok
    (ih : ∀ {s rest v}, valueBy collect depth s = .ok (v, rest) → Passes collect depth s v rest)
    (h : (bracketed closeArray (Reader.items (itemStep collect depth) (s.length + 1) true [])
      s).map (fun r => (Json.array r.1.reverse, r.2)) = .ok (v, rest)) :
    Passes collect (depth + 1) ('[' :: s) v rest := by
  obtain ⟨⟨vs, r⟩, hr, hv⟩ := map_eq_ok h
  obtain ⟨rfl, rfl⟩ := Prod.mk.inj hv
  obtain ⟨t, hloop, hclose⟩ := bracketed_eq_ok hr
  have hstep : ∀ done s done' rest, itemStep collect depth done s = .ok (done', rest) →
      ∃ lead text w, s = lead ++ (text ++ rest) ∧ Blank lead ∧ Written depth text w ∧
        done' = gathered collect w :: done := by
    intro done s done' rest hstep
    obtain ⟨⟨v, r⟩, hr, hv⟩ := map_eq_ok hstep
    obtain ⟨rfl, rfl⟩ := Prod.mk.inj hv
    obtain ⟨lead, text, w, hs, hlead, hw, rfl⟩ := ih hr
    exact ⟨lead, text, w, hs, hlead, hw, rfl⟩
  obtain ⟨b, items, t, rfl, rfl, hb, hspaced, hwritten, rfl⟩ := items_of_ok hstep hloop
  obtain rfl := closeArray_eq_ok hclose
  refine ⟨[], _, _, rfl, by simp [Blank], .array hb hspaced hwritten, ?_⟩
  rw [gathered_array, List.foldl_flip_cons_eq_append, List.append_nil, List.reverse_reverse]

theorem object_of_ok
    (ih : ∀ {s rest v}, valueBy collect depth s = .ok (v, rest) → Passes collect depth s v rest)
    (h : (bracketed closeObject (Reader.members (memberStep collect depth) (s.length + 1) true [])
      s).map (fun r => (Json.object r.1, r.2)) = .ok (v, rest)) :
    Passes collect (depth + 1) ('{' :: s) v rest := by
  obtain ⟨⟨entries, r⟩, hr, hv⟩ := map_eq_ok h
  obtain ⟨rfl, rfl⟩ := Prod.mk.inj hv
  obtain ⟨t, hloop, hclose⟩ := bracketed_eq_ok hr
  have hstep : ∀ done key s done' rest, memberStep collect depth done key s = .ok (done', rest) →
      ∃ c lead text w, s = c ++ ':' :: (lead ++ (text ++ rest)) ∧ Blank c ∧ Blank lead ∧
        Written depth text w ∧ done' = collect key (gathered collect w) done := by
    intro done key s done' rest hstep
    unfold memberStep at hstep
    split at hstep
    · cases hstep
    · rename_i hcolon
      obtain ⟨c, rfl, hc⟩ := colon_eq_ok hcolon
      obtain ⟨⟨v, r⟩, hr, hv⟩ := map_eq_ok hstep
      obtain ⟨rfl, rfl⟩ := Prod.mk.inj hv
      obtain ⟨lead, text, w, rfl, hlead, hw, rfl⟩ := ih hr
      exact ⟨c, lead, text, w, rfl, hc, hlead, hw, rfl⟩
  obtain ⟨b, members, t, rfl, rfl, hb, hspaced, hwritten, rfl⟩ :=
    members_of_ok (g := fun done entry => collect entry.1 (gathered collect entry.2) done)
      hstep hloop
  obtain rfl := closeObject_eq_ok hclose
  refine ⟨[], _, _, rfl, by simp [Blank], .object hb hspaced hwritten, ?_⟩
  rw [gathered_object]

theorem word_of_ok {c : Char} {w : List Char} {u : Json} (hw : Written depth (c :: w) u)
    (hu : gathered collect u = u)
    (h : (word w s).map (fun r => (u, r.2)) = .ok (v, rest)) :
    Passes collect depth (c :: s) v rest := by
  obtain ⟨⟨_, r⟩, hr, hv⟩ := map_eq_ok h
  obtain ⟨rfl, rfl⟩ := Prod.mk.inj hv
  obtain rfl := word_eq_ok hr
  exact ⟨[], _, _, rfl, by simp [Blank], hw, hu.symm⟩

end Brackets

/-- A reader that succeeds has passed over a written value that is not nested too deep, and gives
the value with its members collected. -/
theorem written_of_valueBy {depth : Nat} {s rest : List Char} {v : Json}
    (h : valueBy collect depth s = .ok (v, rest)) : Passes collect depth s v rest := by
  induction depth using Nat.strongRecOn generalizing s rest v with
  | ind depth ih =>
  obtain ⟨lead, hs, hlead⟩ := exists_blank s
  suffices hpasses : Passes collect depth (skipBlank s) v rest by
    obtain ⟨blank, text, w, hskip, hblank, hw, hv⟩ := hpasses
    exact ⟨lead ++ blank, text, w, by rw [List.append_assoc, ← hskip, ← hs],
      List.forall_mem_append.mpr ⟨hlead, hblank⟩, hw, hv⟩
  rw [valueBy] at h
  cases hskip : skipBlank s with
  | nil => simp [hskip] at h
  | cons c t =>
      simp only [hskip] at h
      split at h
      · rename_i hc
        exact hc ▸ word_of_ok .nullWord rfl h
      split at h
      · rename_i hc
        exact hc ▸ word_of_ok .trueWord rfl h
      split at h
      · rename_i hc
        exact hc ▸ word_of_ok .falseWord rfl h
      split at h
      · rename_i hc
        obtain ⟨⟨n, r⟩, hr, hv⟩ := map_eq_ok h
        obtain ⟨rfl, rfl⟩ := Prod.mk.inj hv
        obtain ⟨text, htext, hn⟩ := numeral_of_minus hr
        exact ⟨[], text, _, by rw [hc, htext]; rfl, by simp [Blank], .number hn, rfl⟩
      split at h
      · obtain ⟨⟨n, r⟩, hr, hv⟩ := map_eq_ok h
        obtain ⟨rfl, rfl⟩ := Prod.mk.inj hv
        obtain ⟨text, htext, hn⟩ := numeral_of_number hr
        exact ⟨[], text, _, by rw [htext]; rfl, by simp [Blank], .number hn, rfl⟩
      split at h
      · rename_i hc
        obtain ⟨⟨k, r⟩, hr, hv⟩ := map_eq_ok h
        obtain ⟨rfl, rfl⟩ := Prod.mk.inj hv
        obtain ⟨text, htext, hk⟩ := string_eq_ok hr
        exact ⟨[], _, _, by rw [hc, htext]; rfl, by simp [Blank], .string hk, rfl⟩
      split at h
      · rename_i hc
        cases depth with
        | zero => simp at h
        | succ depth => exact hc ▸ array_of_ok (ih depth (Nat.lt_succ_self depth)) h
      split at h
      · rename_i hc
        cases depth with
        | zero => simp at h
        | succ depth => exact hc ▸ object_of_ok (ih depth (Nat.lt_succ_self depth)) h
      · simp at h

/-! ### Whole texts -/

theorem Written.mono {depth limit : Nat} {text : List Char} {w : Json} (h : Written depth text w)
    (hle : depth ≤ limit) : Written limit text w := by
  induction h generalizing limit with
  | nullWord => exact .nullWord
  | trueWord => exact .trueWord
  | falseWord => exact .falseWord
  | number h => exact .number h
  | string h => exact .string h
  | array hblank hspaced _ ih =>
      obtain ⟨limit, rfl⟩ : ∃ n, limit = n + 1 := ⟨limit - 1, by omega⟩
      exact .array hblank hspaced fun i hi => ih i hi (Nat.le_of_succ_le_succ hle)
  | object hblank hspaced _ ih =>
      obtain ⟨limit, rfl⟩ : ∃ n, limit = n + 1 := ⟨limit - 1, by omega⟩
      exact .object hblank hspaced fun m hm => ih m hm (Nat.le_of_succ_le_succ hle)

/-- The text is a value with nothing but blanks around it. -/
def IsDocument (text : String) (w : Json) : Prop :=
  ∃ lead value trail, text.toList = lead ++ (value ++ trail) ∧ Blank lead ∧ Blank trail ∧
    Written depthLimit value w

theorem skipBlank_blank {b : List Char} (hb : Blank b) : skipBlank b = [] := by
  rw [← List.append_nil b, skipBlank_append hb]
  rfl

theorem stops_of_blank {b : List Char} (hb : Blank b) : Stops b := by
  rw [← List.append_nil b]
  exact stops_blank hb stops_nil

theorem run_eq_ok {α : Type} {reader : Reader α} {text : String} {a : α}
    (h : Reader.run reader text = .ok a) :
    ∃ trail, reader text.toList = .ok (a, trail) ∧ Blank trail := by
  unfold Reader.run at h
  dsimp only at h
  split at h
  · cases h
  · rename_i b rest hread
    split at h
    · rename_i hskip
      obtain rfl := Except.ok.inj h
      obtain ⟨blank, hrest, hblank⟩ := exists_blank rest
      rw [hskip, List.append_nil] at hrest
      exact ⟨rest, hread, hrest ▸ hblank⟩
    · cases h

/-- On a document a reader of the whole text gives what it makes of the value. -/
theorem run_toOption {α : Type} {reader : Reader α} {text : String} {lead value trail : List Char}
    {outcome : Option α} (htext : text.toList = lead ++ (value ++ trail)) (hlead : Blank lead)
    (htrail : Blank trail) (hreads : Reads reader value outcome) :
    (Reader.run reader text).toOption = outcome := by
  have hread := hreads lead trail hlead (stops_of_blank htrail)
  unfold Reader.run
  rw [htext]
  dsimp only
  cases hr : reader (lead ++ (value ++ trail)) with
  | error f =>
      rw [eq_none_of_toOption hread hr]
      rfl
  | ok r =>
      obtain ⟨a, rfl, rfl⟩ := eq_some_of_toOption hread hr
      simp only [skipBlank_blank htrail]
      rfl

theorem eq_ok_of_toOption {ε α : Type} {r : Except ε α} {a : α} (h : r.toOption = some a) :
    r = .ok a := by
  cases r with
  | error e => cases h
  | ok b => rw [Option.some.inj h]

/-- The reader of values takes exactly the documents, whatever way members are collected. -/
theorem run_valueBy_eq_ok {text : String} {v : Json} :
    Reader.run (valueBy collect depthLimit) text = .ok v ↔
      ∃ w, IsDocument text w ∧ v = gathered collect w := by
  constructor
  · intro h
    obtain ⟨trail, hread, htrail⟩ := run_eq_ok h
    obtain ⟨lead, value, w, htext, hlead, hw, rfl⟩ := written_of_valueBy hread
    exact ⟨w, ⟨lead, value, trail, htext, hlead, htrail, hw⟩, rfl⟩
  · rintro ⟨w, ⟨lead, value, trail, htext, hlead, htrail, hw⟩, rfl⟩
    exact eq_ok_of_toOption (run_toOption htext hlead htrail hw.reads)

theorem parse_eq_ok {text : String} {v : Json} :
    Json.parse text = .ok v ↔ ∃ w, IsDocument text w ∧ v = lastWins w :=
  run_valueBy_eq_ok

/-- The reader that keeps every member gives the value that is written. -/
theorem everyMember_eq_ok {text : String} {w : Json} :
    Reader.run (everyMember depthLimit) text = .ok w ↔ IsDocument text w := by
  refine run_valueBy_eq_ok.trans ⟨?_, fun h => ⟨w, h, (gathered_append w).symm⟩⟩
  rintro ⟨w, hw, rfl⟩
  rwa [gathered_append]

/-- A written value that stands alone is read as it was inside its document. -/
theorem Written.parse {depth : Nat} {text : List Char} {w : Json} (h : Written depth text w)
    (hdepth : depth ≤ depthLimit) : Json.parse (String.ofList text) = .ok (lastWins w) := by
  refine parse_eq_ok.mpr ⟨w, ⟨[], text, [], ?_, by simp [Blank], by simp [Blank],
    h.mono hdepth⟩, rfl⟩
  rw [String.toList_ofList, List.append_nil, List.nil_append]

end ResourceApi.Json
