import Mathlib.Data.List.Nodup
import ResourceApi.Latest

/-!
The history of a slot. The steps of all tasks that share a slot stand in one list, in the order in
which the lock and the counter let them through, so every interleaving of tasks is such a list.
Numbers are issued one after the other, the numbers of published results increase, and what is kept
in the end depends only on what has been offered. A publication that fails leaves nothing behind.
-/

namespace ResourceApi.Latest

variable {α β ε : Type}

/-- What a task does with a slot: it takes a number, or it offers a result and publishes it in its
own way. -/
inductive Step (α β ε : Type) where
  | next
  | offer (publish : α → Except ε β) (revision : Nat) (value : α)

/-- What the task is told. -/
inductive Answer (β ε : Type) where
  | number (revision : Nat)
  | outcome (o : Offer ε β)
  deriving DecidableEq

def Step.isNext : Step α β ε → Bool
  | .next => true
  | .offer _ _ _ => false

/-- The result that is offered, with its number. -/
def Step.offered? : Step α β ε → Option (Nat × α)
  | .next => none
  | .offer _ revision value => some (revision, value)

def step (s : Latest α) : Step α β ε → Answer β ε × Latest α
  | .next => (.number s.next.1, s.next.2)
  | .offer publish revision value =>
    (.outcome (s.offer publish revision value).1, (s.offer publish revision value).2)

/-- The slot after some steps. -/
def after (s : Latest α) : List (Step α β ε) → Latest α
  | [] => s
  | x :: xs => after (s.step x).2 xs

/-- Steps with their answers. -/
def log (s : Latest α) : List (Step α β ε) → List (Step α β ε × Answer β ε)
  | [] => []
  | x :: xs => (x, (s.step x).1) :: log (s.step x).2 xs

/-- The numbers that have been issued. -/
def issuedIn (l : List (Step α β ε × Answer β ε)) : List Nat :=
  l.filterMap fun
    | (_, .number n) => some n
    | _ => none

/-- The numbers of the results that have been published. -/
def acceptedIn (l : List (Step α β ε × Answer β ε)) : List Nat :=
  l.filterMap fun
    | (.offer _ revision _, .outcome (.published _)) => some revision
    | _ => none

/-- No publication has failed. -/
def Unfailing (l : List (Step α β ε × Answer β ε)) : Prop :=
  ∀ x e, (x, Answer.outcome (.failed e)) ∉ l

/-- All results that have been offered, with their numbers. -/
def offers (h : List (Step α β ε)) : List (Nat × α) := h.filterMap Step.offered?

/-- The first of the results with the greatest number. -/
def firstNewest (os : List (Nat × α)) : Option (Nat × α) :=
  os.find? fun o => some o.1 = (os.map Prod.fst).max?

/-! ### One step -/

section Steps

variable {s t : Latest α} {publish : α → Except ε β} {revision : Nat} {value : α}

theorem isStale_eq_true : s.isStale revision = true ↔ ∃ r ∈ s.revision?, revision ≤ r := by
  simp [isStale, Option.any_eq_true]

theorem isStale_eq_false : s.isStale revision = false ↔ ∀ r ∈ s.revision?, r < revision := by
  simp [isStale, Option.any_eq_false]

theorem offer_of_stale (h : s.isStale revision = true) :
    s.offer publish revision value = (.stale, s) := by
  rw [offer, if_pos h]

theorem offer_of_ok (h : s.isStale revision = false) {b : β} (hb : publish value = .ok b) :
    s.offer publish revision value = (.published b, s.keep revision value) := by
  rw [offer, if_neg (by simp [h]), hb]

theorem offer_of_error (h : s.isStale revision = false) {e : ε} (he : publish value = .error e) :
    s.offer publish revision value = (.failed e, s.poison) := by
  rw [offer, if_neg (by simp [h]), he]

theorem issued_offer : (s.offer publish revision value).2.issued = s.issued := by
  cases hs : s.isStale revision with
  | true => rw [offer_of_stale hs]
  | false =>
      cases hp : publish value with
      | ok b => rw [offer_of_ok hs hp, keep]
      | error e => rw [offer_of_error hs hp, poison]

/-- The same numbers have been issued and the same result is kept; only the locks may differ. -/
structure Alike (s t : Latest α) : Prop where
  issued : s.issued = t.issued
  accepted : s.accepted = t.accepted

theorem Alike.isStale (h : Alike s t) (revision : Nat) :
    s.isStale revision = t.isStale revision := by
  rw [Latest.isStale, Latest.isStale, revision?, revision?, h.accepted]

/-- A publication that fails leaves a mark on the lock, and that is all. -/
theorem alike_of_failed {e : ε} (h : (s.offer publish revision value).1 = .failed e) :
    Alike (s.offer publish revision value).2 s := by
  cases hs : s.isStale revision with
  | true =>
      rw [offer_of_stale hs] at h
      cases h
  | false =>
      cases hp : publish value with
      | ok b =>
          rw [offer_of_ok hs hp] at h
          cases h
      | error e =>
          rw [offer_of_error hs hp]
          exact ⟨rfl, s.accepted_poison⟩

/-- A mark on the lock changes no answer. -/
theorem Alike.step (h : Alike s t) (x : Step α β ε) :
    (s.step x).1 = (t.step x).1 ∧ Alike (s.step x).2 (t.step x).2 := by
  cases x with
  | next =>
      refine ⟨?_, congrArg (· + 1) h.issued, h.accepted⟩
      rw [Latest.step, Latest.step, next, next, h.issued]
  | offer publish revision value =>
      rw [Latest.step, Latest.step]
      have hst := (h.isStale revision).symm
      cases hs : s.isStale revision with
      | true =>
          rw [offer_of_stale hs, offer_of_stale (hst.trans hs)]
          exact ⟨rfl, h⟩
      | false =>
          cases hp : publish value with
          | ok b =>
              rw [offer_of_ok hs hp, offer_of_ok (hst.trans hs) hp]
              exact ⟨rfl, h.issued, by rw [accepted_keep, accepted_keep]⟩
          | error e =>
              rw [offer_of_error hs hp, offer_of_error (hst.trans hs) hp]
              exact ⟨rfl, h.issued, by rw [accepted_poison, accepted_poison, h.accepted]⟩

end Steps

/-! ### Histories -/

section Histories

variable {s t : Latest α}

theorem after_append (s : Latest α) (xs ys : List (Step α β ε)) :
    s.after (xs ++ ys) = (s.after xs).after ys := by
  induction xs generalizing s with
  | nil => rfl
  | cons x xs ih => exact ih _

theorem Alike.log (h : Alike s t) (xs : List (Step α β ε)) :
    s.log xs = t.log xs ∧ Alike (s.after xs) (t.after xs) := by
  induction xs generalizing s t with
  | nil => exact ⟨rfl, h⟩
  | cons x xs ih =>
      obtain ⟨hanswer, hnext⟩ := h.step x
      obtain ⟨hlog, hafter⟩ := ih hnext
      exact ⟨by rw [Latest.log, Latest.log, hanswer, hlog], hafter⟩

/-- Numbers are issued one after the other. -/
theorem issuedIn_log (s : Latest α) (xs : List (Step α β ε)) :
    issuedIn (s.log xs) = List.range' (s.issued + 1) (xs.countP Step.isNext) := by
  induction xs generalizing s with
  | nil => rfl
  | cons x xs ih =>
      cases x with
      | next =>
          rw [List.countP_cons_of_pos rfl, List.range'_succ]
          exact congrArg (_ :: ·) (ih _)
      | offer publish revision value =>
          rw [List.countP_cons_of_neg (by simp [Step.isNext]), ← issued_offer]
          exact ih _

/-- What is kept has been published last, and each number that is accepted is greater than the one
before. -/
theorem acceptedIn_log (s : Latest α) (xs : List (Step α β ε)) :
    (s.revision?.toList ++ acceptedIn (s.log xs)).IsChain (· < ·) ∧
      (s.after xs).revision? = (s.revision?.toList ++ acceptedIn (s.log xs)).getLast? := by
  induction xs generalizing s with
  | nil => cases h : s.revision? <;> simp [h, log, after, acceptedIn]
  | cons x xs ih =>
      cases x with
      | next => exact ih s.next.2
      | offer publish revision value =>
          rw [log, after, step]
          cases hs : s.isStale revision with
          | true =>
              rw [offer_of_stale hs]
              exact ih s
          | false =>
              cases hp : publish value with
              | error e =>
                  rw [offer_of_error hs hp, ← revision?_poison]
                  exact ih s.poison
              | ok b =>
                  rw [offer_of_ok hs hp]
                  have hkeep := ih (s.keep revision value)
                  rw [revision?_keep] at hkeep
                  cases hr : s.revision? with
                  | none => exact hkeep
                  | some r =>
                      have hlt := isStale_eq_false.mp hs r hr
                      exact ⟨List.isChain_cons_cons.mpr ⟨hlt, hkeep.1⟩, hkeep.2⟩

theorem revision?_after_empty (h : List (Step α β ε)) :
    (empty.after h).revision? = (acceptedIn (empty.log h)).getLast? :=
  (acceptedIn_log empty h).2

theorem pairwise_acceptedIn (h : List (Step α β ε)) :
    (acceptedIn ((empty : Latest α).log h)).Pairwise (· < ·) :=
  List.isChain_iff_pairwise.mp (acceptedIn_log empty h).1

theorem lt_of_getLast? {l : List Nat} (hl : l.Pairwise (· < ·)) {n : Nat}
    (hlast : ∀ m ∈ l.getLast?, m < n) : ∀ m ∈ l, m < n := by
  rcases List.eq_nil_or_concat l with rfl | ⟨front, last, rfl⟩
  · simp
  · rw [List.concat_eq_append] at hl hlast ⊢
    have hn : last < n := hlast last List.getLast?_concat
    intro m hm
    rcases List.mem_append.mp hm with hm | hm
    · exact Nat.lt_trans ((List.pairwise_append.mp hl).2.2 m hm last List.mem_cons_self) hn
    · rwa [List.mem_singleton.mp hm]

/-- A result is fresh if all numbers that have been accepted are smaller. -/
theorem isStale_after_empty (h : List (Step α β ε)) (revision : Nat) :
    ((empty : Latest α).after h).isStale revision = false ↔
      ∀ r ∈ acceptedIn ((empty : Latest α).log h), r < revision := by
  rw [isStale_eq_false, revision?_after_empty]
  exact ⟨lt_of_getLast? (pairwise_acceptedIn h), fun hall r hr => hall r (List.mem_of_getLast? hr)⟩

end Histories

/-! ### The newest of all offers -/

section Newest

variable {os ps : List (Nat × α)} {a b o : Nat × α}

theorem le_of_mem_max? {l : List Nat} {m n : Nat} (hm : l.max? = some m) (hn : n ∈ l) : n ≤ m :=
  (List.max?_eq_some_iff.mp hm).2 n hn

theorem map_fst_firstNewest (os : List (Nat × α)) :
    (firstNewest os).map Prod.fst = (os.map Prod.fst).max? := by
  cases hmax : (os.map Prod.fst).max? with
  | none =>
      obtain rfl : os = [] := by simpa using hmax
      rfl
  | some m =>
      obtain ⟨o, ho, rfl⟩ := List.mem_map.mp (List.max?_eq_some_iff.mp hmax).1
      cases hfirst : firstNewest os with
      | none =>
          rw [firstNewest, List.find?_eq_none] at hfirst
          exact absurd hmax.symm (by simpa using hfirst o ho)
      | some p =>
          have hp := List.find?_some hfirst
          rw [hmax] at hp
          simpa using hp

/-- If no number is offered twice, the order of the offers does not matter. -/
theorem firstNewest_perm (hperm : os.Perm ps) (hnodup : (os.map Prod.fst).Nodup) :
    firstNewest os = firstNewest ps := by
  have hmax : (os.map Prod.fst).max? = (ps.map Prod.fst).max? := by
    apply Option.ext
    intro m
    rw [List.max?_eq_some_iff, List.max?_eq_some_iff]
    simp only [(hperm.map Prod.fst).mem_iff]
  have hfst : (firstNewest os).map Prod.fst = (firstNewest ps).map Prod.fst := by
    rw [map_fst_firstNewest, map_fst_firstNewest, hmax]
  cases ho : firstNewest os with
  | none =>
      rw [ho, Option.map_none] at hfst
      exact (Option.map_eq_none_iff.mp hfst.symm).symm
  | some o =>
      rw [ho, Option.map_some] at hfst
      obtain ⟨p, hp, heq⟩ := Option.map_eq_some_iff.mp hfst.symm
      have hmem := hperm.mem_iff.mpr (List.mem_of_find?_eq_some hp)
      rw [hp, List.inj_on_of_nodup_map hnodup (List.mem_of_find?_eq_some ho) hmem heq.symm]

/-- A result that is not newer than the one before it does not count. -/
theorem firstNewest_cons_le (h : b.1 ≤ a.1) :
    firstNewest (a :: b :: os) = firstNewest (a :: os) := by
  have hmax : (a.1 :: b.1 :: os.map Prod.fst).max? = (a.1 :: os.map Prod.fst).max? := by
    rw [List.max?_cons', List.max?_cons', List.foldl_cons, Nat.max_eq_left h]
  rw [firstNewest, firstNewest, List.map_cons, List.map_cons, List.map_cons, hmax]
  obtain ⟨m, hm⟩ : ∃ m, (a.1 :: os.map Prod.fst).max? = some m := ⟨_, List.max?_cons'⟩
  have ha := le_of_mem_max? hm List.mem_cons_self
  rw [hm, List.find?_cons, List.find?_cons, List.find?_cons]
  by_cases heq : a.1 = m
  · simp [heq]
  · have hb : b.1 ≠ m := by omega
    simp [heq, hb]

/-- A newer result takes the place of the one before it. -/
theorem firstNewest_cons_lt (h : a.1 < b.1) :
    firstNewest (a :: b :: os) = firstNewest (b :: os) := by
  have hmax : (a.1 :: b.1 :: os.map Prod.fst).max? = (b.1 :: os.map Prod.fst).max? := by
    rw [List.max?_cons', List.max?_cons', List.foldl_cons, Nat.max_eq_right (Nat.le_of_lt h)]
  rw [firstNewest, firstNewest, List.map_cons, List.map_cons, hmax]
  obtain ⟨m, hm⟩ : ∃ m, (b.1 :: os.map Prod.fst).max? = some m := ⟨_, List.max?_cons'⟩
  have hb := le_of_mem_max? hm List.mem_cons_self
  have ha : a.1 ≠ m := by omega
  rw [hm, List.find?_cons]
  simp [ha]

/-- As long as no publication fails, the first of the newest results is kept, and the lock is as it
was. -/
theorem newest_after (s : Latest α) (xs : List (Step α β ε)) (h : Unfailing (s.log xs)) :
    (s.after xs).newest =
      ⟨firstNewest (s.accepted.toList ++ offers xs), s.newest.poisoned⟩ := by
  induction xs generalizing s with
  | nil =>
      obtain ⟨issued, ⟨_ | o, poisoned⟩⟩ := s
      · rw [accepted_eq]
        rfl
      · simp [after, offers, firstNewest, accepted_eq]
  | cons x xs ih =>
      have htail : Unfailing ((s.step x).2.log xs) := fun y e hmem =>
        h y e (List.mem_cons_of_mem _ hmem)
      have hhead : ∀ e, (s.step x).1 ≠ .outcome (.failed e) := fun e heq =>
        h x e (heq ▸ List.mem_cons_self)
      have ih := ih _ htail
      cases x with
      | next => exact ih
      | offer publish revision value =>
          rw [after, ih]
          change _ = Lock.mk (firstNewest (s.accepted.toList ++ (revision, value) :: offers xs)) _
          rw [step] at hhead ⊢
          cases hs : s.isStale revision with
          | true =>
              rw [offer_of_stale hs]
              obtain ⟨r, hr, hle⟩ := isStale_eq_true.mp hs
              obtain ⟨o, ho, rfl⟩ := Option.map_eq_some_iff.mp hr
              rw [ho, Option.toList_some, List.singleton_append, List.singleton_append,
                firstNewest_cons_le hle]
          | false =>
              cases hp : publish value with
              | error e =>
                  rw [offer_of_error hs hp] at hhead
                  exact absurd rfl (hhead e)
              | ok b =>
                  rw [offer_of_ok hs hp, accepted_keep, Option.toList_some, List.singleton_append]
                  cases ho : s.accepted with
                  | none => rfl
                  | some o =>
                      have hlt := isStale_eq_false.mp hs o.1 (congrArg (Option.map Prod.fst) ho)
                      rw [Option.toList_some, List.singleton_append, firstNewest_cons_lt hlt]
                      rfl

theorem newest_after_empty {h : List (Step α β ε)} (hh : Unfailing ((empty : Latest α).log h)) :
    (empty.after h).newest = ⟨firstNewest (offers h), false⟩ := newest_after empty h hh

end Newest

/-! ### Whole histories -/

/-- A slot that several tasks share. The numbers that are issued count from one. A result is
published exactly if its number is greater than all that have been accepted, so the accepted numbers
increase. As long as no publication fails, the slot keeps the first of the results with the greatest
number, whatever the order of the offers. A publication that fails changes neither what the slot
keeps nor any later answer. -/
theorem newest_revision_wins :
    (∀ h : List (Step α β ε), issuedIn ((empty : Latest α).log h) =
      List.range' 1 (h.countP Step.isNext)) ∧
    (∀ (h : List (Step α β ε)) (publish : α → Except ε β) revision value,
      (((empty : Latest α).after h).offer publish revision value).1 =
        if ∀ r ∈ acceptedIn ((empty : Latest α).log h), r < revision then
          match publish value with
          | .ok b => .published b
          | .error e => .failed e
        else .stale) ∧
    (∀ h : List (Step α β ε), (acceptedIn ((empty : Latest α).log h)).Pairwise (· < ·)) ∧
    (∀ h : List (Step α β ε), Unfailing ((empty : Latest α).log h) →
      (empty.after h).revision? = ((offers h).map Prod.fst).max? ∧
      (empty.after h).accepted = firstNewest (offers h) ∧
      ∀ h' : List (Step α β ε), Unfailing ((empty : Latest α).log h') →
        (offers h).Perm (offers h') → ((offers h).map Prod.fst).Nodup →
        (empty.after h).newest = (empty.after h').newest) ∧
    ∀ (h later : List (Step α β ε)) (publish : α → Except ε β) revision value e,
      (((empty : Latest α).after h).offer publish revision value).1 = .failed e →
      Alike (empty.after (h ++ [.offer publish revision value])) (empty.after h) ∧
      (empty.after (h ++ [.offer publish revision value])).log later = (empty.after h).log later ∧
      Alike (empty.after (h ++ .offer publish revision value :: later))
        (empty.after (h ++ later)) := by
  refine ⟨issuedIn_log empty, ?_, pairwise_acceptedIn, ?_, ?_⟩
  · intro h publish revision value
    cases hs : ((empty : Latest α).after h).isStale revision with
    | true =>
        rw [offer_of_stale hs, if_neg]
        rw [← isStale_after_empty, hs]
        decide
    | false =>
        rw [if_pos ((isStale_after_empty h revision).mp hs)]
        cases hp : publish value with
        | ok b => rw [offer_of_ok hs hp]
        | error e => rw [offer_of_error hs hp]
  · intro h hh
    have hnewest := newest_after_empty hh
    have haccepted : (empty.after h).accepted = firstNewest (offers h) := by
      rw [accepted_eq, hnewest]
    refine ⟨?_, haccepted, ?_⟩
    · rw [revision?, haccepted, map_fst_firstNewest]
    · intro h' hh' hperm hnodup
      rw [hnewest, newest_after_empty hh', firstNewest_perm hperm hnodup]
  · intro h later publish revision value e hfailed
    have halike : Alike (((empty : Latest α).after h).offer publish revision value).2
        (empty.after h) := alike_of_failed hfailed
    rw [after_append, after_append, after_append]
    exact ⟨halike, (halike.log later).1, (halike.log later).2⟩

/-- Two runs of which the newer one ends first. -/
def overtaken : List (Step String String String) :=
  [.next, .next, .offer .ok 2 "second", .offer .ok 1 "first"]

theorem newest_revision_wins_overtaken :
    (empty.after overtaken).accepted = some (2, "second") ∧
      Alike (empty.after (overtaken ++ [.offer (fun _ => .error "closed") 3 "third"]))
        (empty.after overtaken) := by
  obtain ⟨-, -, -, hkept, hfailed⟩ :=
    newest_revision_wins (α := String) (β := String) (ε := String)
  have hunfailing : Unfailing ((empty : Latest String).log overtaken) := by
    intro x e hmem
    have hanswers : ((empty : Latest String).log overtaken).map Prod.snd =
        [.number 1, .number 2, .outcome (.published "second"), .outcome .stale] := by decide
    have := List.mem_map_of_mem (f := Prod.snd) hmem
    rw [hanswers] at this
    simp at this
  refine ⟨(hkept overtaken hunfailing).2.1.trans (by decide), ?_⟩
  exact (hfailed overtaken [] (fun _ => .error "closed") 3 "third" "closed" (by decide)).1

end ResourceApi.Latest
