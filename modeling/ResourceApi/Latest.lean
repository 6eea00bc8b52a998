/-!
A slot that keeps the newest result when runs overlap. Runs are numbered in the order in which they
start, and a result is published only if no result of the same or a newer run has been. The newest
result stands behind a lock, which is held while a result is published.
-/

namespace ResourceApi

/-- What stands behind a lock, and whether someone has failed who held it. -/
structure Lock (α : Type) where
  content : α
  poisoned : Bool
  deriving DecidableEq, Repr, Inhabited

namespace Lock

variable {α : Type}

/-- Takes what stands behind the lock. It comes as an error if someone has failed who held it. -/
def take (l : Lock α) : Except α α := if l.poisoned then .error l.content else .ok l.content

/-- Takes what stands behind the lock, whoever has failed. -/
def recover (l : Lock α) : α :=
  match l.take with
  | .ok a => a
  | .error a => a

theorem recover_eq (l : Lock α) : l.recover = l.content := by
  rw [recover, take]
  cases l.poisoned <;> rfl

end Lock

/-- How many runs have been numbered, and the newest result with its number. -/
structure Latest (α : Type) where
  issued : Nat
  newest : Lock (Option (Nat × α))
  deriving DecidableEq, Repr, Inhabited

namespace Latest

variable {α β ε : Type}

def empty : Latest α := ⟨0, none, false⟩

/-- The number of the next run; the first is one. -/
def next (s : Latest α) : Nat × Latest α := (s.issued + 1, { s with issued := s.issued + 1 })

/-- The newest result with its number. -/
def accepted (s : Latest α) : Option (Nat × α) := s.newest.recover

/-- The number of the newest result. -/
def revision? (s : Latest α) : Option Nat := s.accepted.map Prod.fst

/-- Whether a result of the same or a newer run is there already. -/
def isStale (s : Latest α) (revision : Nat) : Bool :=
  s.revision?.any fun accepted => decide (revision ≤ accepted)

/-- What becomes of a result that is offered. -/
inductive Offer (ε β : Type) where
  | stale
  | published (b : β)
  | failed (e : ε)
  deriving DecidableEq, Repr, Inhabited

/-- The slot with another newest result. -/
def keep (s : Latest α) (revision : Nat) (value : α) : Latest α :=
  { s with newest.content := some (revision, value) }

/-- The slot after a failure of someone who held its lock. -/
def poison (s : Latest α) : Latest α := { s with newest.poisoned := true }

/-- Offers the result of a run. It is published unless it is stale, and it is kept once it has been
published. A publication that fails does so while the lock is held. -/
def offer (publish : α → Except ε β) (s : Latest α) (revision : Nat) (value : α) :
    Offer ε β × Latest α :=
  if s.isStale revision then (.stale, s)
  else
    match publish value with
    | .ok b => (.published b, s.keep revision value)
    | .error e => (.failed e, s.poison)

theorem accepted_eq (s : Latest α) : s.accepted = s.newest.content := s.newest.recover_eq

theorem accepted_keep (s : Latest α) (revision : Nat) (value : α) :
    (s.keep revision value).accepted = some (revision, value) :=
  accepted_eq _

theorem revision?_keep (s : Latest α) (revision : Nat) (value : α) :
    (s.keep revision value).revision? = some revision :=
  congrArg (Option.map Prod.fst) (s.accepted_keep revision value)

/-- Whoever comes after a failure finds the same result. -/
theorem accepted_poison (s : Latest α) : s.poison.accepted = s.accepted := by
  rw [accepted_eq, accepted_eq, poison]

theorem revision?_poison (s : Latest α) : s.poison.revision? = s.revision? :=
  congrArg (Option.map Prod.fst) s.accepted_poison

end Latest

end ResourceApi
