/-!
Tables of code points. A table is written as text, for each run of code points the gap before it
and its length, and looked up by bisection.
-/

namespace ResourceApi.Text

/-- Reads one more character: a digit goes to the number at hand, and any other one ends it. -/
def readDigit (state : Option Nat × List Nat) (c : Char) : Option Nat × List Nat :=
  if c.isDigit then (some (10 * state.1.getD 0 + (c.toNat - '0'.toNat)), state.2)
  else match state.1 with
    | some n => (none, n :: state.2)
    | none => state

def numbersOf (s : List Char) : List Nat :=
  let (open?, done) := s.foldl readDigit (none, [])
  (match open? with
    | some n => n :: done
    | none => done).reverse

/-- The natural numbers in a text, whatever stands between them. -/
def numbers (s : String) : List Nat := numbersOf s.toList

/-- The last entry whose key is at most `n`, in an array sorted by key. -/
def lastAtMost {α : Type} (entries : Array α) (key : α → Nat) (n : Nat) : Option α :=
  let rec search : Nat → Nat → Nat → Option α
    | 0, low, _ => if low = 0 then none else entries[low - 1]?
    | fuel + 1, low, high =>
      if high ≤ low then (if low = 0 then none else entries[low - 1]?)
      else
        let middle := (low + high) / 2
        match entries[middle]? with
        | some entry =>
          if key entry ≤ n then search fuel (middle + 1) high else search fuel low middle
        | none => none
  search entries.size.log2.succ.succ 0 entries.size

/-- Disjoint runs of code points in ascending order: first and last code point. -/
structure RangeTable where
  runs : Array (Nat × Nat)

namespace RangeTable

/-- Reads the gaps and lengths of the runs. -/
def ofText (s : String) : RangeTable :=
  let rec build : List Nat → Nat → Array (Nat × Nat) → Array (Nat × Nat)
    | gap :: length :: rest, start, runs =>
      build rest (start + gap + length) (runs.push (start + gap, start + gap + length - 1))
    | _, _, runs => runs
  ⟨build (numbers s) 0 #[]⟩

def contains (table : RangeTable) (n : Nat) : Bool :=
  match lastAtMost table.runs (fun run => run.1) n with
  | some (_, last) => n ≤ last
  | none => false

end RangeTable

end ResourceApi.Text
