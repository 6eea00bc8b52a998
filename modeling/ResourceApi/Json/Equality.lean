import ResourceApi.Json.Value

/-!
Equality of JSON values. Numbers are compared as doubles; objects are equal if they have equal
members in the same order.
-/

namespace ResourceApi

namespace Binary64

/-- Whether two numbers are the same point of the number line; both zeros are. -/
def same (x y : Binary64) : Bool := x = y || (x.isZero && y.isZero)

end Binary64

namespace Json

mutual

/-- Equality of values, where a test compares numbers. -/
def equalBy (number : Number → Number → Bool) : Json → Json → Bool
  | .null, .null => true
  | .bool a, .bool b => a = b
  | .number a, .number b => number a b
  | .string a, .string b => a = b
  | .array a, .array b => equalItems number a b
  | .object a, .object b => equalMembers number a b
  | _, _ => false

def equalItems (number : Number → Number → Bool) : List Json → List Json → Bool
  | [], [] => true
  | a :: as, b :: bs => equalBy number a b && equalItems number as bs
  | _, _ => false

def equalMembers (number : Number → Number → Bool) :
    List (String × Json) → List (String × Json) → Bool
  | [], [] => true
  | a :: as, b :: bs => equalMember number a b && equalMembers number as bs
  | _, _ => false

def equalMember (number : Number → Number → Bool) : String × Json → String × Json → Bool
  | (k, a), (l, b) => k = l && equalBy number a b

end

/-- Numbers are equal if they are as doubles. -/
def Number.sameDouble (a b : Number) : Bool := a.toBinary64.same b.toBinary64

/-- Numbers are equal if they also were read the same way. -/
def Number.sameKind (a b : Number) : Bool := a = b

def equal (a b : Json) : Bool := equalBy Number.sameDouble a b

/-- Compares two numbers exactly. -/
def Number.compare (a b : Number) : Ordering :=
  let (n, d) := a.toFraction
  let (m, e) := b.toFraction
  Ord.compare (n * e) (m * d)

/-- Whether two numbers differ, as doubles, by less than `2 ^ -52`. -/
def Number.near (a b : Number) : Bool :=
  let (n, d) := a.toBinary64.toFraction
  let (m, e) := b.toBinary64.toFraction
  match Binary64.round false (n * e - m * d).natAbs (d * e) with
  | some x =>
    let (n, d) := x.magnitude
    n * Nat.pow 2 52 < d
  | none => false

end Json

end ResourceApi
