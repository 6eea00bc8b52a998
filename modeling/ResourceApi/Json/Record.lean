import ResourceApi.Json.Skip

/-!
Typed readers. A record is read from an object, whose unknown members are passed over, or from an
array of its fields in order. A value of another kind, a missing or repeated field and a wrong
number of items are failures of their own.
-/

namespace ResourceApi.Json

/-- What the next value is, read where another kind is expected. Brackets are not consumed. -/
def Reader.unexpected (expected : String) (s : List Char) : Failure :=
  let found (r : Except Failure (Found × List Char)) : Failure :=
    match r with
    | .error f => f
    | .ok (found, rest) => .behind (.invalidType found expected) rest
  match Reader.skipBlank s with
  | [] => .behind .endInValue []
  | c :: rest =>
    if c = 'n' then found ((Reader.word ['u', 'l', 'l'] rest).map fun r => (.null, r.2))
    else if c = 't' then found ((Reader.word ['r', 'u', 'e'] rest).map fun r => (.bool true, r.2))
    else if c = 'f' then
      found ((Reader.word ['a', 'l', 's', 'e'] rest).map fun r => (.bool false, r.2))
    else if c = '-' then found ((Reader.number true rest).map fun r => (.number r.1, r.2))
    else if Reader.isDigit c then
      found ((Reader.number false (c :: rest)).map fun r => (.number r.1, r.2))
    else if c = '"' then found ((Reader.string rest).map fun r => (.string r.1, r.2))
    else if c = '[' then .behind (.invalidType .array expected) (c :: rest)
    else if c = '{' then .behind (.invalidType .object expected) (c :: rest)
    else .ahead1 .valueExpected (c :: rest)

/-- Typed readers take the depth to which their value may still be nested. -/
abbrev Decoder (α : Type) := Nat → Reader α

namespace Decoder

variable {α β : Type}

/-- Reads a string where `expected` names what it is. -/
def stringAs (expected : String) : Reader String := fun s =>
  match Reader.skipBlank s with
  | '"' :: rest => Reader.string rest
  | _ => .error (Reader.unexpected expected s)

def string : Decoder String := fun _ => stringAs "a string"

def bool : Decoder Bool := fun _ s =>
  match Reader.skipBlank s with
  | 't' :: rest => (Reader.word ['r', 'u', 'e'] rest).map fun r => (true, r.2)
  | 'f' :: rest => (Reader.word ['a', 'l', 's', 'e'] rest).map fun r => (false, r.2)
  | _ => .error (Reader.unexpected "a boolean" s)

/-- A natural number of 64 bits. -/
def natural : Decoder Nat := fun _ s =>
  let check (r : Except Failure (Number × List Char)) : Except Failure (Nat × List Char) :=
    match r with
    | .error f => .error f
    | .ok (.integer (.ofNat n), rest) => .ok (n, rest)
    | .ok (.integer i, rest) =>
      .error (.behind (.invalidValue (.number (.integer i)) "usize") rest)
    | .ok (.real x, rest) => .error (.behind (.invalidType (.number (.real x)) "usize") rest)
  match Reader.skipBlank s with
  | '-' :: rest => check (Reader.number true rest)
  | c :: rest =>
    if Reader.isDigit c then check (Reader.number false (c :: rest))
    else .error (Reader.unexpected "usize" s)
  | [] => .error (.behind .endInValue [])

/-- A value, or `null` for none. -/
def optional (decoder : Decoder α) : Decoder (Option α) := fun depth s =>
  match Reader.skipBlank s with
  | 'n' :: rest => (Reader.word ['u', 'l', 'l'] rest).map fun r => (none, r.2)
  | s => (decoder depth s).map fun r => (some r.1, r.2)

/-- Opens a bracket if the depth allows it. -/
def nested (depth : Nat) (s : List Char) (inside : Nat → Reader α) :
    Except Failure (α × List Char) :=
  match depth with
  | 0 => .error (.ahead1 .tooDeep s)
  | depth + 1 => inside depth s.tail

/-- An array of values of one kind. -/
def list (decoder : Decoder α) : Decoder (List α) := fun depth s =>
  match Reader.skipBlank s with
  | '[' :: rest =>
    (nested depth ('[' :: rest) fun depth s =>
      let step (done : List α) : Reader (List α) := fun s =>
        (decoder depth s).map fun r => (r.1 :: done, r.2)
      Reader.bracketed Reader.closeArray (Reader.items step (s.length + 1) true []) s).map
        fun r => (r.1.reverse, r.2)
  | _ => .error (Reader.unexpected "a sequence" s)

/-- An object of values of one kind, under any keys. -/
def dict (decoder : Decoder α) : Decoder (Dict α) := fun depth s =>
  match Reader.skipBlank s with
  | '{' :: rest =>
    nested depth ('{' :: rest) fun depth s =>
      let step (done : Dict α) (key : String) : Reader (Dict α) := fun s =>
        match Reader.colon s with
        | .error f => .error f
        | .ok (_, s) => (decoder depth s).map fun r => (done.insert key r.1, r.2)
      Reader.bracketed Reader.closeObject (Reader.members step (s.length + 1) true .empty) s
  | _ => .error (Reader.unexpected "a map" s)

/-- A choice between names: a string, or an object whose only key is the name and whose value is
`null`. -/
def choice (expected : List String) (ofName? : String → Option α) : Decoder α := fun depth s =>
  let pick (name : String) (rest : List Char) : Except Failure (α × List Char) :=
    match ofName? name with
    | some a => .ok (a, rest)
    | none => .error (.behind (.unknownVariant name expected) rest)
  match Reader.skipBlank s with
  | '"' :: rest =>
    match Reader.string rest with
    | .error f => .error f
    | .ok (name, rest) => pick name rest
  | '{' :: rest =>
    nested depth ('{' :: rest) fun _ s =>
      match stringAs "variant identifier" s with
      | .error f => .error f
      | .ok (name, s) =>
        match pick name s with
        | .error f => .error f
        | .ok (a, s) =>
          match Reader.colon s with
          | .error f => .error f
          | .ok (_, s) =>
            match Reader.skipBlank s with
            | 'n' :: s =>
              match Reader.word ['u', 'l', 'l'] s with
              | .error f => .error f
              | .ok (_, s) =>
                match Reader.skipBlank s with
                | '}' :: s => .ok (a, s)
                | [] => .error (.behind .endInObject [])
                | s => .error (.behind .valueExpected s)
            | s => .error (Reader.unexpected "unit" s)
  | [] => .error (.behind .endInValue [])
  | s => .error (.ahead1 .valueExpected s)

end Decoder

/-- A field of a record: how its value, once read, changes the record. -/
structure Field (α : Type) where
  name : String
  required : Bool
  read : Nat → α → Reader α

/-- A field that must be there. -/
def Field.mandatory {α β : Type} (name : String) (decoder : Decoder β) (set : α → β → α) :
    Field α :=
  ⟨name, true, fun depth a s => (decoder depth s).map fun r => (set a r.1, r.2)⟩

/-- A field that keeps its default when it is not there. -/
def Field.defaulted {α β : Type} (name : String) (decoder : Decoder β) (set : α → β → α) :
    Field α :=
  ⟨name, false, fun depth a s => (decoder depth s).map fun r => (set a r.1, r.2)⟩

/-- How a record is read: what it is called, its value before any field is read, its fields. -/
structure Record (α : Type) where
  name : String
  initial : α
  fields : List (Field α)

namespace Record

variable {α : Type}

/-- The name of the record with its number of fields. -/
def sized (r : Record α) : String :=
  r.name ++ " with " ++ toString r.fields.length
    ++ (if r.fields.length = 1 then " element" else " elements")

/-- A record on the way: its value so far and the names of the fields that have been read. -/
structure Partial (α : Type) where
  value : α
  seen : List String

/-- Reads the member of an object behind its key. -/
def member (r : Record α) (depth : Nat) (p : Partial α) (key : String) : Reader (Partial α) :=
  fun s =>
    match r.fields.find? fun field => field.name = key with
    | none =>
      match Reader.colon s with
      | .error f => .error f
      | .ok (_, s) => (Reader.skipValue s).map fun r => (p, r.2)
    | some field =>
      if p.seen.contains key then .error (.floating (.duplicateField key) s)
      else match Reader.colon s with
        | .error f => .error f
        | .ok (_, s) => (field.read depth p.value s).map fun r => (⟨r.1, key :: p.seen⟩, r.2)

/-- The first required field that has not been read is missing. -/
def finish (r : Record α) (p : Partial α) (s : List Char) : Except Failure (α × List Char) :=
  match r.fields.find? fun field => field.required && !p.seen.contains field.name with
  | some field => .error (.floating (.missingField field.name) s)
  | none => .ok (p.value, s)

/-- The members of an object up to its closing brace. -/
def ofMembers (r : Record α) (depth : Nat) : Reader α := fun s =>
  match Reader.members (r.member depth) (s.length + 1) true ⟨r.initial, []⟩ s with
  | .error f => .error f
  | .ok (p, s) => r.finish p s

/-- The items of an array, one for each field; fields with a default may be left out at the end. -/
def ofItems (r : Record α) (depth : Nat) : List (Field α) → Nat → Bool → α → Reader α
  | [], _, _, a, s => .ok (a, s)
  | field :: fields, index, first, a, s =>
    match Reader.nextItem first s with
    | .error f => .error f
    | .ok (true, s) =>
      match field.read depth a s with
      | .error f => .error f
      | .ok (a, s) => ofItems r depth fields (index + 1) false a s
    | .ok (false, s) =>
      if field.required then .error (.floating (.invalidLength index r.sized) s)
      else ofItems r depth fields (index + 1) first a s

def decoder (r : Record α) : Decoder α := fun depth s =>
  match Reader.skipBlank s with
  | '[' :: rest =>
    Decoder.nested depth ('[' :: rest) fun depth s =>
      Reader.bracketed Reader.closeArray (ofItems r depth r.fields 0 true r.initial) s
  | '{' :: rest =>
    Decoder.nested depth ('{' :: rest) fun depth s =>
      Reader.bracketed Reader.closeObject (r.ofMembers depth) s
  | _ => .error (Reader.unexpected r.name s)

/-- Reads a record from a whole text. -/
def parse (r : Record α) (text : String) : Except Error α :=
  Reader.run (r.decoder Reader.depthLimit) text

end Record

end ResourceApi.Json
