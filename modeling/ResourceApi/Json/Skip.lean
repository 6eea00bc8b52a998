import ResourceApi.Json.Reader

/-!
Passing over a value that no field asks for. It is checked for its grammar only: there is no limit
on its depth, its numbers may be of any size and its strings may hold unpaired surrogates.
-/

namespace ResourceApi.Json.Reader

/-- A string behind its opening quote. -/
def skipString : Nat → Reader Unit
  | 0, s => .error (.behind .endInString s)
  | _ + 1, [] => .error (.behind .endInString [])
  | fuel + 1, c :: s =>
    if c = '"' then .ok ((), s)
    else if c = '\\' then
      match s with
      | [] => .error (.behind .endInString [])
      | 'u' :: s =>
        match hexUnit s with
        | .error f => .error f
        | .ok (_, s) => skipString fuel s
      | e :: s =>
        if (simpleEscape? e).isSome then skipString fuel s
        else .error (.ahead1 .escapeUnknown (e :: s))
    else if c.toNat < 32 then .error (.behind .controlCharacter (c :: s))
    else skipString fuel s

/-- What stands behind the exponent mark. -/
def skipExponent : Reader Unit := fun s =>
  let s := match s with
    | '+' :: s => s
    | '-' :: s => s
    | s => s
  if startsWithDigit s then .ok ((), s.dropWhile isDigit)
  else .error (.ahead1 .numberMalformed s)

/-- The exponent part if there is one. -/
def skipExponent? : Reader Unit
  | 'e' :: s => skipExponent s
  | 'E' :: s => skipExponent s
  | s => .ok ((), s)

/-- A number behind its sign. -/
def skipNumber : Reader Unit
  | c :: s =>
    let afterInteger : Reader Unit
      | '.' :: s =>
        if startsWithDigit s then skipExponent? (s.dropWhile isDigit)
        else .error (.ahead1 .numberMalformed s)
      | s => skipExponent? s
    if c = '0' then
      if startsWithDigit s then .error (.ahead1 .numberMalformed s) else afterInteger s
    else if isDigit c then afterInteger (s.dropWhile isDigit)
    else .error (.ahead1 .numberMalformed (c :: s))
  | [] => .error (.ahead1 .numberMalformed [])

/-- The brackets that are open around a place. -/
inductive Frame where
  | array
  | object
  deriving DecidableEq, Repr

/-- The key of a member and its colon. -/
def skipKey : Reader Unit := fun s =>
  match skipBlank s with
  | '"' :: rest =>
    match skipString (rest.length + 1) rest with
    | .error f => .error f
    | .ok (_, rest) => colon rest
  | [] => .error (.behind .endInObject [])
  | rest => .error (.ahead1 .keyNotString rest)

/-- Goes on to where the next value starts, or to the end of the outermost bracket: closes brackets
and passes a comma, which is due unless a bracket has just been opened. -/
def skipBetween : Bool → List Frame → Reader (List Frame)
  | _, [], s => .ok ([], s)
  | comma, frame :: frames, s =>
    let enter (rest : List Char) : Except Failure (List Frame × List Char) :=
      match frame with
      | .array => .ok (frame :: frames, rest)
      | .object => (skipKey rest).map fun r => (frame :: frames, r.2)
    match skipBlank s, frame with
    | [], .array => .error (.behind .endInArray [])
    | [], .object => .error (.behind .endInObject [])
    | ']' :: rest, .array => skipBetween true frames rest
    | '}' :: rest, .object => skipBetween true frames rest
    | c :: rest, _ =>
      if comma then
        if c = ',' then enter rest
        else match frame with
          | .array => .error (.ahead1 .commaOrBracketExpected (c :: rest))
          | .object => .error (.ahead1 .commaOrBraceExpected (c :: rest))
      else enter (c :: rest)

/-- Passes over values until no bracket is open. -/
def skipValues : Nat → List Frame → Reader Unit
  | 0, _, s => .error (.behind .endInValue s)
  | fuel + 1, frames, s =>
    let done : Reader Unit := fun s =>
      match skipBetween true frames s with
      | .error f => .error f
      | .ok ([], rest) => .ok ((), rest)
      | .ok (frames, rest) => skipValues fuel frames rest
    let opened (frame : Frame) : Reader Unit := fun s =>
      match skipBetween false (frame :: frames) s with
      | .error f => .error f
      | .ok ([], rest) => .ok ((), rest)
      | .ok (frames, rest) => skipValues fuel frames rest
    let after (r : Except Failure (Unit × List Char)) : Except Failure (Unit × List Char) :=
      match r with
      | .error f => .error f
      | .ok (_, rest) => done rest
    match skipBlank s with
    | [] => .error (.behind .endInValue [])
    | c :: rest =>
      if c = 'n' then after (word ['u', 'l', 'l'] rest)
      else if c = 't' then after (word ['r', 'u', 'e'] rest)
      else if c = 'f' then after (word ['a', 'l', 's', 'e'] rest)
      else if c = '-' then after (skipNumber rest)
      else if isDigit c then after (skipNumber (c :: rest))
      else if c = '"' then after (skipString (rest.length + 1) rest)
      else if c = '[' then opened .array rest
      else if c = '{' then opened .object rest
      else .error (.ahead1 .valueExpected (c :: rest))

/-- Passes over one value. -/
def skipValue : Reader Unit := fun s => skipValues (s.length + 1) [] s

end ResourceApi.Json.Reader
