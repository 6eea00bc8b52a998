import ResourceApi.Json.Skip
import ResourceApi.Json.Spans

/-!
The texts that are scanned, one character at a time. The state says what is due next and which
brackets are open. A pair of surrogates needs no state of its own, for its second half is an escape
like any other. From every state the text can be completed: what has been begun is brought to its
end, and the open brackets are closed.
-/

namespace ResourceApi.Json.Spans.Automaton

open Reader (Frame)

/-- Where inside a string: between two characters, behind a backslash, or before the last of some
hexadecimal digits with so many others still to come. -/
inductive Place where
  | between
  | escape
  | digit (others : Nat)
  deriving DecidableEq, Repr

/-- What is due next. Behind a number its digits may go on, and behind a word it is complete. -/
inductive Due where
  | value
  | firstItem
  | firstKey
  | key
  | colon
  | behind
  | number
  | word (left : List Char)
  | string (isKey : Bool) (place : Place)
  deriving DecidableEq, Repr

/-- What is due, and the open brackets from the inside to the outside. -/
abbrev Config := Due × List Frame

def closing : Frame → Char
  | .array => ']'
  | .object => '}'

/-- The state behind the first character of a value. -/
def opening (frames : List Frame) (x : Char) : Option Config :=
  if x = '{' then some (.firstKey, .object :: frames)
  else if x = '[' then some (.firstItem, .array :: frames)
  else if x = '"' then some (.string false .between, frames)
  else if x = 't' then some (.word ['r', 'u', 'e'], frames)
  else if x = 'f' then some (.word ['a', 'l', 's', 'e'], frames)
  else if x = 'n' then some (.word ['u', 'l', 'l'], frames)
  else if x = '-' || x.isDigit then some (.number, frames)
  else none

/-- What is due behind a comma. -/
def afterComma : Frame → Due
  | .array => .value
  | .object => .key

/-- The state behind a character that follows a value. -/
def following (frames : List Frame) (x : Char) : Option Config :=
  if Cursor.isBlank x then some (.behind, frames)
  else match frames with
    | [] => none
    | frame :: outer =>
      if x = ',' then some (afterComma frame, frame :: outer)
      else if x = closing frame then some (.behind, outer)
      else none

/-- The state behind the opening quote of a key. -/
def quoting (frames : List Frame) (x : Char) : Option Config :=
  if x = '"' then some (.string true .between, frames) else none

/-- Blanks change nothing in front of a token. -/
def passing (due : Due) (frames : List Frame) (token : Char → Option Config) (x : Char) :
    Option Config :=
  if Cursor.isBlank x then some (due, frames) else token x

/-- With so many hexadecimal digits still to come. -/
def Place.awaiting : Nat → Place
  | 0 => .between
  | others + 1 => .digit others

/-- What is due behind a string. -/
def Due.afterString (isKey : Bool) : Due := if isKey then .colon else .behind

def step : Config → Char → Option Config
  | (.value, frames), x => passing .value frames (opening frames) x
  | (.firstItem, frames), x =>
    passing .firstItem frames
      (fun x => if x = ']' then some (.behind, frames.tail) else opening frames x) x
  | (.firstKey, frames), x =>
    passing .firstKey frames
      (fun x => if x = '}' then some (.behind, frames.tail) else quoting frames x) x
  | (.key, frames), x => passing .key frames (quoting frames) x
  | (.colon, frames), x =>
    passing .colon frames (fun x => if x = ':' then some (.value, frames) else none) x
  | (.behind, frames), x => following frames x
  | (.number, frames), x =>
    if isNumberCharacter x then some (.number, frames) else following frames x
  | (.word [], frames), x => following frames x
  | (.word (c :: left), frames), x => if x = c then some (.word left, frames) else none
  | (.string isKey .between, frames), x =>
    if x = '"' then some (.afterString isKey, frames)
    else if x = '\\' then some (.string isKey .escape, frames)
    else some (.string isKey .between, frames)
  | (.string isKey .escape, frames), x =>
    if x = 'u' then some (.string isKey (.awaiting 4), frames)
    else if (escape? x).isSome then some (.string isKey .between, frames)
    else none
  | (.string isKey (.digit others), frames), x =>
    if (hexDigit? x).isSome then some (.string isKey (.awaiting others), frames) else none

/-- The state behind a text, unless some character of it has no place. -/
def run (c : Config) (text : List Char) : Option Config := text.foldlM step c

/-- At the end of a text: no bracket is open and nothing is due. -/
def accepts : Config → Bool
  | (.behind, []) | (.number, []) | (.word [], []) => true
  | _ => false

def start : Config := (.value, [])

theorem run_nil (c : Config) : run c [] = some c := rfl

theorem run_cons (c : Config) (x : Char) (text : List Char) :
    run c (x :: text) = (step c x).bind (run · text) := rfl

theorem run_append (c : Config) (text more : List Char) :
    run c (text ++ more) = (run c text).bind (run · more) := List.foldlM_append

theorem run_eq_some {c d e : Config} {text more : List Char} (h : run c text = some d)
    (h' : run d more = some e) : run c (text ++ more) = some e := by
  rw [run_append, h, Option.bind_some, h']

theorem isSome_run_of_append {c : Config} {text more : List Char}
    (h : (run c (text ++ more)).isSome) : (run c text).isSome := by
  rw [run_append] at h
  exact Option.isSome_of_isSome_bind h

/-! ### Completions -/

theorem run_word (frames : List Frame) (w : List Char) :
    run (.word w, frames) w = some (.word [], frames) := by
  induction w with
  | nil => rfl
  | cons x w ih =>
      rw [run_cons, step, if_pos rfl]
      exact ih

theorem run_digits (isKey : Bool) (frames : List Frame) (n : Nat) :
    run (.string isKey (.awaiting n), frames) (List.replicate n '0') =
      some (.string isKey .between, frames) := by
  induction n with
  | zero => rfl
  | succ n ih => exact ih

theorem run_closing (frames : List Frame) :
    run (.behind, frames) (frames.map closing) = some (.behind, []) := by
  induction frames with
  | nil => rfl
  | cons frame frames ih => cases frame <;> exact ih

/-- A string is brought to its end, and behind a key comes a value. -/
theorem exists_run_string (isKey : Bool) (place : Place) (frames : List Frame) :
    ∃ text, run (.string isKey place, frames) text = some (.behind, frames) := by
  have hbetween : ∃ text, run (.string isKey .between, frames) text = some (.behind, frames) := by
    cases isKey with
    | false => exact ⟨['"'], rfl⟩
    | true => exact ⟨['"', ':', '0', ' '], rfl⟩
  obtain ⟨text, htext⟩ := hbetween
  cases place with
  | between => exact ⟨text, htext⟩
  | escape => exact ⟨'n' :: text, htext⟩
  | digit others =>
      exact ⟨List.replicate (others + 1) '0' ++ text,
        run_eq_some (run_digits isKey frames (others + 1)) htext⟩

/-- What is due can be supplied. -/
theorem exists_run_behind (c : Config) : ∃ text, run c text = some (.behind, c.2) := by
  obtain ⟨due, frames⟩ := c
  cases due with
  | value | firstItem => exact ⟨['0', ' '], rfl⟩
  | firstKey | key => exact ⟨['"', '"', ':', '0', ' '], rfl⟩
  | colon => exact ⟨[':', '0', ' '], rfl⟩
  | behind => exact ⟨[], rfl⟩
  | number => exact ⟨[' '], rfl⟩
  | word left =>
      have hblank : run (.word [], frames) [' '] = some (.behind, frames) := rfl
      exact ⟨left ++ [' '], run_eq_some (run_word frames left) hblank⟩
  | string isKey place => exact exists_run_string isKey place frames

/-- **Every state can be completed.** -/
theorem exists_accepts (c : Config) : ∃ text d, run c text = some d ∧ accepts d = true := by
  obtain ⟨text, htext⟩ := exists_run_behind c
  exact ⟨text ++ c.2.map closing, (.behind, []), run_eq_some htext (run_closing c.2), rfl⟩

end ResourceApi.Json.Spans.Automaton
