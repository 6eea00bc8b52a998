import ResourceApi.Dict

/-!
Command lines: options with values, switches, an argument and subcommands. Options may stand in any
order, and what stands behind two hyphens is no option. The value of an option is looked at when the
next option, argument or the end of the line is reached.
-/

namespace ResourceApi.Command

/-- What is wrong with a value. -/
inductive ValueFault where
  | absent
  | unknown
  | because (reason : String)
  deriving DecidableEq, Repr, Inhabited

/-- An option or an argument. Without a placeholder it takes no value. -/
structure Parameter where
  long : String
  short : Option Char
  placeholder : Option String
  repeatable : Bool
  check : String → Option ValueFault

/-- A parameter as it is shown to people. An argument has no name but its placeholder. -/
def Parameter.display (p : Parameter) : String :=
  match p.placeholder with
  | none => "--" ++ p.long
  | some placeholder =>
    if p.long.isEmpty then "<" ++ placeholder ++ ">"
    else "--" ++ p.long ++ " <" ++ placeholder ++ ">"

/-- What is wrong with a command line. -/
inductive UsageError where
  | unexpected (argument : String)
  | unknownCommand (name : String)
  | missingCommand
  | missingArguments
  | missingValue (parameter : String)
  | invalidValue (value parameter : String) (reason : Option String)
  | needlessValue (value parameter : String)
  | repeated (parameter : String)
  | conflict (parameter other : String)
  deriving DecidableEq, Repr, Inhabited

def inQuotes (s : String) : String := String.ofList ('\'' :: s.toList ++ ['\''])

def UsageError.message : UsageError → String
  | .unexpected argument => "unexpected argument " ++ inQuotes argument ++ " found"
  | .unknownCommand name => "unrecognized subcommand " ++ inQuotes name
  | .missingCommand => "'oasgen' requires a subcommand but one was not provided"
  | .missingArguments => "the following required arguments were not provided:"
  | .missingValue p => "a value is required for " ++ inQuotes p ++ " but none was supplied"
  | .invalidValue v p reason =>
    "invalid value " ++ inQuotes v ++ " for " ++ inQuotes p
      ++ (match reason with
        | some reason => ": " ++ reason
        | none => "")
  | .needlessValue v p =>
    "unexpected value " ++ inQuotes v ++ " for " ++ inQuotes p ++ " found; no more were expected"
  | .repeated p => "the argument " ++ inQuotes p ++ " cannot be used multiple times"
  | .conflict p other =>
    "the argument " ++ inQuotes p ++ " cannot be used with " ++ inQuotes other

/-- Why a command line is not carried out. -/
inductive Halt where
  | help
  | version
  | error (e : UsageError)
  deriving DecidableEq, Repr, Inhabited

/-- What may stand on a command line, or on the part of it behind a subcommand. -/
structure Usage where
  options : List Parameter
  argument : Option Parameter
  commands : List String

/-- The part of a command line that has been read: the values in their order, the parameter whose
value has not been looked at, and whether two hyphens have come. -/
structure Reading where
  values : List (String × String)
  pending : Option (Parameter × Option String)
  hasArgument : Bool
  literal : Bool

namespace Reading

def start : Reading := ⟨[], none, false, false⟩

def has (r : Reading) (name : String) : Bool := (Entries.find? name r.values).isSome

/-- Takes a value over. -/
def accept (r : Reading) (p : Parameter) (value : Option String) : Except Halt Reading :=
  match p.placeholder, value with
  | some _, none => .error (.error (.missingValue p.display))
  | _, value =>
    let v := value.getD ""
    if r.has p.long ∧ !p.repeatable then .error (.error (.repeated p.display))
    else
      match p.check v with
      | none => .ok { r with values := r.values ++ [(p.long, v)] }
      | some .absent => .error (.error (.missingValue p.display))
      | some .unknown => .error (.error (.invalidValue v p.display none))
      | some (.because reason) => .error (.error (.invalidValue v p.display (some reason)))

/-- Looks at the value that is pending. -/
def settle (r : Reading) : Except Halt Reading :=
  match r.pending with
  | none => .ok r
  | some (p, value) => { r with pending := none }.accept p value

/-- Whether the next word is the value of an option. -/
def awaitsValue (r : Reading) : Bool := r.pending.any fun p => p.2.isNone

end Reading

namespace Usage

/-- An option that is read: it takes the next word, the text that is attached, or no value. -/
def option (r : Reading) (p : Parameter) (attached : Option String) : Except Halt Reading := do
  match p.placeholder, attached with
  | some _, none => return { ← r.settle with pending := some (p, none) }
  | some _, some v => (← r.settle).accept p (some v)
  | none, some v => .error (.error (.needlessValue v p.display))
  | none, none =>
    let r ← r.settle
    if p.long = "help" then .error .help
    else if p.long = "version" then .error .version
    else r.accept p none

/-- A word that starts with two hyphens. -/
def long (u : Usage) (r : Reading) (word : List Char) : Except Halt Reading :=
  let name := word.takeWhile fun c => c ≠ '='
  let attached := match word.drop name.length with
    | _ :: value => some (String.ofList value)
    | [] => none
  match u.options.find? fun p => p.long = String.ofList name with
  | some p => option r p attached
  | none => .error (.error (.unexpected (String.ofList ('-' :: '-' :: name))))

/-- A word that starts with one hyphen: switches, and perhaps an option with its value at the end.
-/
def short (u : Usage) : Reading → List Char → Except Halt Reading
  | r, [] => .ok r
  | r, c :: rest =>
    match u.options.find? fun p => p.short = some c with
    | none => .error (.error (.unexpected (String.ofList ['-', c])))
    | some p =>
      if p.placeholder.isSome then
        match rest with
        | [] => option r p none
        | '=' :: value => option r p (some (String.ofList value))
        | value => option r p (some (String.ofList value))
      else
        match option r p none with
        | .error e => .error e
        | .ok r => short u r rest

/-- A word that is neither an option nor its value. -/
def plain (u : Usage) (r : Reading) (word : String) : Except Halt Reading :=
  match u.argument with
  | some p =>
    if r.hasArgument then .error (.error (.unexpected word))
    else r.settle.map fun r => { r with pending := some (p, some word), hasArgument := true }
  | none =>
    if u.commands.isEmpty ∨ (r.literal ∧ u.commands.contains word) then
      .error (.error (.unexpected word))
    else .error (.error (.unknownCommand word))

/-- Reads words up to the end of the line or to a subcommand; the words behind that are left. -/
def read (u : Usage) : Reading → List String → Except Halt (Reading × Option (String × List String))
  | r, [] => .ok (r, none)
  | r, word :: words =>
    if r.literal then
      match u.plain r word with
      | .error e => .error e
      | .ok r => read u r words
    else if !r.awaitsValue && u.commands.contains word then .ok (r, some (word, words))
    else
      let next : Except Halt Reading :=
        match word.toList with
        | ['-', '-'] => .ok { r with literal := true }
        | '-' :: '-' :: rest => u.long r rest
        | '-' :: c :: rest => u.short r (c :: rest)
        | _ =>
          match r.pending with
          | some (p, none) => .ok { r with pending := some (p, some word) }
          | _ => u.plain r word
      match next with
      | .error e => .error e
      | .ok r => read u r words

end Usage

end ResourceApi.Command
