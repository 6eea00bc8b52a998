import ResourceApi.Text.LetterCase
import ResourceApi.Text.Property

/-!
Names in the letter cases of an API. A text is cut into words at every character that is no letter
and no number; inside a run of those a word ends where an upper case letter follows a lower case
one, and before the last capital of a run that a lower case letter follows.
-/

namespace ResourceApi.Naming

/-- The case of the letters that a word has been made of so far. -/
inductive Mode where
  | boundary
  | lowercase
  | uppercase
  deriving DecidableEq, Repr, Inhabited

/-- The mode after a character; one without a case keeps the mode. -/
def Mode.after (mode : Mode) (c : Char) : Mode :=
  if Text.isLowercase c then .lowercase
  else if Text.isUppercase c then .uppercase
  else mode

/-- Cuts a run of letters and numbers into words. `word` holds, in reverse order, what has been
read of the word at hand. -/
def cutRun (mode : Mode) (word : List Char) : List Char → List (List Char)
  | [] => if word.isEmpty then [] else [word.reverse]
  | [c] => [(c :: word).reverse]
  | c :: next :: rest =>
    if mode.after c = .lowercase ∧ Text.isUppercase next then
      (c :: word).reverse :: cutRun .boundary [] (next :: rest)
    else if mode = .uppercase ∧ Text.isUppercase c ∧ Text.isLowercase next then
      word.reverse :: cutRun .boundary [c] (next :: rest)
    else cutRun (mode.after c) (c :: word) (next :: rest)

/-- The runs of letters and numbers in a text; none of them is empty. -/
def runs : List Char → List Char → List (List Char)
  | run, [] => if run.isEmpty then [] else [run.reverse]
  | run, c :: rest =>
    if Text.isAlphanumeric c then runs (c :: run) rest
    else if run.isEmpty then runs [] rest
    else run.reverse :: runs [] rest

/-- The words of a text. -/
def words (s : String) : List (List Char) :=
  (runs [] s.toList).flatMap (cutRun .boundary [])

/-- A word in lower case; a capital sigma at its end becomes a final one. -/
def lowerWord : List Char → List Char
  | [] => []
  | [c] => if c = 'Σ' then ['ς'] else Text.toLower c
  | c :: rest => Text.toLower c ++ lowerWord rest

/-- A word with its first letter in upper case and the others in lower case. -/
def capitalWord : List Char → List Char
  | [] => []
  | c :: rest => Text.toUpper c ++ lowerWord rest

/-- Lower case words joined by hyphens. -/
def kebabCase (s : String) : String :=
  String.ofList (List.intercalate ['-'] ((words s).map lowerWord))

/-- Capitalised words put together. -/
def upperCamelCase (s : String) : String :=
  String.ofList ((words s).flatMap capitalWord)

/-- The text with its first character in upper case; the rest stays as it is. -/
def titleCaseFirst (s : String) : String :=
  match s.toList with
  | [] => ""
  | c :: rest => String.ofList (Text.toUpper c ++ rest)

end ResourceApi.Naming
