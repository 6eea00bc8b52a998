import ResourceApi.Pattern.CharSet

/-!
The properties that a pattern can name between braces: general categories and their groups, scripts
and a few properties that are true or false; a pattern with another property is not read. Spaces,
hyphens, underscores, letter case and a leading "is" do not count in a name.
-/

namespace ResourceApi.Pattern

/-- The long names of the general categories. -/
def categoryNames : List (Text.Category × List String) :=
  [(.uppercaseLetter, ["uppercaseletter"]), (.lowercaseLetter, ["lowercaseletter"]),
   (.titlecaseLetter, ["titlecaseletter"]), (.modifierLetter, ["modifierletter"]),
   (.otherLetter, ["otherletter"]), (.nonspacingMark, ["nonspacingmark"]),
   (.spacingMark, ["spacingmark"]), (.enclosingMark, ["enclosingmark"]),
   (.decimalNumber, ["decimalnumber", "digit"]), (.letterNumber, ["letternumber"]),
   (.otherNumber, ["othernumber"]), (.connectorPunctuation, ["connectorpunctuation"]),
   (.dashPunctuation, ["dashpunctuation"]), (.openPunctuation, ["openpunctuation"]),
   (.closePunctuation, ["closepunctuation"]), (.initialPunctuation, ["initialpunctuation"]),
   (.finalPunctuation, ["finalpunctuation"]), (.otherPunctuation, ["otherpunctuation"]),
   (.mathSymbol, ["mathsymbol"]), (.currencySymbol, ["currencysymbol"]),
   (.modifierSymbol, ["modifiersymbol"]), (.otherSymbol, ["othersymbol"]),
   (.spaceSeparator, ["spaceseparator"]), (.lineSeparator, ["lineseparator"]),
   (.paragraphSeparator, ["paragraphseparator"]), (.control, ["control", "cntrl"]),
   (.format, ["format"]), (.surrogate, ["surrogate"]), (.privateUse, ["privateuse"]),
   (.unassigned, ["unassigned"])]

/-- The groups of categories: the first letter they share, and their names. -/
def categoryGroups : List (Char × List String) :=
  [('L', ["l", "letter"]), ('M', ["m", "mark", "combiningmark"]), ('N', ["n", "number"]),
   ('P', ["p", "punctuation", "punct"]), ('S', ["s", "symbol"]), ('Z', ["z", "separator"]),
   ('C', ["c", "other"])]

/-- A name without what does not count in it. -/
def plainName (name : List Char) : String :=
  let kept := (name.filter fun c => c ≠ ' ' && c ≠ '_' && c ≠ '-').map Char.toLower
  match kept with
  | ['i', 's', 'c'] => "isc"
  | 'i' :: 's' :: rest => String.ofList rest
  | rest => String.ofList rest

def shortName (c : Text.Category) : String := ((Text.Category.all.lookup c).getD "").toLower

/-- The characters of a general category or of a group of categories. -/
def categorySet? (name : String) : Option CharSet :=
  if name = "any" then some .all
  else if name = "assigned" then some (.complement (.named (.category .unassigned)))
  else if name = "ascii" then some (.named .ascii)
  else if name = "lc" ∨ name = "casedletter" then
    some (.unionAll [.named (.category .uppercaseLetter), .named (.category .lowercaseLetter),
      .named (.category .titlecaseLetter)])
  else match categoryGroups.find? fun entry => entry.2.contains name with
    | some (letter, _) =>
      let members := Text.Category.all.filter fun entry => entry.2.toList.head? = some letter
      some (.unionAll (members.map fun entry => .named (.category entry.1)))
    | none =>
      (categoryNames.find? fun entry => entry.2.contains name || shortName entry.1 = name).map
        fun entry => .named (.category entry.1)

def scriptSet? (name : String) : Option CharSet :=
  (Text.script? fun spelled => plainName spelled.toList = name).map .ofTable

/-- The characters with a property that is named alone. -/
def propertySet? (name : List Char) : Option CharSet :=
  let name := plainName name
  if name = "alphabetic" ∨ name = "alpha" then some (.named .alphabetic)
  else if name = "lowercase" ∨ name = "lower" then some (.named .lowercase)
  else if name = "uppercase" ∨ name = "upper" then some (.named .uppercase)
  else if name = "whitespace" ∨ name = "wspace" ∨ name = "space" then some (.named .space)
  else (categorySet? name).or (scriptSet? name)

/-- The characters for which a property has a value. -/
def valueSet? (property value : List Char) : Option CharSet :=
  let property := plainName property
  let value := plainName value
  if property = "gc" ∨ property = "generalcategory" then categorySet? value
  else if property = "sc" ∨ property = "script" then scriptSet? value
  else none

/-- The classes that are written between `[:` and `:]`. -/
def asciiClass? (name : String) : Option CharSet :=
  let lower : CharSet := .range 'a' 'z'
  let upper : CharSet := .range 'A' 'Z'
  let digit : CharSet := .range '0' '9'
  let punctuation : CharSet :=
    .unionAll [.range '!' '/', .range ':' '@', .range '[' '`', .range '\x7b' '~']
  match name with
  | "alnum" => some (.unionAll [digit, upper, lower])
  | "alpha" => some (.union upper lower)
  | "ascii" => some (.range '\x00' '\x7f')
  | "blank" => some (.union (.single '\t') (.single ' '))
  | "cntrl" => some (.union (.range '\x00' '\x1f') (.single '\x7f'))
  | "digit" => some digit
  | "graph" => some (.range '!' '~')
  | "lower" => some lower
  | "print" => some (.range ' ' '~')
  | "punct" => some punctuation
  | "space" => some (.union (.range '\t' '\r') (.single ' '))
  | "upper" => some upper
  | "word" => some (.unionAll [digit, upper, .single '_', lower])
  | "xdigit" => some (.unionAll [digit, .range 'A' 'F', .range 'a' 'f'])
  | _ => none

end ResourceApi.Pattern
