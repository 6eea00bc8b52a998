import ResourceApi.Yaml.Node

/-!
Typed views of YAML trees. Any scalar is a string where a string is wanted; null counts as absent
only where a part is optional; truth values and numbers must not be quoted.
-/

namespace ResourceApi.Yaml.Node

/-- The long form of a standard tag. -/
def standardTag (name : String) : String := "tag:yaml.org,2002:" ++ name

/-- Whether nothing is written where the node stands. -/
def isBlank : Node → Bool
  | .scalar _ .plain text => text.isEmpty
  | _ => false

def string? : Node → Option String
  | .scalar _ _ text => some text
  | _ => none

/-- The text of a scalar that stands for something else than itself: unquoted, or a block with the
tag of its type. -/
def literal? (type : String) : Node → Option (List Char)
  | .scalar _ .plain text => some text.toList
  | .scalar (some tag) .literal text =>
    if tag = standardTag type then some text.toList else none
  | _ => none

def bool? (node : Node) : Option Bool := (node.literal? "bool").bind boolWord?

/-- A natural number of 64 bits. -/
def natural? (node : Node) : Option Nat :=
  ((node.literal? "int").bind Yaml.natural?).bind fun n => if n < Nat.pow 2 64 then some n else none

/-- A part that may be null. -/
def optional? {α : Type} (read : Node → Option α) (node : Node) : Option (Option α) :=
  match node with
  | .scalar tag .plain text =>
    if tag = some (standardTag "null") then
      if isNullWord text.toList then some none else none
    else if tag.isNone && (text.isEmpty || isNullWord text.toList) then some none
    else (read node).map some
  | node => (read node).map some

def list? {α : Type} (read : Node → Option α) (node : Node) : Option (List α) :=
  match node with
  | .sequence _ items => items.mapM read
  | node => if node.isBlank then some [] else none

/-- A choice between names: the text of a scalar, or a tag of its own with nothing behind it. -/
def choice? {α : Type} (ofName? : String → Option α) (node : Node) : Option α :=
  match node with
  | .scalar tag style text =>
    match (tag.getD "").toList with
    | '!' :: name =>
      let name := if name.isEmpty then ['!'] else name
      if style = .plain && (text.isEmpty || isNullWord text.toList) then
        ofName? (String.ofList name)
      else none
    | _ => ofName? text
  | _ => none

/-- The members of a record by their names. A known name may not be repeated. -/
def fields? (known : List String) (node : Node) : Option (List (String × Node)) :=
  match node with
  | .mapping _ entries => do
    let fields ← entries.mapM fun entry => entry.1.string?.map fun key => (key, entry.2)
    let names := (fields.map Prod.fst).filter known.contains
    if names.eraseDups.length = names.length then some fields else none
  | node => if node.isBlank then some [] else none

/-- A member that must be there. -/
def required? {α : Type} (fields : List (String × Node)) (name : String) (read : Node → Option α) :
    Option α :=
  (fields.lookup name).bind read

/-- A member that has a default. -/
def defaulted? {α : Type} (fields : List (String × Node)) (name : String) (default : α)
    (read : Node → Option α) : Option α :=
  match fields.lookup name with
  | none => some default
  | some node => read node

end ResourceApi.Yaml.Node
