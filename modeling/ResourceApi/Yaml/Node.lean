import ResourceApi.Yaml.Plain
import ResourceApi.Yaml.Token

/-!
YAML documents as trees. Anchors are gone: a reference is the node that it names, or `loop` inside
that node itself. Tags are kept in their long form.
-/

namespace ResourceApi.Yaml

inductive Node where
  | scalar (tag : Option String) (style : Style) (text : String)
  | sequence (tag : Option String) (items : List Node)
  | mapping (tag : Option String) (entries : List (Node × Node))
  | loop
  deriving Repr, Inhabited

namespace Node

/-- A node where nothing is written. -/
def empty : Node := .scalar none .plain ""

/-! ### From tokens to trees -/

/-- The tokens that are left, the short forms of tags, and the anchors: which node a name means, and
the nodes that are complete. -/
structure Parse where
  tokens : List Token
  prefixes : List (String × String)
  names : List (String × Nat)
  nodes : List (Nat × Node)
  deriving Repr, Inhabited

namespace Parse

def next (p : Parse) : Option Token := p.tokens.head?

def drop (p : Parse) : Parse := { p with tokens := p.tokens.tail }

/-- Gives a name to a node that begins here; the number stands for the node until it is complete. -/
def declare (p : Parse) (name : Option String) : Nat × Parse :=
  let n := p.names.length
  match name with
  | some name => (n, { p with names := (name, n) :: p.names })
  | none => (n, p)

/-- Completes a node. -/
def define (p : Parse) (name : Option String) (n : Nat) (node : Node) : Node × Parse :=
  match name with
  | some _ => (node, { p with nodes := (n, node) :: p.nodes })
  | none => (node, p)

/-- The node that a name means. -/
def refer (p : Parse) (name : String) : Option Node :=
  (p.names.lookup name).map fun n => (p.nodes.lookup n).getD .loop

/-- The anchor and the tag in front of a node, in either order. -/
def properties (p : Parse) : Option String × Option (String × String) × Parse :=
  match p.tokens with
  | .anchor a :: .tag h s :: rest => (some a, some (h, s), { p with tokens := rest })
  | .tag h s :: .anchor a :: rest => (some a, some (h, s), { p with tokens := rest })
  | .anchor a :: rest => (some a, none, { p with tokens := rest })
  | .tag h s :: rest => (none, some (h, s), { p with tokens := rest })
  | _ => (none, none, p)

/-- The long form of a tag. A lone exclamation mark is no tag. -/
def longTag (p : Parse) (tag : Option (String × String)) : Option (Option String) :=
  match tag with
  | none => some none
  | some ("", suffix) => some (if suffix = "!" then none else some suffix)
  | some (handle, suffix) =>
    (p.prefixes.lookup handle).map fun start => some (start ++ suffix)

end Parse

mutual

/-- A node, in block form if `block` says so. The items of a sequence that is the value of a key may
stand at the column of the key (`level`). -/
def parse : Nat → Bool → Bool → Parse → Option (Node × Parse)
  | 0, _, _, _ => none
  | fuel + 1, block, level, p =>
    match p.next with
    | some (.reference name) => (p.refer name).map fun node => (node, p.drop)
    | _ =>
      let (anchor, tag, p) := p.properties
      match p.longTag tag with
      | none => none
      | some long =>
        let (n, p) := p.declare anchor
        let finish (node : Node) (p : Parse) : Option (Node × Parse) :=
          some (p.define anchor n node)
        let sequence (r : Option (List Node × Parse)) : Option (Node × Parse) :=
          r.bind fun r => finish (.sequence long r.1) r.2
        let mapping (r : Option (List (Node × Node) × Parse)) : Option (Node × Parse) :=
          r.bind fun r => finish (.mapping long r.1) r.2
        match p.next with
        | some .entry =>
          if level then sequence (levelItems fuel p)
          else if anchor.isSome || tag.isSome then finish (.scalar long .plain "") p
          else none
        | some (.scalar style text) => finish (.scalar long style text) p.drop
        | some .openBracket => sequence (flowItems fuel true p.drop)
        | some .openBrace => mapping (flowMembers fuel true p.drop)
        | t =>
          if block && t = some .sequenceStart then sequence (blockItems fuel p.drop)
          else if block && t = some .mappingStart then mapping (blockMembers fuel p.drop)
          else if anchor.isSome || tag.isSome then finish (.scalar long .plain "") p
          else none

/-- A node, or an empty one in front of the given tokens. -/
def parseUnless (stops : List Token) : Nat → Bool → Bool → Parse → Option (Node × Parse)
  | 0, _, _, _ => none
  | fuel + 1, block, level, p =>
    match p.next with
    | some t => if stops.contains t then some (empty, p) else parse fuel block level p
    | none => none

/-- Items of a sequence in a block of its own. -/
def blockItems : Nat → Parse → Option (List Node × Parse)
  | 0, _ => none
  | fuel + 1, p =>
    match p.next with
    | some .blockEnd => some ([], p.drop)
    | some .entry => do
      let (item, p) ← parseUnless [.entry, .blockEnd] fuel true false p.drop
      let (items, p) ← blockItems fuel p
      some (item :: items, p)
    | _ => none

/-- Items of a sequence at the column of its key. -/
def levelItems : Nat → Parse → Option (List Node × Parse)
  | 0, _ => none
  | fuel + 1, p =>
    match p.next with
    | some .entry => do
      let (item, p) ← parseUnless [.entry, .key, .value, .blockEnd] fuel true false p.drop
      let (items, p) ← levelItems fuel p
      some (item :: items, p)
    | _ => some ([], p)

/-- Members of a mapping in block form. -/
def blockMembers : Nat → Parse → Option (List (Node × Node) × Parse)
  | 0, _ => none
  | fuel + 1, p =>
    let stops := [.key, .value, .blockEnd]
    let value (key : Node) (p : Parse) : Option (List (Node × Node) × Parse) := do
      let (v, p) ←
        if p.next = some .value then parseUnless stops fuel true true p.drop
        else some (empty, p)
      let (members, p) ← blockMembers fuel p
      some ((key, v) :: members, p)
    match p.next with
    | some .blockEnd => some ([], p.drop)
    | some .key => do
      let (key, p) ← parseUnless stops fuel true true p.drop
      value key p
    | _ => none

/-- Items between brackets. A key and a value without braces are a mapping of their own. -/
def flowItems : Nat → Bool → Parse → Option (List Node × Parse)
  | 0, _, _ => none
  | fuel + 1, first, p =>
    if p.next = some .closeBracket then some ([], p.drop)
    else
      let separated : Option Parse :=
        if first then some p else if p.next = some .comma then some p.drop else none
      separated.bind fun p =>
        match p.next with
        | some .closeBracket => some ([], p.drop)
        | some .key => do
          let p := p.drop
          let (key, p) ← match p.next with
            | some t =>
              if [Token.value, .comma, .closeBracket].contains t then some (empty, p.drop)
              else parse fuel false false p
            | none => none
          let (v, p) ←
            if p.next = some .value then parseUnless [.comma, .closeBracket] fuel false false p.drop
            else some (empty, p)
          let (items, p) ← flowItems fuel false p
          some (.mapping none [(key, v)] :: items, p)
        | _ => do
          let (item, p) ← parse fuel false false p
          let (items, p) ← flowItems fuel false p
          some (item :: items, p)

/-- Members between braces. A value may be missing. -/
def flowMembers : Nat → Bool → Parse → Option (List (Node × Node) × Parse)
  | 0, _, _ => none
  | fuel + 1, first, p =>
    if p.next = some .closeBrace then some ([], p.drop)
    else
      let separated : Option Parse :=
        if first then some p else if p.next = some .comma then some p.drop else none
      separated.bind fun p =>
        match p.next with
        | some .closeBrace => some ([], p.drop)
        | some .key => do
          let (key, p) ← parseUnless [.value, .comma, .closeBrace] fuel false false p.drop
          let (v, p) ←
            if p.next = some .value then parseUnless [.comma, .closeBrace] fuel false false p.drop
            else some (empty, p)
          let (members, p) ← flowMembers fuel false p
          some ((key, v) :: members, p)
        | _ => do
          let (key, p) ← parse fuel false false p
          let (members, p) ← flowMembers fuel false p
          some ((key, empty) :: members, p)

end

/-! ### Documents -/

/-- The short forms of tags that need no directive. -/
def standardPrefixes : List (String × String) :=
  [("!", "!"), ("!!", "tag:yaml.org,2002:")]

/-- Reads directives: at most one version, which is 1.1 or 1.2, and one short form for a handle. -/
def directives :
    Bool → List (String × String) → List Token → Option (List (String × String) × List Token)
  | versioned, prefixes, .version major minor :: rest =>
    if versioned || major ≠ 1 || !(minor = 1 || minor = 2) then none
    else directives true prefixes rest
  | versioned, prefixes, .tagPrefix handle start :: rest =>
    if (prefixes.lookup handle).isSome then none
    else directives versioned (prefixes ++ [(handle, start)]) rest
  | _, prefixes, rest => some (prefixes, rest)

/-- The root of a document behind its bound. -/
def content (prefixes : List (String × String)) (tokens : List Token) : Option (Node × Parse) :=
  let p : Parse := ⟨tokens, prefixes ++ standardPrefixes, [], []⟩
  match tokens with
  | [] => some (empty, p)
  | .version _ _ :: _ | .tagPrefix _ _ :: _ | .documentStart :: _ | .documentEnd :: _ =>
    some (empty, p)
  | _ => parse (4 * tokens.length + 4) true false p

/-- The only document of a stream of tokens. -/
def ofTokens? (tokens : List Token) : Option Node := do
  let (node, p) ←
    match tokens with
    | [] => none
    | .version _ _ :: _ | .tagPrefix _ _ :: _ | .documentStart :: _ =>
      match directives false [] tokens with
      | some (prefixes, .documentStart :: rest) => content prefixes rest
      | _ => none
    | .documentEnd :: _ => none
    | _ => content [] tokens
  if p.tokens.all (· = .documentEnd) then some node else none

/-- Reads a text that holds one document. -/
def ofText? (text : String) : Option Node := (Token.scan text).bind ofTokens?

/-! ### Values -/

mutual

/-- The JSON value of a tree whose keys are strings: text without quotes stands for null, a truth
value or a number where it can. -/
def toJson? : Node → Option Json
  | .scalar _ .plain text =>
    match Plain.ofText text.toList with
    | .null => some .null
    | .bool b => some (.bool b)
    | .number n => some (.number n)
    | .special => none
    | .text => some (.string text)
  | .scalar _ _ text => some (.string text)
  | .sequence _ items => (itemsToJson? items).map .array
  | .mapping _ entries => (entriesToJson? entries).map .object
  | .loop => none

def itemsToJson? : List Node → Option (List Json)
  | [] => some []
  | item :: items => do
    let v ← toJson? item
    let vs ← itemsToJson? items
    some (v :: vs)

def entriesToJson? : List (Node × Node) → Option (List (String × Json))
  | [] => some []
  | entry :: entries => do
    let e ← entryToJson? entry
    let es ← entriesToJson? entries
    some (e :: es)

def entryToJson? : Node × Node → Option (String × Json)
  | (.scalar _ _ key, v) => (toJson? v).map fun v => (key, v)
  | _ => none

end

end Node

end ResourceApi.Yaml
