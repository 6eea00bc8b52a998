import ResourceApi.Template.Render
import ResourceApi.Template.Slug
import ResourceApi.Workspace.Basic

/-!
Where the text of a template comes from: a collection in memory or a directory of a workspace. Both
list what they have in the order of the catalogue.
-/

namespace ResourceApi.Template

/-- Why there is no text for a template. -/
inductive Error where
  | notAvailable (slug : Slug) (root : Option String)
  | missingDirectory (root : String)
  | unreadable (e : Workspace.FileError)
  deriving DecidableEq, Repr, Inhabited

def Error.message : Error → String
  | .notAvailable slug none => "Template not available: " ++ slug.fileName
  | .notAvailable slug (some root) =>
    "Template not available: " ++ slug.fileName ++ " in " ++ Workspace.Path.quoted root
  | .missingDirectory root => "Templates directory does not exist: " ++ root
  | .unreadable e => "IO error: " ++ e.message

/-- What gives the texts of templates. -/
structure Source where
  fetch : Slug → Except Error String
  available : Except Error (List Slug)

/-- A template from a source, filled from a text. -/
def Source.render (source : Source) (slug : Slug) (text : String) : Except Error String :=
  (source.fetch slug).map (Template.render text)

/-- Texts of templates in memory. -/
structure Collection where
  text? : Slug → Option String

namespace Collection

def empty : Collection := ⟨fun _ => none⟩

def insert (c : Collection) (slug : Slug) (text : String) : Collection :=
  ⟨fun other => if other = slug then some text else c.text? other⟩

def fetch (c : Collection) (slug : Slug) : Except Error String :=
  match c.text? slug with
  | some text => .ok text
  | none => .error (.notAvailable slug none)

def available (c : Collection) : List Slug := Slug.all.filter fun slug => (c.text? slug).isSome

def toSource (c : Collection) : Source := ⟨c.fetch, .ok c.available⟩

end Collection

/-! ### Directories -/

/-- The path of a template in a directory. -/
def pathIn (root : String) (slug : Slug) : String := Workspace.Path.join root slug.fileName

/-- The text of a template in a directory, given whether its path leads to a file and what is read
there. -/
def fetched (root : String) (slug : Slug) (isFile : Bool)
    (content : Except Workspace.FileError String) : Except Error String :=
  if isFile then content.mapError .unreadable else .error (.notAvailable slug (some root))

/-- The templates in a directory, given whether it is there and the names of its files. Files with
other names are passed over. -/
def listed (root : String) (isThere : Bool) (names : List String) : Except Error (List Slug) :=
  if isThere then
    .ok ((names.filterMap Slug.ofName?).mergeSort fun a b => decide (a.rank ≤ b.rank))
  else .error (.missingDirectory root)

/-- The templates in a directory of a workspace. -/
def Source.ofDirectory (w : Workspace) (root : String) : Source where
  fetch slug := fetched root slug (w.isFile (pathIn root slug)) (w.read (pathIn root slug))
  available := listed root (w.exists? root) (w.files root)

end ResourceApi.Template
