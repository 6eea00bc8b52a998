import ResourceApi.Schema.Wellformed

/-!
The built-in schema of resource descriptions: it describes every member that the compiler reads.
Other members are allowed, but not in a resource.
-/

namespace ResourceApi.Schema

/-- Strings with at least one character. -/
def nonEmptyString : Schema := .all [ofKind .string, .check (.minLength 1)]

/-- Words of a name: an ASCII letter, then ASCII letters, digits, underscores and blanks. -/
def wordsPattern : Pattern :=
  let letters : Pattern.CharSet := .union (.range 'A' 'Z') (.range 'a' 'z')
  .seq (.anchor .textStart) (.seq (.one letters) (.seq
    (.many 0 none (.one
      (.unionAll [letters, .range '0' '9', .single '_', .single ' '])))
    (.anchor .textEnd)))

/-- Strings that name a resource. -/
def words : Schema :=
  .all [ofKind .string, .check (.pattern "^[A-Za-z][A-Za-z0-9_ ]*$" wordsPattern)]

def contact : Schema := .all [
  ofKind .object,
  .check (.required ["name", "email", "url"]),
  .properties [("name", nonEmptyString), ("email", ofFormat .email), ("url", ofFormat .uri)]]

def resource : Schema := .all [
  ofKind .object,
  .check (.required ["name", "plural"]),
  .closed [("name", words), ("plural", words), ("readonly", ofKind .boolean)]]

def resources : Schema := .all [ofKind .array, .check (.minItems 1), .items resource]

/-- What a resource description must look like. -/
def parameters : Schema := .all [
  .properties [("title", nonEmptyString), ("description", nonEmptyString), ("contact", contact),
    ("resources", resources)],
  .check (.required ["title", "description", "contact", "resources"]),
  ofKind .object]

end ResourceApi.Schema
