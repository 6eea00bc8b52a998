import ResourceApi.Lint.Rule

/-!
The built-in rules for resource descriptions: every part that the compiler needs is there and is a
string with a word character, and there is at least one resource.
-/

namespace ResourceApi.Lint

namespace Rule

/-- The values must be of a kind. -/
def ofKind (name given : String) (kind : Json.Kind) (message : String) : Rule :=
  ofAssertion name given { Assertion.trivial with kind := some kind } message

end Rule

/-- What a resource description must look like for the generator. -/
def RuleSet.generatorSyntax : RuleSet where
  name := "generator-syntax"
  description := "OAS Generator syntax"
  documentationUrl := some "https://developer-overheid-nl.github.io/oas-generator"
  rules := [
    .requiring "title-required" "$" ["title"] "Title is required",
    .nonEmptyString "title-string" "$.title" "Title must be a non-empty string",
    .requiring "description-required" "$" ["description"] "Description is required",
    .nonEmptyString "description-string" "$.description" "Description must be a non-empty string",
    .requiring "contact-required" "$" ["contact"] "Contact info is required",
    .requiring "contact-email-required" "$.contact" ["email"] "Contact email is required",
    .nonEmptyString "contact-email-string" "$.contact.email"
      "Contact email must be a valid e-mailaddress",
    .requiring "contact-name-required" "$.contact" ["name"] "Contact name is required",
    .nonEmptyString "contact-name-string" "$.contact.name"
      "Contact name must be a valid non-empty string",
    .requiring "contact-url-required" "$.contact" ["url"] "Contact URL is required",
    .nonEmptyString "contact-url-string" "$.contact.url" "Contact URL must be a valid URI",
    .requiring "resources-required" "$" ["resources"] "Resources are required",
    .ofAssertion "resources-array" "$.resources"
      { Assertion.trivial with kind := some .array, minItems := some 1 }
      "Resources must be an array with at least one resource",
    .requiring "resource-name-required" "$.resources[*]" ["name"] "Resource name is required",
    .nonEmptyString "resource-name-string" "$.resources[*].name"
      "Resource name must be a non-empty string",
    .requiring "resource-plural-required" "$.resources[*]" ["plural"]
      "Resource plural is required",
    .nonEmptyString "resource-plural-string" "$.resources[*].plural"
      "Resource plural must be a non-empty string",
    .ofKind "resource-readonly-boolean" "$.resources[*].readonly" .boolean
      "Resource readonly must be a boolean"]

end ResourceApi.Lint
