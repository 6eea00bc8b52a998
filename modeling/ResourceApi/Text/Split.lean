/-!
Parts of a text between separators.
-/

namespace ResourceApi.Text

/-- The parts between separators; there is one part more than there are separators. -/
def split (separator : Char) : List Char → List (List Char)
  | [] => [[]]
  | c :: rest =>
    if c = separator then [] :: split separator rest
    else match split separator rest with
      | part :: parts => (c :: part) :: parts
      | [] => [[c]]

end ResourceApi.Text
