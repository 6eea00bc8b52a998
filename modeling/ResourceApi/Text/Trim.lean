import ResourceApi.Text.Property

/-!
White space at the ends of a text.
-/

namespace ResourceApi.Text

/-- Leaves out the last characters as long as they satisfy a test. -/
def dropEndWhile (p : Char → Bool) (s : List Char) : List Char := (s.reverse.dropWhile p).reverse

/-- Leaves out white space at both ends. -/
def trim (s : List Char) : List Char := dropEndWhile isWhiteSpace (s.dropWhile isWhiteSpace)

end ResourceApi.Text
