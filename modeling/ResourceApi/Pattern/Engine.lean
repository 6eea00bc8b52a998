import ResourceApi.Pattern.Parser

/-!
Pattern engines, as far as rules see them. An engine reads the text of a pattern once and then says
of any text whether the pattern matches some part of it.
-/

namespace ResourceApi.Pattern

/-- Reads a pattern, if it is one. What comes out says which texts have a part that it matches. -/
abbrev Engine := String → Option (String → Bool)

/-- The engine for the patterns of the plain dialect. -/
def plainEngine : Engine := fun text => (ofText? .plain text).map matchesIn

end ResourceApi.Pattern
