import ResourceApi.Text.Property

/-!
Texts between quotes, as they stand in messages. Characters that would not show are written as
escapes, and so are marks that attach to the character before them.
-/

namespace ResourceApi.Text

/-- The code point between braces, in hexadecimal digits without leading zeros. -/
def codePointEscape (c : Char) : List Char :=
  ['\\', 'u', '{'] ++ Nat.toDigits 16 c.toNat ++ ['}']

/-- One character of a quoted text. -/
def quoteChar (c : Char) : List Char :=
  if c = '\x00' then ['\\', '0']
  else if c = '\t' then ['\\', 't']
  else if c = '\r' then ['\\', 'r']
  else if c = '\n' then ['\\', 'n']
  else if c = '\\' then ['\\', '\\']
  else if c = '"' then ['\\', '"']
  else if extendsGrapheme c then codePointEscape c
  else if isPrintable c then [c]
  else codePointEscape c

/-- A text between quotes with its escapes. -/
def quoted (s : String) : String :=
  String.ofList ('"' :: s.toList.flatMap quoteChar ++ ['"'])

end ResourceApi.Text
