import Shapewise.Text.Class

/-!
# Quoted text

Text as it is quoted in messages: between single quotes, or between double quotes where it holds a
single quote and no double one. The quote, the backslash and unprintable characters are escaped.
-/

namespace Shapewise.Text.Quoted

/-- One character of a text between the given quotes. -/
def encodeChar (quote c : Char) : List Char :=
  if c = quote || c = '\\' then ['\\', c]
  else if c = '\n' then ['\\', 'n']
  else if c = '\r' then ['\\', 'r']
  else if c = '\t' then ['\\', 't']
  else if isPrintable c then [c]
  else if c.toNat < 0x100 then '\\' :: 'x' :: hexDigits 2 c.toNat
  else if c.toNat < 0x10000 then '\\' :: 'u' :: hexDigits 4 c.toNat
  else '\\' :: 'U' :: hexDigits 8 c.toNat

/-- The quote that a text is put between. -/
def quoteFor (cs : List Char) : Char :=
  if cs.contains '\'' && !cs.contains '"' then '"' else '\''

/-- A text between its quotes. -/
def encode (s : String) : String :=
  let q := quoteFor s.toList
  String.ofList (q :: s.toList.flatMap (encodeChar q) ++ [q])

/-- A list of texts, each quoted, between brackets. -/
def encodeList (names : List String) : String :=
  "[" ++ String.intercalate ", " (names.map encode) ++ "]"

end Shapewise.Text.Quoted
