import TopDown.Unicode.GraphemeExtend
import TopDown.Unicode.Printable

/-!
# Quoted characters

The text of a single character in messages: the character between two quotes, escaped when it would
not be visible there.
-/

namespace TopDown.Text

/-- The text that stands for a character between single quotes. The control characters with short
names, the backslash and the single quote are escaped by a backslash; a character that extends the
one before it or has no shape of its own is given by its code point, in hexadecimal. -/
def escapeChar (char : Char) : String :=
  if char = '\x00' then "\\0"
  else if char = '\t' then "\\t"
  else if char = '\r' then "\\r"
  else if char = '\n' then "\\n"
  else if char = '\\' then "\\\\"
  else if char = '\x27' then "\\\x27"
  else if Unicode.isGraphemeExtend char || !Unicode.isPrintable char then
    "\\u\x7b" ++ String.ofList (Nat.toDigits 16 char.toNat) ++ "\x7d"
  else char.toString

/-- A character between single quotes. -/
def charLiteral (char : Char) : String :=
  "'" ++ escapeChar char ++ "'"

end TopDown.Text
