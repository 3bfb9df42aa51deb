import BoundedCache.Text.Printable

/-!
# Quoted text

A key is shown in double quotes.  The quote, the backslash and the usual control
characters have short escapes; other characters that are not printable are written
by their code point, in lower-case hexadecimal digits without padding.
-/

namespace BoundedCache.Text

/-- The escape of one character between double quotes. -/
def escape (c : Char) : List Char :=
  if c = '"' then ['\\', '"']
  else if c = '\\' then ['\\', '\\']
  else if c = '\n' then ['\\', 'n']
  else if c = '\r' then ['\\', 'r']
  else if c = '\t' then ['\\', 't']
  else if c = '\x00' then ['\\', '0']
  else if isPrintable c then [c]
  else ['\\', 'u', '\x7b'] ++ Nat.toDigits 16 c.toNat ++ ['\x7d']

/-- The text between double quotes. -/
def quote (s : String) : String := String.ofList ('"' :: s.toList.flatMap escape ++ ['"'])

end BoundedCache.Text
