import Safepoint.Text.Numbered

/-!
# Quoted text

Text between double quotes, as diagnostics show it: quotes and backslashes are escaped, the common
controls have their short escapes, and a character that cannot be shown is written by its code point
in hexadecimal.
-/

namespace Safepoint.Text

/-- The escape of one character inside double quotes. -/
def quoteChar (c : Char) : List Char :=
  if c = '\x00' then ['\\', '0']
  else if c = '\t' then ['\\', 't']
  else if c = '\n' then ['\\', 'n']
  else if c = '\r' then ['\\', 'r']
  else if c = '"' then ['\\', '"']
  else if c = '\\' then ['\\', '\\']
  else if isNumbered c then
    ['\\', 'u', '\x7b'] ++ Nat.toDigits 16 c.toNat ++ ['\x7d']
  else [c]

/-- A text between double quotes. -/
def quote (text : String) : String :=
  String.ofList ('"' :: (text.toList.flatMap quoteChar ++ ['"']))

end Safepoint.Text
