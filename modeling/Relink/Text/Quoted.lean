import Relink.Text.Printable

/-!
# Quoted text

Model of the debug text of a string, which is how a message quotes a text: between double quotes, with a
backslash before a quote or a backslash, letters for the common controls, and `\u{…}` for what cannot be
drawn.
-/

namespace Relink.Text

/-- The code point in lowercase hexadecimal, without leading zeros. -/
def hex (n : Nat) : List Char :=
  Nat.toDigits 16 n

/-- A character inside quotes. -/
def quotedChar (c : Char) : List Char :=
  if c = '"' then ['\\', '"']
  else if c = '\\' then ['\\', '\\']
  else if c = '\n' then ['\\', 'n']
  else if c = '\r' then ['\\', 'r']
  else if c = '\t' then ['\\', 't']
  else if c = '\x00' then ['\\', '0']
  else if isPrintable c then [c]
  else ['\\', 'u', '\x7b'] ++ hex c.toNat ++ ['\x7d']

/-- A text between quotes, with everything escaped that would end it or could not be read. -/
def quoted (text : String) : String :=
  String.ofList (['"'] ++ text.toList.flatMap quotedChar ++ ['"'])

end Relink.Text
