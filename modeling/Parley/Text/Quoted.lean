import Parley.Text.Printable

/-!
# Quoted texts

A text between double quotes, for listings and reports. The quote and the backslash are written
after a backslash, the tab, the line ends and the null character have names of their own, and a
character that cannot be shown by itself is written as its code point in braces. Everything
else stands for itself, an apostrophe too.
-/

namespace Parley.Text

/-- The digits of a number in base sixteen, in lower case and without leading zeros. -/
def hex (n : Nat) : String :=
  String.ofList (Nat.toDigits 16 n)

/-- The digits of a byte in base sixteen, always two. -/
def hexByte (b : UInt8) : String :=
  String.ofList [Nat.digitChar (b.toNat / 16), Nat.digitChar (b.toNat % 16)]

/-- How a character is written between double quotes. -/
def escaped (c : Char) : List Char :=
  if c = '\x00' then ['\\', '0']
  else if c = '\t' then ['\\', 't']
  else if c = '\n' then ['\\', 'n']
  else if c = '\r' then ['\\', 'r']
  else if c = '"' then ['\\', '"']
  else if c = '\\' then ['\\', '\\']
  else if isPrintable c then [c]
  else ['\\', 'u', '\x7b'] ++ Nat.toDigits 16 c.toNat ++ ['\x7d']

/-- A text between double quotes. -/
def quoted (s : String) : String :=
  String.ofList ('"' :: s.toList.flatMap escaped ++ ['"'])

end Parley.Text
