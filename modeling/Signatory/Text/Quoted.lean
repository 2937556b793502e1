import Signatory.Text.Printable

/-!
# Quoted text

How a character or a text is shown between quotes in messages and summaries: the usual escapes for
control characters, a backslash before the enclosing quote and before a backslash, and the code
point in hexadecimal for whatever cannot be printed on its own.
-/

namespace Signatory.Text

/-- The hexadecimal digits of a number, in lower case. -/
def hexadecimal (n : Nat) : List Char :=
  Nat.toDigits 16 n

/-- One character as it stands between quotes of the given kind. -/
def escape (quote c : Char) : List Char :=
  if c = '\x00' then ['\\', '0']
  else if c = '\t' then ['\\', 't']
  else if c = '\n' then ['\\', 'n']
  else if c = '\r' then ['\\', 'r']
  else if c = '\\' ∨ c = quote then ['\\', c]
  else if isPrintable c then [c]
  else ['\\', 'u', '\x7b'] ++ hexadecimal c.toNat ++ ['\x7d']

/-- A character between apostrophes. -/
def quotedChar (c : Char) : String :=
  String.ofList (['\x27'] ++ escape '\x27' c ++ ['\x27'])

/-- A text between quotation marks. -/
def quoted (s : String) : String :=
  String.ofList (['\x22'] ++ s.toList.flatMap (escape '\x22') ++ ['\x22'])

end Signatory.Text
