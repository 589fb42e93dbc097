import InputMask.Unicode.Classes

/-!
# Quoted texts

The form in which a report shows a text: between double quotes, with the quote and the
backslash escaped. Of what does not stand alone, the control characters that have a
letter of their own are shown by it and all else by its code point: `\u{a0}`.
-/

namespace InputMask.Text

/-- The code point of a character in hexadecimal digits. -/
def escapedCodePoint (c : Char) : Text :=
  ['\\', 'u', '{'] ++ Nat.toDigits 16 c.toNat ++ ['}']

/-- One character as it stands inside quotes. -/
def escaped (c : Char) : Text :=
  if c = '"' then ['\\', '"']
  else if c = '\\' then ['\\', '\\']
  else if c = '\t' then ['\\', 't']
  else if c = '\n' then ['\\', 'n']
  else if c = '\r' then ['\\', 'r']
  else if c = '\x00' then ['\\', '0']
  else if Unicode.isStandalone c then [c]
  else escapedCodePoint c

/-- A text between double quotes. -/
def quoted (text : Text) : Text :=
  '"' :: text.flatMap escaped ++ ['"']

example : quoted "say \"hi\"\n".toList = "\"say \\\"hi\\\"\\n\"".toList := by decide

end InputMask.Text
