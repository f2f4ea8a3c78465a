import Renaming.Text.Printable

/-!
# Quotation of texts and characters in messages

A text is quoted between double marks, a character between single marks. The escapes are a backslash
before the mark itself and before a backslash, a letter for the four commonest control characters,
and the code point in lower-case hexadecimal digits for every other character that is shown by its
code.
-/

namespace Renaming.Text

/-- The code of a character in braces, after a backslash and the letter `u`. -/
def codeEscape (c : Char) : List Char :=
  ['\\', 'u', '\x7b'] ++ Nat.toDigits 16 c.toNat ++ ['\x7d']

/-- How a character appears between two marks. -/
def escaped (mark c : Char) : List Char :=
  if c = '\x00' then ['\\', '0']
  else if c = '\t' then ['\\', 't']
  else if c = '\r' then ['\\', 'r']
  else if c = '\n' then ['\\', 'n']
  else if c = mark ∨ c = '\\' then ['\\', c]
  else if isShownByCode c then codeEscape c
  else [c]

/-- A text between double marks. -/
def quoted (text : String) : String :=
  String.ofList (['"'] ++ text.toList.flatMap (escaped '"') ++ ['"'])

/-- A character between single marks. -/
def quotedChar (c : Char) : String :=
  String.ofList (['\''] ++ escaped '\'' c ++ ['\''])

end Renaming.Text
