import LineEditor.Text.Escaped.Table

/-!
# Escaped text

How a character or a text is shown inside quote marks in a message: the backslash, the quote mark
that surrounds it and five control codes by a backslash and a letter, and a character that would not
show, or that would join the quote mark before it, by its code point in braces. `quoteChar` uses
single quote marks, `quoteText` double ones.
-/

namespace LineEditor.Text.Escaped

/-- The lower-case hexadecimal digits of a number, without leading zeros. -/
def hexDigits (n : Nat) : List Char := Nat.toDigits 16 n

/-- A character as it stands between quote marks `mark`. -/
def encodeChar (mark : Char) (c : Char) : List Char :=
  if c = '\x00' then ['\\', '0']
  else if c = '\t' then ['\\', 't']
  else if c = '\r' then ['\\', 'r']
  else if c = '\n' then ['\\', 'n']
  else if c = '\\' then ['\\', '\\']
  else if c = mark then ['\\', c]
  else if extending.contains c.toNat || unprintable.contains c.toNat then
    ['\\', 'u', '{'] ++ hexDigits c.toNat ++ ['}']
  else [c]

/-- A character in single quote marks. -/
def quoteChar (c : Char) : List Char := '\'' :: encodeChar '\'' c ++ ['\'']

/-- A text in double quote marks. -/
def quoteText (text : List Char) : List Char := '"' :: text.flatMap (encodeChar '"') ++ ['"']

end LineEditor.Text.Escaped
