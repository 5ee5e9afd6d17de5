import LineEditor.Text.Ranges

/-!
# Blank characters and words

A character is *blank* when it has the white-space property of Unicode: the five control codes
from the tab to the carriage return, the space, and eight further groups of separators. Words are
the maximal runs of characters that are not blank. `blank_of_isWhitespace` says that the blanks
include the ASCII white space of the core library.
-/

namespace LineEditor.Text

/-- The code points with the white-space property. -/
def blanks : Ranges :=
  [(0x9, 0xD), (0x20, 0x20), (0x85, 0x85), (0xA0, 0xA0), (0x1680, 0x1680), (0x2000, 0x200A),
    (0x2028, 0x2029), (0x202F, 0x202F), (0x205F, 0x205F), (0x3000, 0x3000)]

/-- A character with the white-space property. -/
def isBlank (c : Char) : Bool := blanks.contains c.toNat

/-- White space in the sense of the core library is blank. -/
theorem blank_of_isWhitespace {c : Char} (h : c.isWhitespace = true) : isBlank c = true := by
  simp only [Char.isWhitespace, Bool.or_eq_true, decide_eq_true_eq] at h
  rcases h with ((rfl | rfl) | rfl) | rfl <;> decide

/-- The text without the blanks it starts with. -/
def dropBlanks (text : List Char) : List Char := text.dropWhile isBlank

/-- A text cut at its first blank: what stands before it, and what follows it. -/
def cutAtBlank (text : List Char) : List Char × List Char :=
  (text.takeWhile (!isBlank ·), (text.dropWhile (!isBlank ·)).tail)

/-- The number of words of a text. `inWord` says whether the character before it was of a word. -/
def countWords (inWord : Bool) : List Char → Nat
  | [] => 0
  | c :: rest =>
    if isBlank c then countWords false rest
    else if inWord then countWords true rest
    else countWords true rest + 1

/-- The number of maximal runs of characters that are not blank. -/
def wordCount (text : List Char) : Nat := countWords false text

end LineEditor.Text
