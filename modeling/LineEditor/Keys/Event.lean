import LineEditor.Text.Escaped

/-!
# Key events

Typed input reaches the editor as events: a key that stands for some characters, or the name of an
editing function. `describe` is how a key is shown in messages.
-/

namespace LineEditor

/-- What a stretch of typed characters means. -/
inductive KeyEvent where
  /-- Characters that were typed or that a key stands for. -/
  | key (text : List Char)
  /-- The editing function of a name. -/
  | function (name : List Char)
  deriving DecidableEq, Repr

namespace Keys

/-- The Enter key. -/
def enter : Char := '\r'

/-- The Tab key. -/
def tab : Char := '\t'

/-- The delete key, as terminals send it for erasing backwards. -/
def delete : Char := '\x7F'

/-- What begins the sequences of the cursor keys. -/
def escape : Char := '\x1B'

/-- The character that a terminal sends for a letter with the control key. -/
def control (letter : Char) : Char := Char.ofNat (letter.toNat % 32)

/-- A key as messages show it: each of its characters in quote marks. -/
def describe (text : List Char) : List Char :=
  "Key[".toList ++ List.intercalate [',', ' '] (text.map Text.Escaped.quoteChar) ++ [']']

end Keys

end LineEditor
