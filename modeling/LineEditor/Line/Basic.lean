/-!
# The edited line

A `Line` is a text with a cursor between two of its characters, before the first or after the last.
Positions and sizes beyond the end mean the end, and distances beyond either end stop there, so
every operation is defined on every line and keeps the cursor within it.

`before` and `after` are the two parts that the cursor separates; `before_append_after` puts them
together again, and the operations are described by what they do to these parts.
-/

namespace LineEditor

/-- A text with a cursor in it. -/
structure Line where
  /-- The characters. -/
  text : List Char := []
  /-- The number of characters before the cursor. -/
  cursor : Nat := 0
  /-- The cursor is within the text. -/
  cursor_le : cursor ≤ text.length := by omega
  deriving DecidableEq, Repr

namespace Line

/-- The line without characters. -/
def empty : Line := {}

instance : Inhabited Line := ⟨empty⟩

/-- The line that holds a text, with the cursor at its end. -/
def ofText (text : List Char) : Line := { text, cursor := text.length }

/-- The characters before the cursor. -/
def before (l : Line) : List Char := l.text.take l.cursor

/-- The characters after the cursor. -/
def after (l : Line) : List Char := l.text.drop l.cursor

theorem before_append_after (l : Line) : l.before ++ l.after = l.text :=
  List.take_append_drop _ _

theorem length_before (l : Line) : l.before.length = l.cursor := by
  simp [before, Nat.min_eq_left l.cursor_le]

/-- The line that two parts make, with the cursor between them. -/
def ofParts (before after : List Char) : Line where
  text := before ++ after
  cursor := before.length
  cursor_le := by
    rw [List.length_append]
    exact Nat.le_add_right _ _

/-- Puts the cursor at a position, or at the end when that is nearer. -/
def moveTo (l : Line) (position : Nat) : Line :=
  { text := l.text, cursor := min position l.text.length, cursor_le := Nat.min_le_right _ _ }

/-- Puts characters before the cursor. -/
def insert (l : Line) (s : List Char) : Line := ofParts (l.before ++ s) l.after

@[simp]
theorem text_insert (l : Line) (s : List Char) : (l.insert s).text = l.before ++ s ++ l.after := rfl

@[simp]
theorem before_insert (l : Line) (s : List Char) : (l.insert s).before = l.before ++ s :=
  List.take_left

@[simp]
theorem after_insert (l : Line) (s : List Char) : (l.insert s).after = l.after := List.drop_left

@[simp]
theorem insert_nil (l : Line) : l.insert [] = l := by
  have htext : (l.insert []).text = l.text := by
    rw [text_insert, List.append_nil, l.before_append_after]
  have hcursor : (l.insert []).cursor = l.cursor := by
    rw [← length_before, ← length_before, before_insert, List.append_nil]
  cases h : l.insert []
  cases l
  simp_all

/-- Keeps the first characters only; the cursor stays within them. -/
def truncate (l : Line) (size : Nat) : Line := ({ text := l.text.take size } : Line).moveTo l.cursor

/-- Moves the cursor by a distance, to the right when it is positive, and at most to either end. -/
def moveBy (l : Line) (distance : Int) : Line := l.moveTo (l.cursor + distance).toNat

/-- Removes as many characters as there are to the right of the cursor, or to its left when the
distance is negative, and at most all of them. -/
def delete (l : Line) (distance : Int) : Line :=
  if distance < 0 then ofParts (l.before.take (l.cursor - distance.natAbs)) l.after
  else ofParts l.before (l.after.drop distance.natAbs)

end Line

end LineEditor
