import LineEditor.Line.Basic
import LineEditor.Text.Width

/-!
# Redrawing a line

`redraw old new` is what a terminal that shows `old` with the cursor in its place has to be sent to
show `new`. The backspace moves the cursor one column left and changes nothing, so all distances are
counted in columns, of which the terminal knows how many a character takes.

When only the cursor moves, it moves left by backspaces, or right by writing the characters that it
passes. Otherwise the cursor goes back to the first character that differs, if it stands after it;
the rest of the new line is written from there; columns that the old line had beyond it are blanked;
and the cursor goes back to its place.
-/

namespace LineEditor

open Text (width)

/-- As many backspaces as columns. -/
def backspaces (columns : Nat) : List Char := List.replicate columns '\x08'

/-- The number of characters that two texts have in common at their beginning. -/
def commonLength : List Char → List Char → Nat
  | a :: s, b :: t => if a = b then commonLength s t + 1 else 0
  | _, _ => 0

/-- Blanks a number of columns from the cursor on, and comes back. -/
def erase (columns : Nat) : List Char := List.replicate columns ' ' ++ backspaces columns

namespace Line

variable [Text.Widths]

/-- What takes a terminal from showing one line to showing another. -/
def redraw (old new : Line) : List Char :=
  if old.text = new.text then
    if new.cursor < old.cursor then
      backspaces (width ((old.text.take old.cursor).drop new.cursor))
    else (new.text.take new.cursor).drop old.cursor
  else
    let start := min (commonLength old.text new.text) old.cursor
    backspaces (width ((old.text.take old.cursor).drop start))
      ++ new.text.drop start
      ++ erase (width (old.text.drop start) - width (new.text.drop start))
      ++ backspaces (width new.after)

/-- Nothing is written for a line that stays as it is. -/
theorem redraw_self (l : Line) : l.redraw l = [] := by
  rw [redraw, if_pos rfl, if_neg (Nat.lt_irrefl _), List.drop_take_self]

/-- On an empty row a line is written as a whole, and the cursor goes back to its place. -/
theorem redraw_empty (l : Line) : empty.redraw l = l.text ++ backspaces (width l.after) := by
  have hnone : empty.text = [] := rfl
  have hstart : empty.cursor = 0 := rfl
  cases htext : l.text with
  | nil => simp [redraw, hnone, hstart, htext, after, backspaces]
  | cons c text => simp [redraw, hnone, hstart, htext, commonLength, backspaces, erase]

end Line

end LineEditor
