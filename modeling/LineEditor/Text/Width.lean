/-!
# Column widths

How many columns a character takes is a matter of the terminal. What is written is computed from
some `Widths`, and rests on two facts about them alone: control codes take no column, and the space
takes one. The width of a text is the sum over its characters; `width_append` is the law that cursor
arithmetic rests on.
-/

namespace LineEditor.Text

/-- A control code of the C0 or C1 set, or the delete character. -/
def isControl (c : Char) : Bool := c.toNat < 0x20 || (0x7F ≤ c.toNat && c.toNat < 0xA0)

/-- The numbers of columns that characters take on a terminal. -/
class Widths where
  /-- The number of columns of a character, if it is said to have a width. -/
  columns? : Char → Option Nat
  /-- A control code has no width. -/
  columns?_control : ∀ c, isControl c = true → columns? c = none
  /-- The space takes one column. -/
  columns?_space : columns? ' ' = some 1

variable [Widths]

/-- The number of columns that a character takes. -/
def charWidth (c : Char) : Nat := (Widths.columns? c).getD 0

/-- The number of columns that a text takes. -/
def width : List Char → Nat
  | [] => 0
  | c :: text => charWidth c + width text

@[simp]
theorem charWidth_space : charWidth ' ' = 1 := congrArg (·.getD 0) Widths.columns?_space

theorem charWidth_control {c : Char} (h : isControl c = true) : charWidth c = 0 :=
  congrArg (·.getD 0) (Widths.columns?_control c h)

@[simp]
theorem width_nil : width [] = 0 := rfl

@[simp]
theorem width_cons (c : Char) (text : List Char) :
    width (c :: text) = charWidth c + width text :=
  rfl

@[simp]
theorem width_append (s t : List Char) : width (s ++ t) = width s + width t := by
  induction s with
  | nil => exact (Nat.zero_add _).symm
  | cons c s ih => rw [List.cons_append, width_cons, width_cons, ih, Nat.add_assoc]

end LineEditor.Text
