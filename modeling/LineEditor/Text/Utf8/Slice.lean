import LineEditor.Text.Utf8.Buffered

/-!
# Cutting a text at a place in its encoding

A text that is kept as its encoding is cut by the number of bytes. This can be done at its end and
where a character begins, which the byte at the place tells (`isBoundary`); anywhere else there is
nothing to be had (`slice?`). `offsets` goes through the characters of a text along with the places
at which they begin.
-/

namespace LineEditor.Utf8

/-- Whether a byte goes on with a character that has begun before it. -/
def isContinuation (byte : UInt8) : Bool := 0x80 ≤ byte.toNat && byte.toNat < 0xC0

/-- Whether an encoding can be cut at a place. -/
def isBoundary (bytes : List UInt8) (place : Nat) : Bool :=
  place = 0 ||
    match bytes[place]? with
    | some byte => !isContinuation byte
    | none => place = bytes.length

/-- The encoding of a text up to a place, if the text can be cut there. -/
def slice? (text : List Char) (place : Nat) : Option (List UInt8) :=
  if isBoundary (encode text) place then some ((encode text).take place) else none

/-- The characters of a text and the places at which they begin, if the first begins at `place`. -/
def offsets (place : Nat) : List Char → List (Nat × Char)
  | [] => []
  | c :: rest => (place, c) :: offsets (place + c.utf8Size) rest

end LineEditor.Utf8
