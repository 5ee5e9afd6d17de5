import LineEditor.Text.Utf8

/-!
# UTF-8 from a buffer

A stream can also be decoded from a buffer that is checked as a whole. A `Check` reports whether
some bytes are the encoding of a text. If they are not, it reports how far they are, and what stands
there: the beginning of a character, or an ill-formed part and its length. What has been decoded is
taken from the buffer, and ill-formed parts too, until nothing is left or a character may still be
finished (`Check.drain`). Every round takes something, since an ill-formed part is not empty.
-/

namespace LineEditor.Utf8

/-! ### Well-formed and ill-formed sequences -/

/-- The encoding of a text. -/
def encode (text : List Char) : List UInt8 := text.flatMap String.utf8EncodeChar

/-- Some bytes begin the encoding of a character. -/
def Begins (bytes : List UInt8) : Prop := ∃ c, bytes <+: String.utf8EncodeChar c

/-- Before `rest`, `part` is one ill-formed part: as many bytes as begin a character that does not
come to its end, or a single byte that begins none. -/
structure IllFormed (part rest : List UInt8) : Prop where
  ne_nil : part ≠ []
  no_char : ∀ c, ¬ String.utf8EncodeChar c <+: part ++ rest
  begins : part.length = 1 ∨ Begins part
  longest : ∀ more, more <+: part ++ rest → part.length < more.length → ¬ Begins more

/-! ### Checks -/

/-- What is reported of some bytes. -/
inductive Report where
  /-- They are the encoding of a text. -/
  | valid (text : List Char)
  /-- They are so up to a place. An ill-formed part of some length stands there, if not only the end
  of a character is missing. -/
  | invalid (upTo : Nat) (length? : Option Nat)
  deriving DecidableEq, Repr

/-- What a report of invalid bytes promises. -/
structure Invalid (bytes : List UInt8) (upTo : Nat) (length? : Option Nat) : Prop where
  lt : upTo < bytes.length
  valid : ∃ text, encode text = bytes.take upTo
  greatest : ∀ n ≤ bytes.length, (∃ text, encode text = bytes.take n) → n ≤ upTo
  unfinished : length? = none ↔ Begins (bytes.drop upTo)
  illFormed : ∀ length, length? = some length → ∃ part rest,
    bytes.drop upTo = part ++ rest ∧ part.length = length ∧ IllFormed part rest

/-- A check of bytes that keeps its promises. -/
structure Check where
  /-- What it reports. -/
  report : List UInt8 → Report
  valid_iff : ∀ bytes text, report bytes = .valid text ↔ encode text = bytes
  invalid : ∀ bytes upTo length?, report bytes = .invalid upTo length? →
    Invalid bytes upTo length?

namespace Check

/-- The text that some bytes encode, if they do. -/
def text (check : Check) (bytes : List UInt8) : List Char :=
  match check.report bytes with
  | .valid text => text
  | .invalid _ _ => []

/-- What is taken along with an ill-formed part is not nothing. -/
theorem length_drop_lt {check : Check} {pending : List UInt8} {upTo length : Nat}
    (h : check.report pending = .invalid upTo (some length)) :
    (pending.drop (upTo + length)).length < pending.length := by
  have hinvalid := check.invalid _ _ _ h
  obtain ⟨part, rest, -, hlength, hpart⟩ := hinvalid.illFormed length rfl
  have hlt := hinvalid.lt
  have hpos := List.length_pos_iff.2 hpart.ne_nil
  rw [List.length_drop]
  omega

/-- Decodes what is in a buffer, as far as it goes: the text, and what is left. -/
def drain (check : Check) (pending : List UInt8) : List Char × List UInt8 :=
  match _h : check.report pending with
  | .valid text => (text, [])
  | .invalid upTo none => (check.text (pending.take upTo), pending.drop upTo)
  | .invalid upTo (some length) =>
    let (more, tail) := check.drain (pending.drop (upTo + length))
    (check.text (pending.take upTo) ++ replacement :: more, tail)
termination_by pending.length
decreasing_by exact length_drop_lt _h

/-- The number of checks that this takes. -/
def rounds (check : Check) (pending : List UInt8) : Nat :=
  match _h : check.report pending with
  | .valid _ | .invalid _ none => 1
  | .invalid upTo (some length) =>
    check.rounds (pending.drop (upTo + length)) + 1
termination_by pending.length
decreasing_by exact length_drop_lt _h

/-- A chunk of bytes comes into the buffer: the text that it completes, and what is left. -/
def decode (check : Check) (pending chunk : List UInt8) : List Char × List UInt8 :=
  check.drain (pending ++ chunk)

/-- Chunks come one after the other: the text that each completes, and what is left. -/
def stream (check : Check) (pending : List UInt8) :
    List (List UInt8) → List (List Char) × List UInt8
  | [] => ([], pending)
  | chunk :: rest =>
    let (text, tail) := check.decode pending chunk
    let (texts, last) := check.stream tail rest
    (text :: texts, last)

end Check

end LineEditor.Utf8
