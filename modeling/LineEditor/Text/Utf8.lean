/-!
# Streaming UTF-8

Text arrives as bytes, cut anywhere. `Decoder` holds the beginning of a sequence whose remaining
bytes have not arrived: the value of the bytes so far, the bounds on the next byte, and how many are
still owed. One byte goes in at a time, so that a run over two chunks is a run over their
concatenation (`decode_append`).

A byte that cannot continue the held sequence ends it: the sequence counts as one ill-formed part,
shown as U+FFFD, and the byte is read again as the first of a new sequence. Since the bounds admit
exactly the bytes that some well-formed sequence has next, each ill-formed part is maximal.
-/

namespace LineEditor.Utf8

/-- What stands for an ill-formed part. -/
def replacement : Char := '\uFFFD'

/-- A sequence that has begun: its value so far, the bounds on its next byte, and the number of
bytes that are owed after that one. -/
structure Opened where
  /-- The bits collected so far. -/
  value : Nat
  /-- The least byte that can come next. -/
  low : Nat
  /-- The greatest byte that can come next. -/
  high : Nat
  /-- The bytes owed after the next one. -/
  owed : Nat
  /-- The bytes of the sequence so far. -/
  bytes : List UInt8
  deriving DecidableEq, Repr

/-- Between sequences, or inside one. -/
abbrev Decoder := Option Opened

/-- How a byte reads as the first of a sequence: complete, opening a longer one, or ill-formed. -/
def first (byte : UInt8) : Decoder × List Char :=
  let b := byte.toNat
  let opening (value low high owed : Nat) : Decoder × List Char :=
    (some ⟨value, low, high, owed, [byte]⟩, [])
  if b ≤ 0x7F then (none, [Char.ofNat b])
  else if b < 0xC2 then (none, [replacement])
  else if b ≤ 0xDF then opening (b - 0xC0) 0x80 0xBF 0
  else if b = 0xE0 then opening 0 0xA0 0xBF 1
  else if b = 0xED then opening 0xD 0x80 0x9F 1
  else if b ≤ 0xEF then opening (b - 0xE0) 0x80 0xBF 1
  else if b = 0xF0 then opening 0 0x90 0xBF 2
  else if b ≤ 0xF3 then opening (b - 0xF0) 0x80 0xBF 2
  else if b = 0xF4 then opening 4 0x80 0x8F 2
  else (none, [replacement])

/-- One byte: the decoder after it, and the characters that it completes. -/
def accept : Decoder → UInt8 → Decoder × List Char
  | none, byte => first byte
  | some s, byte =>
    if s.low ≤ byte.toNat ∧ byte.toNat ≤ s.high then
      let value := s.value * 64 + (byte.toNat - 0x80)
      match s.owed with
      | 0 => (none, [Char.ofNat value])
      | owed + 1 => (some ⟨value, 0x80, 0xBF, owed, s.bytes ++ [byte]⟩, [])
    else
      let (decoder, text) := first byte
      (decoder, replacement :: text)

/-- A chunk of bytes: the decoder after it, and the characters that it completes. -/
def decode : Decoder → List UInt8 → Decoder × List Char
  | decoder, [] => (decoder, [])
  | decoder, byte :: rest =>
    let (next, text) := accept decoder byte
    let (last, more) := decode next rest
    (last, text ++ more)

/-- The bytes that wait for the rest of their sequence. -/
def tail (decoder : Decoder) : List UInt8 := decoder.elim [] Opened.bytes

/-- Two chunks decode as their concatenation. -/
theorem decode_append (decoder : Decoder) (s t : List UInt8) :
    decode decoder (s ++ t) =
      ((decode (decode decoder s).1 t).1,
        (decode decoder s).2 ++ (decode (decode decoder s).1 t).2) := by
  induction s generalizing decoder with
  | nil => rfl
  | cons byte rest ih => simp [decode, ih, List.append_assoc]

end LineEditor.Utf8
