import LineEditor.Text.Utf8.Buffered
import Mathlib.Algebra.Ring.Nat
import Mathlib.Tactic.Common

/-!
# Decoding one character

A decoder that has taken some bytes of a sequence allows those values whose digits to base 64
begin so. `Opened.Sound` says that all these are values of characters, and that their encodings
begin with the bytes that were taken. A lead makes a decoder sound (`Opens.sound`): the bounds on
the second byte keep out what would fit into a shorter sequence, the surrogates, and what is too
large. A byte within the bounds keeps it sound (`Opened.Sound.push`), and the last one completes the
character (`Opened.Sound.complete`).

What comes of one byte is then one of three things, between sequences (`first_cases`) as inside one
(`accept_cases`): a character is complete, one has begun or goes on, or no character is like this.
-/

namespace LineEditor.Utf8

open String (utf8EncodeChar)

/-! ### The bytes of a character -/

/-- The bytes for the last `n` digits of a value to base 64. -/
def continuation : Nat → Nat → List UInt8
  | 0, _ => []
  | n + 1, v => UInt8.ofNat (v / 64 ^ n % 64 + 0x80) :: continuation n v

/-- The values of characters end here. -/
theorem toNat_lt_max (c : Char) : c.toNat < 0x110000 := by
  rcases c.valid with hlow | hhigh
  · exact Nat.lt_trans hlow (by decide)
  · exact hhigh.2

/-- A character's encoding, with its value cut into digits to base 64. -/
theorem encode_eq (c : Char) :
    utf8EncodeChar c =
      if c.toNat ≤ 0x7F then [UInt8.ofNat c.toNat]
      else if c.toNat ≤ 0x7FF then UInt8.ofNat (c.toNat / 64 + 0xC0) :: continuation 1 c.toNat
      else if c.toNat ≤ 0xFFFF then UInt8.ofNat (c.toNat / 64 ^ 2 + 0xE0) :: continuation 2 c.toNat
      else UInt8.ofNat (c.toNat / 64 ^ 3 + 0xF0) :: continuation 3 c.toNat := by
  have hmax := toNat_lt_max c
  simp only [utf8EncodeChar, Char.toNat_val, continuation, Nat.reducePow, Nat.div_one]
  split_ifs with h1 h2 h3
  · rfl
  · rw [show c.toNat / 64 % 32 = c.toNat / 64 by omega]
  · rw [show c.toNat / 4096 % 16 = c.toNat / 4096 by omega]
  · rw [show c.toNat / 262144 % 8 = c.toNat / 262144 by omega]

theorem toNat_ofNat {v : Nat} (h : v.isValidChar) : (Char.ofNat v).toNat = v := by
  rw [Char.ofNat, dif_pos h]
  rfl

theorem ofNat_eq {byte : UInt8} {n : Nat} (h : n = byte.toNat) : UInt8.ofNat n = byte := by
  rw [h, UInt8.ofNat_toNat]

/-! ### Sequences that have begun -/

/-- A value is one of those whose encoding has begun as `s` has. -/
structure Opened.Allows (s : Opened) (v : Nat) : Prop where
  value : v / 64 ^ (s.owed + 1) = s.value
  low_le : s.low ≤ v / 64 ^ s.owed % 64 + 0x80
  le_high : v / 64 ^ s.owed % 64 + 0x80 ≤ s.high

/-- The bytes of a sequence are those that encode the first digits of what it allows. -/
structure Opened.Sound (s : Opened) : Prop where
  decode : Utf8.decode none s.bytes = (some s, [])
  ne_nil : s.bytes ≠ []
  length_le : s.bytes.length + s.owed ≤ 3
  le_low : 0x80 ≤ s.low
  low_le : s.low ≤ s.high
  high_le : s.high ≤ 0xBF
  isValidChar : ∀ v, s.Allows v → v.isValidChar
  encode : ∀ c : Char, s.Allows c.toNat →
    utf8EncodeChar c = s.bytes ++ continuation (s.owed + 1) c.toNat

variable {byte : UInt8} {s : Opened} {c : Char}

theorem decode_singleton (d : Decoder) (byte : UInt8) : decode d [byte] = accept d byte := by
  simp [decode]

/-- What the lead of a sequence opens: `n` is the number of its other bytes, and `least` is below
the values that need so many. -/
structure Opens (byte : UInt8) (n offset least : Nat) (s : Opened) : Prop where
  first : Utf8.first byte = (some s, [])
  bytes : s.bytes = [byte]
  owed : s.owed + 1 = n
  bounds : 0x80 ≤ s.low ∧ s.low ≤ s.high ∧ s.high ≤ 0xBF
  allows_iff : ∀ v, s.Allows v ↔
    v / 64 ^ n + offset = byte.toNat ∧ least < v ∧ v.isValidChar

/-- The lead of a sequence of two bytes. -/
theorem exists_opens_two (hlow : 0xC2 ≤ byte.toNat) (hhigh : byte.toNat ≤ 0xDF) :
    ∃ s, Opens byte 1 0xC0 0x7F s := by
  refine ⟨⟨byte.toNat - 0xC0, 0x80, 0xBF, 0, [byte]⟩, ?_, rfl, rfl, by simp, fun v => ?_⟩
  · simp only [first]
    rw [if_neg (by omega), if_neg (by omega), if_pos hhigh]
  · constructor
    · rintro ⟨hvalue, -, -⟩
      simp only [Nat.reduceAdd, Nat.pow_one] at hvalue ⊢
      exact ⟨by omega, by omega, .inl (by omega)⟩
    · rintro ⟨hlead, -, -⟩
      constructor <;> simp only [Nat.reduceAdd, Nat.pow_one, Nat.pow_zero, Nat.div_one] at * <;>
        omega

/-- The lead of a sequence of three bytes. The bounds on the second byte keep out what fits into two
bytes, and the surrogates. -/
theorem exists_opens_three (hlow : 0xE0 ≤ byte.toNat) (hhigh : byte.toNat ≤ 0xEF) :
    ∃ s, Opens byte 2 0xE0 0x7FF s := by
  refine ⟨⟨byte.toNat - 0xE0, if byte.toNat = 0xE0 then 0xA0 else 0x80,
    if byte.toNat = 0xED then 0x9F else 0xBF, 1, [byte]⟩, ?_, rfl, rfl, ?_, fun v => ?_⟩
  · simp only [first]
    rw [if_neg (by omega), if_neg (by omega), if_neg (by omega)]
    split_ifs <;> simp_all
  · dsimp only
    split_ifs <;> omega
  · constructor
    · rintro ⟨hvalue, hl, hh⟩
      simp only [Nat.reduceAdd, Nat.reducePow, Nat.isValidChar] at hvalue hl hh ⊢
      split_ifs at hl hh <;> omega
    · rintro ⟨hlead, hleast, hvalid⟩
      simp only [Nat.reducePow, Nat.isValidChar] at hlead hvalid
      refine ⟨by simp only [Nat.reduceAdd, Nat.reducePow]; omega, ?_, ?_⟩ <;>
        simp only [Nat.reducePow] <;> split_ifs <;> omega

/-- The lead of a sequence of four bytes. The bounds on the second byte keep out what fits into
three bytes, and what is no value of a character any more. -/
theorem exists_opens_four (hlow : 0xF0 ≤ byte.toNat) (hhigh : byte.toNat ≤ 0xF4) :
    ∃ s, Opens byte 3 0xF0 0xFFFF s := by
  refine ⟨⟨byte.toNat - 0xF0, if byte.toNat = 0xF0 then 0x90 else 0x80,
    if byte.toNat = 0xF4 then 0x8F else 0xBF, 2, [byte]⟩, ?_, rfl, rfl, ?_, fun v => ?_⟩
  · simp only [first]
    rw [if_neg (by omega), if_neg (by omega), if_neg (by omega), if_neg (by omega),
      if_neg (by omega), if_neg (by omega)]
    split_ifs <;> first | omega | simp_all
  · dsimp only
    split_ifs <;> omega
  · constructor
    · rintro ⟨hvalue, hl, hh⟩
      simp only [Nat.reduceAdd, Nat.reducePow, Nat.isValidChar] at hvalue hl hh ⊢
      split_ifs at hl hh <;> omega
    · rintro ⟨hlead, hleast, hvalid⟩
      simp only [Nat.reducePow, Nat.isValidChar] at hlead hvalid
      refine ⟨by simp only [Nat.reduceAdd, Nat.reducePow]; omega, ?_, ?_⟩ <;>
        simp only [Nat.reducePow] <;> split_ifs <;> omega

/-- What a lead opens is sound, since only characters of its length have it. -/
theorem Opens.sound {n offset least : Nat} (h : Opens byte n offset least s) (hn : n ≤ 3)
    (hencode : ∀ c : Char, c.toNat / 64 ^ n + offset = byte.toNat → least < c.toNat →
      utf8EncodeChar c = UInt8.ofNat (c.toNat / 64 ^ n + offset) :: continuation n c.toNat) :
    s.Sound where
  decode := by rw [h.bytes, decode_singleton]; exact h.first
  ne_nil := by rw [h.bytes]; exact nofun
  length_le := by
    have howed := h.owed
    rw [h.bytes, List.length_singleton]
    omega
  le_low := h.bounds.1
  low_le := h.bounds.2.1
  high_le := h.bounds.2.2
  isValidChar v hv := ((h.allows_iff v).1 hv).2.2
  encode c hc := by
    obtain ⟨hlead, hleast, -⟩ := (h.allows_iff c.toNat).1 hc
    rw [hencode c hlead hleast, ofNat_eq hlead, h.bytes, h.owed]
    rfl

theorem exists_sound_two (hlow : 0xC2 ≤ byte.toNat) (hhigh : byte.toNat ≤ 0xDF) :
    ∃ s, Opens byte 1 0xC0 0x7F s ∧ s.Sound := by
  obtain ⟨s, h⟩ := exists_opens_two hlow hhigh
  refine ⟨s, h, h.sound (by decide) fun c hlead hleast => ?_⟩
  rw [encode_eq, if_neg (by omega), if_pos (by omega), Nat.pow_one]

theorem exists_sound_three (hlow : 0xE0 ≤ byte.toNat) (hhigh : byte.toNat ≤ 0xEF) :
    ∃ s, Opens byte 2 0xE0 0x7FF s ∧ s.Sound := by
  obtain ⟨s, h⟩ := exists_opens_three hlow hhigh
  refine ⟨s, h, h.sound (by decide) fun c hlead hleast => ?_⟩
  rw [encode_eq, if_neg (by omega), if_neg (by omega), if_pos (by omega)]

theorem exists_sound_four (hlow : 0xF0 ≤ byte.toNat) (hhigh : byte.toNat ≤ 0xF4) :
    ∃ s, Opens byte 3 0xF0 0xFFFF s ∧ s.Sound := by
  obtain ⟨s, h⟩ := exists_opens_four hlow hhigh
  refine ⟨s, h, h.sound (by decide) fun c hlead hleast => ?_⟩
  rw [encode_eq, if_neg (by omega), if_neg (by omega), if_neg (by omega)]

/-- Every character of more than one byte is allowed by what its lead opens. -/
theorem exists_opened (h : 0x7F < c.toNat) :
    ∃ byte s, first byte = (some s, []) ∧ s.Sound ∧ s.bytes = [byte] ∧ s.Allows c.toNat := by
  have hvalid : c.toNat.isValidChar := c.valid
  have hmax := toNat_lt_max c
  -- the digits above those in the other bytes go into the lead
  have hallows : ∀ n offset least, c.toNat / 64 ^ n + offset < 256 → least < c.toNat →
      (∃ s, Opens (UInt8.ofNat (c.toNat / 64 ^ n + offset)) n offset least s ∧ s.Sound) →
        ∃ byte s, first byte = (some s, []) ∧ s.Sound ∧ s.bytes = [byte] ∧ s.Allows c.toNat := by
    rintro n offset least hlt hleast ⟨s, hs, hsound⟩
    refine ⟨_, s, hs.first, hsound, hs.bytes, (hs.allows_iff _).2 ⟨?_, hleast, hvalid⟩⟩
    rw [UInt8.toNat_ofNat_of_lt' hlt]
  have hlead : ∀ {n : Nat}, n < 256 → (UInt8.ofNat n).toNat = n := UInt8.toNat_ofNat_of_lt'
  obtain htwo | hthree | hfour : c.toNat ≤ 0x7FF ∨ 0x7FF < c.toNat ∧ c.toNat ≤ 0xFFFF ∨
      0xFFFF < c.toNat := by omega
  · refine hallows 1 0xC0 0x7F (by omega) h (exists_sound_two ?_ ?_) <;>
      rw [hlead (by omega)] <;> omega
  · refine hallows 2 0xE0 0x7FF (by omega) hthree.1 (exists_sound_three ?_ ?_) <;>
      rw [hlead (by omega)] <;> omega
  · refine hallows 3 0xF0 0xFFFF (by omega) hfour (exists_sound_four ?_ ?_) <;>
      rw [hlead (by omega)] <;> omega

/-- What a byte comes to where a sequence can begin. -/
inductive FirstCases (byte : UInt8) : Prop where
  /-- It is the encoding of a character. -/
  | completes (c : Char) (h : first byte = (none, [c])) (hc : utf8EncodeChar c = [byte])
  /-- It begins one. -/
  | opens (s : Opened) (h : first byte = (some s, [])) (hs : s.Sound) (hbytes : s.bytes = [byte])
  /-- It does neither. -/
  | breaks (h : first byte = (none, [replacement])) (hbegins : ¬ Begins [byte])

theorem first_cases (byte : UInt8) : FirstCases byte := by
  obtain hbyte | ⟨hlow, hhigh⟩ | ⟨hlow, hhigh⟩ | ⟨hlow, hhigh⟩ | hbyte :
      byte.toNat ≤ 0x7F ∨ 0xC2 ≤ byte.toNat ∧ byte.toNat ≤ 0xDF ∨
        0xE0 ≤ byte.toNat ∧ byte.toNat ≤ 0xEF ∨ 0xF0 ≤ byte.toNat ∧ byte.toNat ≤ 0xF4 ∨
          (0x7F < byte.toNat ∧ byte.toNat < 0xC2 ∨ 0xF4 < byte.toNat) := by omega
  · have hchar : (Char.ofNat byte.toNat).toNat = byte.toNat := toNat_ofNat (.inl (by omega))
    refine .completes (Char.ofNat byte.toNat) (if_pos hbyte) ?_
    rw [encode_eq, hchar, if_pos hbyte, UInt8.ofNat_toNat]
  · obtain ⟨s, h, hs⟩ := exists_sound_two hlow hhigh
    exact .opens s h.first hs h.bytes
  · obtain ⟨s, h, hs⟩ := exists_sound_three hlow hhigh
    exact .opens s h.first hs h.bytes
  · obtain ⟨s, h, hs⟩ := exists_sound_four hlow hhigh
    exact .opens s h.first hs h.bytes
  · have hfirst : first byte = (none, [replacement]) := by
      simp only [first]
      split_ifs <;> first | rfl | omega
    refine .breaks hfirst fun ⟨c, hc⟩ => ?_
    -- the first byte of a character is small, or opens a sequence
    obtain hone | hmore := Nat.lt_or_ge 0x7F c.toNat
    · obtain ⟨lead, s, hlead, hs, hbytes, hallows⟩ := exists_opened hone
      rw [hs.encode c hallows, hbytes, List.singleton_append, List.cons_prefix_cons] at hc
      rw [hc.1, hlead] at hfirst
      cases hfirst
    · rw [encode_eq, if_pos hmore, List.cons_prefix_cons] at hc
      rw [hc.1, UInt8.toNat_ofNat_of_lt' (Nat.lt_of_le_of_lt hmore (by decide))] at hbyte
      omega

/-! ### Going on -/

/-- The sequence with one more byte. -/
def Opened.push (s : Opened) (byte : UInt8) : Opened :=
  ⟨s.value * 64 + (byte.toNat - 0x80), 0x80, 0xBF, s.owed - 1, s.bytes ++ [byte]⟩

namespace Opened

@[simp] theorem push_value (s : Opened) (byte : UInt8) :
    (s.push byte).value = s.value * 64 + (byte.toNat - 0x80) := rfl

@[simp] theorem push_low (s : Opened) (byte : UInt8) : (s.push byte).low = 0x80 := rfl

@[simp] theorem push_high (s : Opened) (byte : UInt8) : (s.push byte).high = 0xBF := rfl

@[simp] theorem push_owed (s : Opened) (byte : UInt8) : (s.push byte).owed = s.owed - 1 := rfl

@[simp] theorem push_bytes (s : Opened) (byte : UInt8) :
    (s.push byte).bytes = s.bytes ++ [byte] := rfl

end Opened

theorem accept_of_owed (hbyte : s.low ≤ byte.toNat ∧ byte.toNat ≤ s.high) (howed : s.owed ≠ 0) :
    accept (some s) byte = (some (s.push byte), []) := by
  simp only [accept, if_pos hbyte]
  split
  · contradiction
  next owed h =>
    obtain rfl : s.owed - 1 = owed := Nat.sub_eq_of_eq_add h
    rfl

theorem accept_of_not_owed (hbyte : s.low ≤ byte.toNat ∧ byte.toNat ≤ s.high) (howed : s.owed = 0) :
    accept (some s) byte = (none, [Char.ofNat (s.value * 64 + (byte.toNat - 0x80))]) := by
  simp only [accept, if_pos hbyte]
  rw [howed]

theorem accept_of_not (hbyte : ¬ (s.low ≤ byte.toNat ∧ byte.toNat ≤ s.high)) :
    accept (some s) byte = ((first byte).1, replacement :: (first byte).2) := by
  simp only [accept, if_neg hbyte]

/-- A digit more is known. -/
theorem div_pow_succ (v n : Nat) : v / 64 ^ (n + 1) = v / 64 ^ n / 64 := by
  rw [Nat.pow_succ, Nat.div_div_eq_div_mul]

namespace Opened.Sound

/-- A byte within the bounds is the next one of all values with its digit. -/
theorem allows (h : s.Sound) (hbyte : s.low ≤ byte.toNat ∧ byte.toNat ≤ s.high) {v : Nat}
    (hv : v / 64 ^ s.owed = s.value * 64 + (byte.toNat - 0x80)) :
    s.Allows v ∧ v / 64 ^ s.owed % 64 + 0x80 = byte.toNat := by
  have hlow := h.le_low
  have hhigh := h.high_le
  have hdigit : v / 64 ^ s.owed % 64 + 0x80 = byte.toNat := by omega
  refine ⟨⟨?_, by omega, by omega⟩, hdigit⟩
  rw [div_pow_succ]
  omega

/-- What allows a value goes on with its next digit. -/
theorem allows_push (h : s.Sound) (hbyte : s.low ≤ byte.toNat ∧ byte.toNat ≤ s.high)
    (howed : s.owed ≠ 0) {v : Nat} :
    (s.push byte).Allows v ↔ s.Allows v ∧ v / 64 ^ s.owed % 64 + 0x80 = byte.toNat := by
  have howed' : s.owed - 1 + 1 = s.owed := Nat.succ_pred howed
  have hdigit : v / 64 ^ (s.owed - 1) % 64 < 64 := Nat.mod_lt _ (by decide)
  constructor
  · rintro ⟨hvalue, -, -⟩
    rw [push_owed, howed', push_value] at hvalue
    exact h.allows hbyte hvalue
  · rintro ⟨hv, hbyte'⟩
    have hvalue := hv.value
    rw [div_pow_succ] at hvalue
    constructor
    · rw [push_owed, howed', push_value]
      omega
    · rw [push_owed, push_low]
      omega
    · rw [push_owed, push_high]
      omega

/-- A byte within the bounds keeps a sequence sound. -/
theorem push (h : s.Sound) (hbyte : s.low ≤ byte.toNat ∧ byte.toNat ≤ s.high)
    (howed : s.owed ≠ 0) : (s.push byte).Sound where
  decode := by
    rw [push_bytes, decode_append, h.decode, decode_singleton, accept_of_owed hbyte howed]
    rfl
  ne_nil := by simp
  length_le := by
    have hlength := h.length_le
    rw [push_bytes, push_owed, List.length_append, List.length_singleton]
    omega
  le_low := Nat.le_of_eq (s.push_low byte).symm
  low_le := by simp
  high_le := Nat.le_of_eq (s.push_high byte)
  isValidChar v hv := h.isValidChar v ((h.allows_push hbyte howed).1 hv).1
  encode c hc := by
    obtain ⟨hs, hdigit⟩ := (h.allows_push hbyte howed).1 hc
    rw [h.encode c hs, push_bytes, push_owed, Nat.sub_one_add_one howed, continuation,
      ofNat_eq hdigit, List.append_assoc, List.singleton_append]

/-- The last byte completes a character. -/
theorem complete (h : s.Sound) (hbyte : s.low ≤ byte.toNat ∧ byte.toNat ≤ s.high)
    (howed : s.owed = 0) :
    utf8EncodeChar (Char.ofNat (s.value * 64 + (byte.toNat - 0x80))) = s.bytes ++ [byte] := by
  have hvalue : (s.value * 64 + (byte.toNat - 0x80)) / 64 ^ s.owed =
      s.value * 64 + (byte.toNat - 0x80) := by rw [howed, Nat.pow_zero, Nat.div_one]
  obtain ⟨hallows, hdigit⟩ := h.allows hbyte hvalue
  have hchar := toNat_ofNat (h.isValidChar _ hallows)
  rw [h.encode _ (by rwa [hchar]), hchar, continuation, ofNat_eq hdigit, howed]
  rfl

/-- A sequence allows some character. -/
theorem exists_allows (h : s.Sound) : ∃ c : Char, s.Allows c.toNat := by
  have hpow : 0 < 64 ^ s.owed := Nat.pow_pos (by decide)
  have hlow := h.low_le
  have hhigh := h.high_le
  have hbyte : (UInt8.ofNat s.low).toNat = s.low :=
    UInt8.toNat_ofNat_of_lt' (Nat.lt_of_le_of_lt (Nat.le_trans hlow hhigh) (by decide))
  have hdiv : (s.value * 64 + (s.low - 0x80)) * 64 ^ s.owed / 64 ^ s.owed =
      s.value * 64 + ((UInt8.ofNat s.low).toNat - 0x80) := by rw [Nat.mul_div_cancel _ hpow, hbyte]
  have hallows := (h.allows (by rw [hbyte]; exact ⟨Nat.le_refl _, hlow⟩) hdiv).1
  exact ⟨Char.ofNat _, by rwa [toNat_ofNat (h.isValidChar _ hallows)]⟩

/-- The bytes of a sequence begin a character, and are not all of it. -/
theorem exists_char (h : s.Sound) :
    ∃ c, s.bytes <+: utf8EncodeChar c ∧ s.bytes ≠ utf8EncodeChar c := by
  obtain ⟨c, hc⟩ := h.exists_allows
  refine ⟨c, ?_, ?_⟩ <;> rw [h.encode c hc]
  · exact List.prefix_append ..
  · simp [continuation]

end Opened.Sound

/-! ### The beginning of a character -/

/-- Where the beginning of a character leaves the decoder: inside it, or behind it. -/
inductive Progress (bytes : List UInt8) (c : Char) : Decoder × List Char → Prop where
  | inside (s : Opened) (hs : s.Sound) (hbytes : s.bytes = bytes) (hc : s.Allows c.toNat) :
    Progress bytes c (some s, [])
  | behind (hbytes : bytes = utf8EncodeChar c) : Progress bytes c (none, [c])

/-- The other bytes of a character are taken as such. -/
theorem Opened.Sound.decode_continuation (hs : s.Sound) (hc : s.Allows c.toNat) {more : List UInt8}
    (hmore : more <+: continuation (s.owed + 1) c.toNat) :
    Progress (s.bytes ++ more) c (Utf8.decode (some s) more) := by
  induction more generalizing s with
  | nil => exact .inside s hs (List.append_nil _).symm hc
  | cons byte more ih =>
    rw [continuation, List.cons_prefix_cons] at hmore
    obtain ⟨hbyte, hmore⟩ := hmore
    have hvalue : c.toNat / 64 ^ s.owed % 64 + 0x80 = byte.toNat := by
      rw [hbyte, UInt8.toNat_ofNat_of_lt']
      have := Nat.mod_lt (c.toNat / 64 ^ s.owed) (show 0 < 64 by decide)
      exact Nat.lt_of_lt_of_le (Nat.add_lt_add_right this _) (by decide)
    have hbounds : s.low ≤ byte.toNat ∧ byte.toNat ≤ s.high := by
      rw [← hvalue]
      exact ⟨hc.low_le, hc.le_high⟩
    by_cases howed : s.owed = 0
    · have hc' : s.value * 64 + (byte.toNat - 0x80) = c.toNat := by
        have hlead := hc.value
        rw [div_pow_succ] at hlead
        rw [howed, Nat.pow_zero, Nat.div_one] at hvalue hlead
        omega
      have hnil : more = [] := by
        rw [howed] at hmore
        exact List.prefix_nil.1 hmore
      rw [hnil, decode_singleton, accept_of_not_owed hbounds howed, hc', Char.ofNat_toNat]
      refine .behind ?_
      rw [← hs.complete hbounds howed, hc', Char.ofNat_toNat]
    · have hpush := (hs.allows_push hbounds howed).2 ⟨hc, hvalue⟩
      have hrest := ih (hs.push hbounds howed) hpush
        (by rwa [Opened.push_owed, Nat.sub_one_add_one howed])
      rw [Opened.push_bytes, List.append_assoc, List.singleton_append] at hrest
      rw [Utf8.decode, accept_of_owed hbounds howed]
      exact hrest

/-- **The beginning of a character's encoding.** The decoder waits inside it, or has come to its
end. -/
theorem decode_prefix {bytes : List UInt8} (h : bytes <+: utf8EncodeChar c) (hne : bytes ≠ []) :
    Progress bytes c (Utf8.decode none bytes) := by
  obtain ⟨byte, more, rfl⟩ := List.exists_cons_of_ne_nil hne
  obtain hmany | hone := Nat.lt_or_ge 0x7F c.toNat
  · obtain ⟨lead, s, hlead, hs, hbytes, hallows⟩ := exists_opened hmany
    rw [hs.encode c hallows, hbytes, List.singleton_append, List.cons_prefix_cons] at h
    obtain ⟨rfl, hmore⟩ := h
    have hrest := hs.decode_continuation hallows hmore
    rw [hbytes] at hrest
    rw [Utf8.decode, accept, hlead]
    exact hrest
  · have hlead : (UInt8.ofNat c.toNat).toNat = c.toNat :=
      UInt8.toNat_ofNat_of_lt' (Nat.lt_of_le_of_lt hone (by decide))
    have hencode : utf8EncodeChar c = [UInt8.ofNat c.toNat] := by rw [encode_eq, if_pos hone]
    rw [hencode, List.cons_prefix_cons, List.prefix_nil] at h
    obtain ⟨rfl, rfl⟩ := h
    rw [decode_singleton, accept, first, hlead, if_pos hone, Char.ofNat_toNat]
    exact .behind hencode.symm

/-- What a byte comes to inside a sequence. -/
inductive AcceptCases (s : Opened) (byte : UInt8) : Prop where
  /-- It is the last one of a character. -/
  | completes (c : Char) (h : accept (some s) byte = (none, [c]))
    (hc : utf8EncodeChar c = s.bytes ++ [byte])
  /-- It is the next one of a character. -/
  | goesOn (t : Opened) (h : accept (some s) byte = (some t, [])) (ht : t.Sound)
    (hbytes : t.bytes = s.bytes ++ [byte])
  /-- No character goes on so. It is read again as the first of a sequence. -/
  | breaks (h : accept (some s) byte = ((first byte).1, replacement :: (first byte).2))
    (hbegins : ¬ Begins (s.bytes ++ [byte]))

/-- No byte is passed over. -/
theorem first_ne (byte : UInt8) : first byte ≠ (none, []) := by
  obtain ⟨c, h, -⟩ | ⟨s, h, -⟩ | ⟨h, -⟩ := first_cases byte <;> rw [h] <;> exact nofun

theorem accept_cases (hs : s.Sound) (byte : UInt8) : AcceptCases s byte := by
  by_cases hbyte : s.low ≤ byte.toNat ∧ byte.toNat ≤ s.high
  · by_cases howed : s.owed = 0
    · exact .completes _ (accept_of_not_owed hbyte howed) (hs.complete hbyte howed)
    · exact .goesOn _ (accept_of_owed hbyte howed) (hs.push hbyte howed) (s.push_bytes byte)
  · refine .breaks (accept_of_not hbyte) fun ⟨c, hc⟩ => ?_
    -- the beginning of a character would not leave an ill-formed part behind
    have hdecode := decode_prefix hc (by simp)
    rw [decode_append, hs.decode, decode_singleton, accept_of_not hbyte] at hdecode
    generalize hfirst : first byte = result at hdecode
    obtain ⟨decoder, text⟩ := result
    cases hdecode
    exact first_ne byte hfirst

end LineEditor.Utf8
