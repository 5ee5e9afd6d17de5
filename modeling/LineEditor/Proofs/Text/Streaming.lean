import LineEditor.Proofs.Text.Encoding
import Mathlib.Data.Nat.Find

/-!
# Streaming is lossy decoding

`Lossy` is the reference: a well-formed sequence stands for its character, and an ill-formed part
for one replacement. It leaves no choice (`Lossy.unique`), since an ill-formed part is as long as it
can be and no encoding begins another.

Two programs follow it. The decoder that takes one byte at a time keeps a sound state and has put
out the text of all bytes but those that wait (`Decoder.Sound.decodes`). Whatever check a buffer is
emptied with, what is taken and what is left is the same (`Check.drain_eq`). Nothing in the decoder
depends on where a chunk ends, so that nothing in the buffer does (`Check.streamsLossily`).
-/

namespace LineEditor.Utf8

open String (utf8EncodeChar)

variable {c : Char} {s : Opened} {byte : UInt8} {bytes part rest : List UInt8} {text : List Char}

/-! ### Encodings -/

theorem encodeChar_ne_nil (c : Char) : utf8EncodeChar c ≠ [] :=
  List.ne_nil_of_length_pos (by rw [String.length_utf8EncodeChar]; exact c.utf8Size_pos)

theorem decode_encodeChar (c : Char) : decode none (utf8EncodeChar c) = (none, [c]) := by
  have h := decode_prefix (List.prefix_refl (utf8EncodeChar c)) (encodeChar_ne_nil c)
  generalize decode none (utf8EncodeChar c) = result at h
  cases h with
  | behind => rfl
  | inside s hs hbytes hc =>
    have hencode := hs.encode c hc
    rw [hbytes, List.self_eq_append_right] at hencode
    cases hencode

/-- An encoding is decoded to the text it is of, and nothing is left. -/
theorem decode_encode (text : List Char) : decode none (encode text) = (none, text) := by
  induction text with
  | nil => rfl
  | cons c text ih =>
    rw [encode, List.flatMap_cons, decode_append, decode_encodeChar, ← encode, ih]
    rfl

/-- The decoder waits inside what begins a character and does not hold one. -/
theorem decode_of_begins (hne : bytes ≠ []) (h : Begins bytes)
    (hno : ∀ c, ¬ utf8EncodeChar c <+: bytes) :
    ∃ s : Opened, s.Sound ∧ s.bytes = bytes ∧ decode none bytes = (some s, []) := by
  obtain ⟨c, hc⟩ := h
  have hdecode := decode_prefix hc hne
  generalize decode none bytes = result at hdecode ⊢
  cases hdecode with
  | behind hchar => exact absurd (hchar ▸ List.prefix_refl _) (hno c)
  | inside s hs hbytes _ => exact ⟨s, hs, hbytes, rfl⟩

/-- No character's encoding is the beginning of another's. -/
theorem eq_of_prefix_encodeChar {d : Char} (h : utf8EncodeChar c <+: utf8EncodeChar d) : c = d := by
  have hdecode := decode_prefix h (encodeChar_ne_nil c)
  rw [decode_encodeChar] at hdecode
  cases hdecode
  rfl

theorem Begins.of_prefix {more : List UInt8} (h : Begins more) (hpart : part <+: more) :
    Begins part :=
  h.imp fun _ hc => hpart.trans hc

theorem Opened.Sound.begins (hs : s.Sound) : Begins s.bytes :=
  hs.exists_char.imp fun _ hc => hc.1

/-! ### Ill-formed parts -/

/-- It is enough that no character ends within a part, or goes on with what is behind it. -/
theorem IllFormed.of (hne : part ≠ []) (hbegins : part.length = 1 ∨ Begins part)
    (hwithin : ∀ c, ¬ utf8EncodeChar c <+: part)
    (hlongest : ∀ more, more <+: part ++ rest → part.length < more.length → ¬ Begins more) :
    IllFormed part rest where
  ne_nil := hne
  no_char c hc := by
    obtain hlt | hle := Nat.lt_or_ge part.length (utf8EncodeChar c).length
    · exact hlongest _ hc hlt ⟨c, List.prefix_refl _⟩
    · exact hwithin c (List.prefix_of_prefix_length_le hc (List.prefix_append ..) hle)
  begins := hbegins
  longest := hlongest

theorem illFormed_singleton (h : ¬ Begins [byte]) (rest : List UInt8) : IllFormed [byte] rest := by
  refine .of nofun (.inl rfl) (fun c hc => ?_) fun more hmore hlt hbegins =>
    h (hbegins.of_prefix ?_)
  · obtain ⟨first, more, hcons⟩ := List.exists_cons_of_ne_nil (encodeChar_ne_nil c)
    rw [hcons, List.cons_prefix_cons, List.prefix_nil] at hc
    refine h ⟨c, ?_⟩
    rw [hcons, hc.1]
    exact List.prefix_append [byte] more
  · exact List.prefix_of_prefix_length_le (List.prefix_append ..) hmore (Nat.le_of_lt hlt)

/-- A sequence that the next byte does not go on with is one ill-formed part. -/
theorem Opened.Sound.illFormed (hs : s.Sound)
    (hrest : ∀ byte more, rest = byte :: more → ¬ Begins (s.bytes ++ [byte])) :
    IllFormed s.bytes rest := by
  refine .of hs.ne_nil (.inr hs.begins) (fun c hc => ?_) fun more hmore hlt hbegins => ?_
  · obtain ⟨d, hd, hne⟩ := hs.exists_char
    obtain rfl := eq_of_prefix_encodeChar (hc.trans hd)
    exact hne (hd.eq_of_length_le hc.length_le)
  · cases rest with
    | nil =>
      rw [List.append_nil] at hmore
      exact absurd hmore.length_le (Nat.not_le.2 hlt)
    | cons byte rest =>
      refine hrest byte rest rfl (hbegins.of_prefix (List.prefix_of_prefix_length_le ?_ hmore ?_))
      · exact ⟨rest, by simp⟩
      · rw [List.length_append]
        exact hlt

/-- Ill-formed parts at one place are the same. -/
theorem IllFormed.length_le {part' rest' : List UInt8} (h : IllFormed part rest)
    (h' : IllFormed part' rest') (heq : part ++ rest = part' ++ rest') :
    part'.length ≤ part.length := by
  refine Nat.le_of_not_lt fun hlt => ?_
  obtain hone | hbegins := h'.begins
  · have hpos := List.length_pos_iff.2 h.ne_nil
    omega
  · exact h.longest part' (heq ▸ List.prefix_append ..) hlt hbegins

theorem IllFormed.unique {part' rest' : List UInt8} (h : IllFormed part rest)
    (h' : IllFormed part' rest') (heq : part ++ rest = part' ++ rest') :
    part = part' ∧ rest = rest' :=
  List.append_inj heq (Nat.le_antisymm (h'.length_le h heq.symm) (h.length_le h' heq))

/-! ### The reference -/

/-- Bytes and the text that is shown for them: a character for each well-formed sequence, and a
replacement for each ill-formed part. -/
inductive Lossy : List UInt8 → List Char → Prop where
  | nil : Lossy [] []
  | char (c : Char) {rest : List UInt8} {text : List Char} (h : Lossy rest text) :
    Lossy (utf8EncodeChar c ++ rest) (c :: text)
  | illFormed {part rest : List UInt8} {text : List Char} (hpart : IllFormed part rest)
    (h : Lossy rest text) : Lossy (part ++ rest) (replacement :: text)

/-- **The reference leaves no choice.** -/
theorem Lossy.unique (h : Lossy bytes text) {text' : List Char} (h' : Lossy bytes text') :
    text = text' := by
  induction h generalizing text' with
  | nil =>
    generalize hbytes : [] = bytes at h'
    cases h' with
    | nil => rfl
    | char c _ => exact absurd (List.append_eq_nil_iff.1 hbytes.symm).1 (encodeChar_ne_nil c)
    | illFormed hpart _ => exact absurd (List.append_eq_nil_iff.1 hbytes.symm).1 hpart.ne_nil
  | @char c rest text h ih =>
    generalize hbytes : utf8EncodeChar c ++ rest = bytes at h'
    cases h' with
    | nil => exact absurd (List.append_eq_nil_iff.1 hbytes).1 (encodeChar_ne_nil c)
    | char d h' =>
      have hcd : c = d := by
        obtain hcd | hdc := List.prefix_or_prefix_of_prefix (List.prefix_append ..)
          (hbytes ▸ List.prefix_append (utf8EncodeChar d) _)
        · exact eq_of_prefix_encodeChar hcd
        · exact (eq_of_prefix_encodeChar hdc).symm
      subst hcd
      rw [ih ((List.append_cancel_left hbytes) ▸ h')]
    | illFormed hpart h' => exact absurd (hbytes ▸ List.prefix_append ..) (hpart.no_char c)
  | @illFormed part rest text hpart h ih =>
    generalize hbytes : part ++ rest = bytes at h'
    cases h' with
    | nil => exact absurd (List.append_eq_nil_iff.1 hbytes).1 hpart.ne_nil
    | char c _ => exact absurd (hbytes ▸ List.prefix_append ..) (hpart.no_char c)
    | illFormed hpart' h' => rw [ih ((hpart.unique hpart' hbytes).2 ▸ h')]

theorem Lossy.eq_nil (h : Lossy bytes []) : bytes = [] := by
  cases h
  rfl

/-! ### The decoder -/

/-- A decoder between sequences, or in one that is sound. -/
def Decoder.Sound (decoder : Decoder) : Prop := ∀ s ∈ decoder, s.Sound

theorem Decoder.sound_none : Decoder.Sound none := nofun

theorem Opened.Sound.some (hs : s.Sound) : Decoder.Sound (some s) := fun _ h =>
  Option.some_inj.1 h ▸ hs

/-- A decoder is in the state in which the bytes that wait leave it. -/
theorem Decoder.Sound.decode_tail {decoder : Decoder} (h : decoder.Sound) :
    decode none (tail decoder) = (decoder, []) := by
  cases decoder with
  | none => rfl
  | some s => exact (h s rfl).decode

/-- The bytes that wait are few, and a character's encoding goes on behind them. -/
theorem Decoder.Sound.tail_cases {decoder : Decoder} (h : decoder.Sound) :
    (tail decoder).length ≤ 3 ∧ (tail decoder = [] ∨
      ∃ c, tail decoder <+: utf8EncodeChar c ∧ tail decoder ≠ utf8EncodeChar c) := by
  cases decoder with
  | none => exact ⟨Nat.zero_le _, .inl rfl⟩
  | some s =>
    have hs := h s rfl
    exact ⟨Nat.le_of_add_right_le hs.length_le, .inr hs.exists_char⟩

/-- A sequence that breaks off is one replacement, and its last byte is read again. -/
theorem decode_break
    (h : accept (some s) byte = ((first byte).1, replacement :: (first byte).2)) :
    decode (some s) (byte :: rest) =
      ((decode none (byte :: rest)).1, replacement :: (decode none (byte :: rest)).2) := by
  rw [decode, decode, h]
  rfl

/-- What a decoder makes of some bytes: it is sound behind them, and what it has put out is the
text of all but the bytes that wait. -/
structure Decodes (decoder : Decoder) (bytes : List UInt8) : Prop where
  sound : Decoder.Sound (decode decoder bytes).1
  lossy : ∃ body, tail decoder ++ bytes = body ++ tail (decode decoder bytes).1 ∧
    Lossy body (decode decoder bytes).2

namespace Decodes

variable {decoder next : Decoder}

theorem nil (h : decoder.Sound) : Decodes decoder [] :=
  ⟨h, [], List.append_nil _, .nil⟩

/-- A byte that goes on with what waits. -/
theorem goesOn (haccept : accept decoder byte = (next, []))
    (htail : tail next = tail decoder ++ [byte]) (h : Decodes next rest) :
    Decodes decoder (byte :: rest) := by
  obtain ⟨hsound, body, hbody, hlossy⟩ := h
  constructor <;> simp only [decode, haccept, List.nil_append]
  · exact hsound
  · refine ⟨body, ?_, hlossy⟩
    rw [← hbody, htail, List.append_assoc, List.singleton_append]

/-- A byte that completes a character. -/
theorem completes (haccept : accept decoder byte = (none, [c]))
    (hc : utf8EncodeChar c = tail decoder ++ [byte]) (h : Decodes none rest) :
    Decodes decoder (byte :: rest) := by
  obtain ⟨hsound, body, hbody, hlossy⟩ := h
  constructor <;> simp only [decode, haccept]
  · exact hsound
  · refine ⟨utf8EncodeChar c ++ body, ?_, .char c hlossy⟩
    rw [List.append_assoc, ← hbody, hc, List.append_assoc]
    rfl

/-- Between sequences, a byte that begins no character. -/
theorem refuses (haccept : accept none byte = (none, [replacement]))
    (hbegins : ¬ Begins [byte]) (h : Decodes none rest) : Decodes none (byte :: rest) := by
  obtain ⟨hsound, body, hbody, hlossy⟩ := h
  constructor <;> simp only [decode, haccept]
  · exact hsound
  · refine ⟨[byte] ++ body, ?_, .illFormed (illFormed_singleton hbegins body) hlossy⟩
    rw [List.append_assoc, ← hbody]
    rfl

/-- Inside a sequence, a byte that no character has next. -/
theorem breaks (hs : s.Sound)
    (haccept : accept (some s) byte = ((first byte).1, replacement :: (first byte).2))
    (hbegins : ¬ Begins (s.bytes ++ [byte])) (h : Decodes none (byte :: rest)) :
    Decodes (some s) (byte :: rest) := by
  obtain ⟨hsound, body, hbody, hlossy⟩ := h
  constructor <;> rw [decode_break haccept]
  · exact hsound
  · refine ⟨s.bytes ++ body, ?_, .illFormed (hs.illFormed fun first more hmore => ?_) hlossy⟩
    · rw [List.append_assoc, ← hbody]
      rfl
    · -- the bytes behind the part begin with the one that was refused
      rw [hmore] at hbody
      obtain ⟨rfl, -⟩ := List.cons_eq_cons.1 hbody
      exact hbegins

end Decodes

/-- **What a decoder makes of any bytes.** By induction on the bytes: a byte inside a sequence that
does not go on with it is read again between sequences, so that case comes first. -/
theorem Decoder.Sound.decodes {decoder : Decoder} (h : decoder.Sound) (bytes : List UInt8) :
    Decodes decoder bytes := by
  induction bytes generalizing decoder with
  | nil => exact .nil h
  | cons byte rest ih =>
    have hnone : Decodes none (byte :: rest) := by
      obtain ⟨c, hfirst, hc⟩ | ⟨s, hfirst, hs, hbytes⟩ | ⟨hfirst, hbegins⟩ := first_cases byte
      · exact .completes hfirst hc (ih sound_none)
      · exact .goesOn hfirst hbytes (ih hs.some)
      · exact .refuses hfirst hbegins (ih sound_none)
    cases decoder with
    | none => exact hnone
    | some s =>
      have hs := h s rfl
      obtain ⟨c, haccept, hc⟩ | ⟨t, haccept, ht, hbytes⟩ | ⟨haccept, hbegins⟩ :=
        accept_cases hs byte
      · exact .completes haccept hc (ih sound_none)
      · exact .goesOn haccept hbytes (ih ht.some)
      · exact .breaks hs haccept hbegins hnone

/-- The decoder passes an ill-formed part as the reference does, unless a character may still come
of it. -/
theorem IllFormed.decode (h : IllFormed part rest) (hbegins : ¬ Begins (part ++ rest)) :
    decode none (part ++ rest) = ((decode none rest).1, replacement :: (decode none rest).2) := by
  by_cases hpart : Begins part
  · obtain ⟨s, hs, hbytes, hdecode⟩ := decode_of_begins h.ne_nil hpart fun c hc =>
      h.no_char c (hc.trans (List.prefix_append ..))
    cases rest with
    | nil => exact absurd ((List.append_nil part).symm ▸ hpart) hbegins
    | cons byte more =>
      have hnext : ¬ Begins (s.bytes ++ [byte]) := by
        rw [hbytes]
        exact h.longest _ ⟨more, by simp⟩ (by simp)
      rw [decode_append, hdecode]
      obtain ⟨d, -, hd⟩ | ⟨t, -, ht, htbytes⟩ | ⟨haccept, -⟩ := accept_cases hs byte
      · exact absurd ⟨d, hd ▸ List.prefix_refl _⟩ hnext
      · exact absurd (htbytes ▸ ht.begins) hnext
      · rw [decode_break haccept, List.nil_append]
  · obtain ⟨byte, rfl⟩ := List.length_eq_one_iff.1 (h.begins.resolve_right hpart)
    obtain ⟨d, -, hd⟩ | ⟨t, -, ht, htbytes⟩ | ⟨hfirst, -⟩ := first_cases byte
    · exact absurd ⟨d, hd ▸ List.prefix_refl _⟩ hpart
    · exact absurd (htbytes ▸ ht.begins) hpart
    · rw [List.singleton_append, Utf8.decode, accept, hfirst]
      rfl

/-! ### The buffer -/

/-- No character stands where the bytes are not valid any more. -/
theorem no_char_of_greatest {upTo : Nat} (hvalid : ∃ text, encode text = bytes.take upTo)
    (hgreatest : ∀ n ≤ bytes.length, (∃ text, encode text = bytes.take n) → n ≤ upTo) (c : Char) :
    ¬ utf8EncodeChar c <+: bytes.drop upTo := by
  rintro ⟨more, hmore⟩
  obtain ⟨text, htext⟩ := hvalid
  have hpos := List.length_pos_iff.2 (encodeChar_ne_nil c)
  have htake : bytes.take (upTo + (utf8EncodeChar c).length) = encode (text ++ [c]) := by
    rw [List.take_add, ← hmore, List.take_left', ← htext]
    · simp [encode]
    · rfl
  have hlength : upTo + (utf8EncodeChar c).length ≤ bytes.length := by
    have hdrop := congrArg List.length hmore
    rw [List.length_append, List.length_drop] at hdrop
    omega
  have hle := hgreatest _ hlength ⟨_, htake.symm⟩
  omega

theorem Invalid.no_char {upTo : Nat} {length? : Option Nat} (h : Invalid bytes upTo length?) :
    ∀ c, ¬ utf8EncodeChar c <+: bytes.drop upTo :=
  no_char_of_greatest h.valid h.greatest

namespace Check

variable (check : Check)

theorem text_encode (text : List Char) : check.text (encode text) = text := by
  rw [Check.text, (check.valid_iff _ text).2 rfl]

/-- The decoder passes the valid bytes. -/
theorem decode_eq_text {pending : List UInt8} {upTo : Nat} {length? : Option Nat}
    (h : Invalid pending upTo length?) :
    Utf8.decode none pending = ((Utf8.decode none (pending.drop upTo)).1,
      check.text (pending.take upTo) ++ (Utf8.decode none (pending.drop upTo)).2) := by
  obtain ⟨text, htext⟩ := h.valid
  conv_lhs => rw [← List.take_append_drop upTo pending, ← htext, decode_append, decode_encode]
  rw [← htext, text_encode]

/-- **The buffer is emptied as the decoder would.** What is left are the bytes that wait. -/
theorem drain_eq (pending : List UInt8) :
    check.drain pending =
      ((Utf8.decode none pending).2, tail (Utf8.decode none pending).1) := by
  induction hlength : pending.length using Nat.strong_induction_on generalizing pending with
  | _ n ih =>
    subst hlength
    rw [Check.drain]
    split
    next text h =>
      rw [← (check.valid_iff _ _).1 h, decode_encode]
      rfl
    next upTo h =>
      have hinvalid := check.invalid _ _ _ h
      have hne : pending.drop upTo ≠ [] := by
        rw [Ne, List.drop_eq_nil_iff]
        exact Nat.not_le.2 hinvalid.lt
      obtain ⟨s, -, hbytes, hdecode⟩ :=
        decode_of_begins hne (hinvalid.unfinished.1 rfl) hinvalid.no_char
      rw [check.decode_eq_text hinvalid, hdecode, List.append_nil, ← hbytes]
      rfl
    next upTo length h =>
      have hinvalid := check.invalid _ _ _ h
      obtain ⟨part, rest, hdrop, hlength, hpart⟩ := hinvalid.illFormed length rfl
      have hbegins : ¬ Begins (part ++ rest) := by
        rw [← hdrop, ← hinvalid.unfinished]
        exact Option.some_ne_none length
      have hrest : pending.drop (upTo + length) = rest := by
        rw [← List.drop_drop, hdrop, List.drop_left' hlength]
      rw [ih _ (length_drop_lt h) _ rfl, hrest, check.decode_eq_text hinvalid, hdrop,
        hpart.decode hbegins]

/-- **Emptying a buffer comes to an end.** Every round but the last takes a byte at least. -/
theorem rounds_le (pending : List UInt8) : check.rounds pending ≤ pending.length + 1 := by
  induction hlength : pending.length using Nat.strong_induction_on generalizing pending with
  | _ n ih =>
    subst hlength
    rw [Check.rounds]
    split
    next => omega
    next => omega
    next h =>
      have hlt := length_drop_lt h
      have hle := ih _ hlt _ rfl
      omega

/-- **Chunks are taken as the decoder takes all their bytes.** By induction on the chunks, from any
bytes that wait. -/
theorem stream_eq {decoder : Decoder} (h : decoder.Sound) (chunks : List (List UInt8)) :
    (check.stream (tail decoder) chunks).1.flatten = (Utf8.decode decoder chunks.flatten).2 ∧
      (check.stream (tail decoder) chunks).2 = tail (Utf8.decode decoder chunks.flatten).1 := by
  induction chunks generalizing decoder with
  | nil => exact ⟨rfl, rfl⟩
  | cons chunk chunks ih =>
    have hchunk : check.decode (tail decoder) chunk =
        ((Utf8.decode decoder chunk).2, tail (Utf8.decode decoder chunk).1) := by
      rw [Check.decode, drain_eq, decode_append, h.decode_tail]
      rfl
    obtain ⟨htexts, htail⟩ := ih (h.decodes chunk).sound
    simp only [Check.stream, hchunk, List.flatten_cons, decode_append]
    exact ⟨by rw [htexts], htail⟩

theorem stream_nil_eq (chunks : List (List UInt8)) :
    (check.stream [] chunks).1.flatten = (Utf8.decode none chunks.flatten).2 ∧
      (check.stream [] chunks).2 = tail (Utf8.decode none chunks.flatten).1 :=
  check.stream_eq Decoder.sound_none chunks

/-! ### A check -/

/-- How far some bytes are the encoding of a text. -/
def validUpTo (bytes : List UInt8) : Nat :=
  Nat.findGreatest (fun n => encode (Utf8.decode none (bytes.take n)).2 = bytes.take n) bytes.length

/-- How many of the bytes are decoded to nothing yet. -/
def silentUpTo (bytes : List UInt8) : Nat :=
  Nat.findGreatest (fun n => (Utf8.decode none (bytes.take n)).2 = []) bytes.length

/-- The length of the ill-formed part with which some bytes begin, if more of them cannot complete
a character. -/
def partLength? (bytes : List UInt8) : Option Nat :=
  if (Utf8.decode none bytes).2 = [] then none else some (max 1 (silentUpTo bytes))

/-- Some bytes are the encoding of a text if they are that of what is decoded. -/
theorem exists_encode_iff :
    (∃ text, encode text = bytes) ↔ encode (Utf8.decode none bytes).2 = bytes := by
  refine ⟨fun ⟨text, h⟩ => ?_, fun h => ⟨_, h⟩⟩
  rw [← h, decode_encode]

/-- Where no character stands, some bytes are decoded to nothing as long as they begin one. -/
theorem begins_iff (hne : bytes ≠ []) (hno : ∀ c, ¬ utf8EncodeChar c <+: bytes) :
    Begins bytes ↔ (Utf8.decode none bytes).2 = [] := by
  constructor
  · intro h
    obtain ⟨s, -, -, hdecode⟩ := decode_of_begins hne h hno
    rw [hdecode]
  · intro h
    obtain ⟨hsound, body, hbody, hlossy⟩ := Decoder.sound_none.decodes bytes
    rw [h] at hlossy
    obtain rfl := hlossy.eq_nil
    replace hbody : bytes = tail (Utf8.decode none bytes).1 := hbody
    cases hdecoder : (Utf8.decode none bytes).1 with
    | none => exact absurd (by rwa [hdecoder] at hbody) hne
    | some s =>
      rw [hdecoder] at hbody hsound
      exact hbody ▸ (hsound s rfl).begins

theorem validUpTo_spec (bytes : List UInt8) :
    (∃ text, encode text = bytes.take (validUpTo bytes)) ∧
      ∀ n ≤ bytes.length, (∃ text, encode text = bytes.take n) → n ≤ validUpTo bytes := by
  constructor
  · rw [exists_encode_iff]
    exact Nat.findGreatest_spec (P := fun n => encode (Utf8.decode none (bytes.take n)).2 =
      bytes.take n) (Nat.zero_le _) rfl
  · intro n hn h
    exact Nat.le_findGreatest hn (exists_encode_iff.1 h)

theorem validUpTo_lt (h : encode (Utf8.decode none bytes).2 ≠ bytes) :
    validUpTo bytes < bytes.length := by
  refine Nat.lt_of_le_of_ne (Nat.findGreatest_le _) fun heq => h ?_
  have hvalid := exists_encode_iff.1 (validUpTo_spec bytes).1
  rwa [heq, List.take_length] at hvalid

theorem partLength?_spec (hne : bytes ≠ []) (hno : ∀ c, ¬ utf8EncodeChar c <+: bytes) {length : Nat}
    (h : partLength? bytes = some length) :
    ∃ part rest, bytes = part ++ rest ∧ part.length = length ∧ IllFormed part rest := by
  have hpos := List.length_pos_iff.2 hne
  -- a beginning that puts nothing out is one that a character has, as no character stands here
  have hbegins : ∀ more, more ≠ [] → more <+: bytes →
      (Begins more ↔ (Utf8.decode none more).2 = []) := fun more hmore hprefix =>
    begins_iff hmore fun c hc => hno c (hc.trans hprefix)
  rw [partLength?, Option.ite_none_left_eq_some] at h
  obtain ⟨-, h⟩ := h
  generalize hlongest : silentUpTo bytes = longest at h
  obtain ⟨hle, hspec, hgreatest⟩ := Nat.findGreatest_eq_iff.1 hlongest
  obtain rfl := Option.some_inj.1 h
  have hlength : (bytes.take (max 1 longest)).length = max 1 longest := by
    rw [List.length_take]
    omega
  refine ⟨bytes.take (max 1 longest), bytes.drop (max 1 longest),
    (List.take_append_drop _ _).symm, hlength, ?_, ?_, ?_, ?_⟩
  · exact List.ne_nil_of_length_pos (by omega)
  · rwa [List.take_append_drop]
  · rw [hlength]
    obtain hmany | hone := Nat.lt_or_ge 1 longest
    · rw [Nat.max_eq_right (Nat.le_of_lt hmany)] at hlength ⊢
      refine .inr ((hbegins _ ?_ (List.take_prefix ..)).2 (hspec (by omega)))
      exact List.ne_nil_of_length_pos (by omega)
    · exact .inl (by omega)
  · rw [List.take_append_drop, hlength]
    intro more hmore hlt hbegin
    refine hgreatest (Nat.lt_of_le_of_lt (Nat.le_max_right 1 longest) hlt) hmore.length_le ?_
    rw [← List.prefix_iff_eq_take.1 hmore]
    exact (hbegins more (List.ne_nil_of_length_pos (by omega)) hmore).1 hbegin

/-- Checks bytes by decoding beginnings of them. -/
def standard : Check where
  report bytes :=
    if encode (Utf8.decode none bytes).2 = bytes then .valid (Utf8.decode none bytes).2
    else .invalid (validUpTo bytes) (partLength? (bytes.drop (validUpTo bytes)))
  valid_iff bytes text := by
    split
    next h =>
      refine ⟨fun htext => ?_, fun htext => ?_⟩
      · rwa [← Report.valid.inj htext]
      · rw [← htext, decode_encode]
    next h => exact ⟨nofun, fun htext => absurd (exists_encode_iff.1 ⟨text, htext⟩) h⟩
  invalid bytes upTo length? h := by
    split at h
    next => cases h
    next hbytes =>
      cases h
      obtain ⟨hvalid, hgreatest⟩ := validUpTo_spec bytes
      have hlt := validUpTo_lt hbytes
      have hno := no_char_of_greatest hvalid hgreatest
      have hne : bytes.drop (validUpTo bytes) ≠ [] := by
        rw [Ne, List.drop_eq_nil_iff]
        exact Nat.not_le.2 hlt
      refine ⟨hlt, hvalid, hgreatest, ?_, fun length => partLength?_spec hne hno⟩
      rw [begins_iff hne hno, partLength?]
      split <;> simp [*]

instance : Inhabited Check := ⟨standard⟩

/-! ### Streams -/

/-- What comes of chunks of bytes that are taken one after the other. -/
structure StreamsLossily (check : Check) (chunks : List (List UInt8)) : Prop where
  /-- It is what comes of all the bytes at once. -/
  whole : check.decode [] chunks.flatten =
    ((check.stream [] chunks).1.flatten, (check.stream [] chunks).2)
  /-- It is what a decoder puts out that takes one byte at a time, and the bytes that wait there. -/
  bytewise : (check.stream [] chunks).1.flatten = (Utf8.decode none chunks.flatten).2 ∧
    (check.stream [] chunks).2 = Utf8.tail (Utf8.decode none chunks.flatten).1
  /-- It is the text of the bytes without those that are left, and no other text is. -/
  lossy : ∃ body, chunks.flatten = body ++ (check.stream [] chunks).2 ∧
    ∀ text, Lossy body text ↔ text = (check.stream [] chunks).1.flatten
  /-- Behind every chunk few bytes are left, and a character's encoding goes on behind them. -/
  tail : ∀ earlier later, chunks = earlier ++ later →
    (check.stream [] earlier).2.length ≤ 3 ∧ ((check.stream [] earlier).2 = [] ∨
      ∃ c, (check.stream [] earlier).2 <+: utf8EncodeChar c ∧
        (check.stream [] earlier).2 ≠ utf8EncodeChar c)
  /-- The encoding of a text comes back as this text, and nothing is left. -/
  encoded : ∀ text, chunks.flatten = encode text →
    (check.stream [] chunks).1.flatten = text ∧ (check.stream [] chunks).2 = []
  /-- Whatever is in the buffer, it is emptied in as many rounds as it has bytes, and one more. -/
  ends : ∀ pending, check.rounds pending ≤ pending.length + 1

/-- **Streaming is lossy decoding.** However bytes are cut into chunks, and whatever they are. -/
theorem streamsLossily (check : Check) (chunks : List (List UInt8)) :
    check.StreamsLossily chunks := by
  obtain ⟨htexts, htail⟩ := check.stream_nil_eq chunks
  obtain ⟨hsound, body, hbody, hlossy⟩ := Decoder.sound_none.decodes chunks.flatten
  constructor
  case whole =>
    rw [htexts, htail, Check.decode, List.nil_append, drain_eq]
  case bytewise => exact ⟨htexts, htail⟩
  case lossy =>
    rw [htexts, htail]
    exact ⟨body, hbody, fun text => ⟨fun h => h.unique hlossy, fun h => h ▸ hlossy⟩⟩
  case tail =>
    intro earlier _ _
    rw [(check.stream_nil_eq earlier).2]
    exact (Decoder.sound_none.decodes earlier.flatten).sound.tail_cases
  case encoded =>
    intro text h
    rw [htexts, htail, h, decode_encode]
    exact ⟨rfl, rfl⟩
  case ends => exact check.rounds_le

/-- A character that is cut, and another one that is cut off. -/
private def cutChunks : List (List UInt8) := [[0xE2, 0x82], [], [0xAC, 0xE2], [0x28]]

/-- For bytes that are neither cut where characters end nor well-formed. -/
theorem streamsLossily_cut : standard.StreamsLossily cutChunks ∧
    standard.stream [] cutChunks = ([[], [], ['€'], ['\uFFFD', '(']], []) := by
  refine ⟨standard.streamsLossily cutChunks, ?_⟩
  simp only [cutChunks, stream, Check.decode, drain_eq]
  decide

end Check

end LineEditor.Utf8
