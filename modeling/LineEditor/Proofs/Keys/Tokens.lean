import LineEditor.Proofs.Keys.Extension
import LineEditor.Proofs.Keys.LongestMatch

/-!
# Decoding and how the input is split

Typed input arrives in portions, and after any of them the decoder may be asked for all events that
it can give. `Decoder.feed_eq_drain` says that this makes no difference: an event that is given
stands, whatever is typed later (`Decoder.next?_append`), so draining early only gives early what
draining at the end gives (`Decoder.drain_append`).

What is given is a reading of the text from left to right by the list of bindings alone,
`Keymap.Reads`: the longest bound sequence is taken, or one character if none is bound, until the
text is empty or could still become a longer bound sequence.
-/

namespace LineEditor

namespace Keymap

/-- What is taken next from the front of a text, and what is left: the longest bound sequence, or one
character. -/
inductive Takes (m : Keymap) (text : List Char) : KeyEvent → List Char → Prop where
  /-- The longest bound sequence. -/
  | bound {s rest event} (hs : m.Longest text s) (hevent : m.lookup s = some event)
      (htext : text = s ++ rest) : Takes m text event rest
  /-- A character, since no sequence is bound. -/
  | literal {c rest} (hnone : m.Unmatched text) (htext : text = c :: rest) :
      Takes m text (.key [c]) rest

/-- Reading a text from left to right: the events, and what is left waiting. -/
inductive Reads (m : Keymap) : List Char → List KeyEvent → List Char → Prop where
  /-- Nothing is left, or what is left could become a longer bound sequence. -/
  | stop {text} (h : text = [] ∨ m.Awaits text) : Reads m text [] text
  /-- Something is taken. -/
  | next {text event rest events last} (hnot : ¬ m.Awaits text) (htakes : m.Takes text event rest)
      (h : Reads m rest events last) : Reads m text (event :: events) last

variable {m : Keymap} {text rest rest' last last' : List Char} {event event' : KeyEvent}
  {events events' : List KeyEvent}

/-- What is taken are characters at the front. -/
theorem Takes.exists_append (h : m.Takes text event rest) :
    ∃ taken, taken ≠ [] ∧ text = taken ++ rest := by
  cases h with
  | bound hs _ htext => exact ⟨_, hs.ne_nil, htext⟩
  | literal _ htext => exact ⟨[_], List.cons_ne_nil _ _, htext⟩

theorem Takes.ne_nil (h : m.Takes text event rest) : text ≠ [] := by
  obtain ⟨taken, hne, rfl⟩ := h.exists_append
  exact List.append_ne_nil_of_left_ne_nil hne _

/-- One thing only can be taken next. -/
theorem Takes.unique (h : m.Takes text event rest) (h' : m.Takes text event' rest') :
    event = event' ∧ rest = rest' := by
  cases h with
  | bound hs hevent htext =>
    cases h' with
    | bound hs' hevent' htext' =>
      obtain rfl := hs.unique hs'
      exact ⟨Option.some.inj (hevent.symm.trans hevent'),
        List.append_cancel_left (htext.symm.trans htext')⟩
    | literal hnone => exact absurd hnone hs.not_unmatched
  | literal hnone htext =>
    cases h' with
    | bound hs' => exact absurd hnone hs'.not_unmatched
    | literal _ htext' =>
      obtain ⟨rfl, rfl⟩ := List.cons.inj (htext.symm.trans htext')
      exact ⟨rfl, rfl⟩

/-- What is left of a text that was read waits for more. -/
theorem Reads.waits (h : m.Reads text events last) : last = [] ∨ m.Awaits last := by
  induction h with
  | stop h => exact h
  | next _ _ _ ih => exact ih

/-- A text can be read in one way only. -/
theorem Reads.unique (h : m.Reads text events last) (h' : m.Reads text events' last') :
    events = events' ∧ last = last' := by
  induction h generalizing events' last' with
  | stop h =>
    cases h' with
    | stop => exact ⟨rfl, rfl⟩
    | next hnot htakes => exact absurd h (not_or.2 ⟨htakes.ne_nil, hnot⟩)
  | next hnot htakes _ ih =>
    cases h' with
    | stop h => exact absurd h (not_or.2 ⟨htakes.ne_nil, hnot⟩)
    | next _ htakes' h' =>
      obtain ⟨rfl, rfl⟩ := htakes.unique htakes'
      obtain ⟨rfl, rfl⟩ := ih h'
      exact ⟨rfl, rfl⟩

end Keymap

namespace Keys

namespace Decoder

variable {m : Keymap} {d d' : Decoder} {event : KeyEvent}

/-- A decoder waits, or its next event is what is taken next by its keymap. -/
theorem next?_ofKeymap (hd : d.trie = .ofKeymap m) :
    d.next? = none ∧ (d.pending = [] ∨ m.Awaits d.pending) ∨
      ∃ event rest, d.next? = some (event, { d with pending := rest }) ∧ ¬ m.Awaits d.pending ∧
        m.Takes d.pending event rest := by
  have hsays : m.Says d.pending (d.trie.resolve d.pending) := hd ▸ Trie.says_resolve m d.pending
  unfold next?
  generalize d.trie.resolve d.pending = v at hsays
  cases hsays with
  | @bound s event ambiguous hs hevent hambiguous =>
    cases ambiguous with
    | true => exact .inl ⟨rfl, .inr (hambiguous.1 rfl)⟩
    | false =>
      have hnot : ¬ m.Awaits d.pending := fun h => Bool.false_ne_true (hambiguous.2 h)
      obtain ⟨rest, hrest⟩ := hs.begins
      refine .inr ⟨event, d.pending.drop s.length, rfl, hnot, .bound hs hevent ?_⟩
      rw [← hrest, List.drop_left]
  | wait _ h => exact .inl ⟨rfl, h⟩
  | @literal c rest hnone hpending hnot =>
    refine .inr ⟨.key [c], d.pending.drop 1, rfl, hnot, .literal hnone ?_⟩
    rw [hpending, List.drop_one, List.tail_cons]

theorem drain_of_next?_eq_none (h : d.next? = none) : d.drain = ([], d) := by
  rw [drain]
  split
  · rfl
  · rename_i hnext
    rw [h] at hnext
    cases hnext

theorem drain_of_next?_eq_some (h : d.next? = some (event, d')) :
    d.drain = (event :: d'.drain.1, d'.drain.2) := by
  rw [drain]
  split
  · rename_i hnext
    rw [h] at hnext
    cases hnext
  · rename_i hnext
    rw [h] at hnext
    cases hnext
    rfl

/-- Draining gives the reading of what waits. -/
theorem reads_drain (hd : d.trie = .ofKeymap m) :
    m.Reads d.pending d.drain.1 d.drain.2.pending ∧ d.drain.2.trie = d.trie := by
  induction h : d.pending.length using Nat.strong_induction_on generalizing d with
  | _ n ih =>
    obtain ⟨hnext, hwaits⟩ | ⟨event, rest, hnext, hnot, htakes⟩ := next?_ofKeymap hd
    · rw [drain_of_next?_eq_none hnext]
      exact ⟨.stop hwaits, rfl⟩
    · rw [drain_of_next?_eq_some hnext]
      have hlt := length_lt_of_next hnext
      obtain ⟨hreads, htrie⟩ := ih _ (h ▸ hlt) (d := { d with pending := rest }) hd rfl
      exact ⟨.next hnot htakes hreads, htrie⟩

/-- What is given early is given all the same, and what is typed later waits behind what is left. -/
theorem drain_append (d : Decoder) (text : List Char) :
    (d.append text).drain =
      (d.drain.1 ++ (d.drain.2.append text).drain.1, (d.drain.2.append text).drain.2) := by
  induction h : d.pending.length using Nat.strong_induction_on generalizing d with
  | _ n ih =>
    cases hnext : d.next? with
    | none => rw [drain_of_next?_eq_none hnext, List.nil_append]
    | some next =>
      obtain ⟨event, d'⟩ := next
      have hlt := length_lt_of_next hnext
      rw [drain_of_next?_eq_some hnext, drain_of_next?_eq_some (next?_append hnext text),
        ih _ (h ▸ hlt) d' rfl, List.cons_append]

/-! ### Portions -/

end Decoder

/-- Some typed text, after which a decoder may be drained. -/
structure Portion where
  /-- The text. -/
  text : List Char
  /-- Whether the decoder is drained. -/
  drained : Bool
  deriving DecidableEq, Repr

namespace Decoder

/-- Takes a portion: the events that are given, and the decoder afterwards. -/
def take (d : Decoder) (p : Portion) : List KeyEvent × Decoder :=
  if p.drained then (d.append p.text).drain else ([], d.append p.text)

/-- Takes portions, one after the other, and is drained at the end. -/
def feed (d : Decoder) : List Portion → List KeyEvent × Decoder
  | [] => d.drain
  | p :: rest => ((d.take p).1 ++ ((d.take p).2.feed rest).1, ((d.take p).2.feed rest).2)

/-- All that matters is the text. -/
theorem feed_eq_drain (d : Decoder) (portions : List Portion) :
    d.feed portions = (d.append (portions.flatMap Portion.text)).drain := by
  induction portions generalizing d with
  | nil =>
    rw [feed, List.flatMap_nil, append_nil]
  | cons p rest ih =>
    rw [List.flatMap_cons, ← append_append, feed, ih, take]
    split
    · exact (drain_append ..).symm
    · rfl

/-- How a decoder behaves at any one point. -/
structure Orderly (m : Keymap) (d : Decoder) : Prop where
  /-- There is a next event exactly when the decoder says so. -/
  hasNext_iff : d.hasNext = true ↔ ∃ event d', d.next? = some (event, d')
  /-- Without a next event nothing is taken. -/
  rests : d.next? = none → d.drain = ([], d)
  /-- An event takes one or more characters from the front, and changes nothing else. -/
  takes : ∀ event d', d.next? = some (event, d') →
    d'.trie = d.trie ∧ ∃ taken, taken ≠ [] ∧ d.pending = taken ++ d'.pending
  /-- Once drained, nothing is left, or what could become a longer bound sequence. -/
  drained : d.drain.2.pending = [] ∨ m.Awaits d.drain.2.pending

theorem orderly (hd : d.trie = .ofKeymap m) : Orderly m d where
  hasNext_iff := by
    rw [← isSome_next, Option.isSome_iff_exists, Prod.exists]
  rests := drain_of_next?_eq_none
  takes event d' hnext := by
    obtain ⟨hnone, -⟩ | ⟨event', rest, hnext', -, htakes⟩ := next?_ofKeymap hd
    · rw [hnone] at hnext
      cases hnext
    · rw [hnext'] at hnext
      cases hnext
      exact ⟨rfl, htakes.exists_append⟩
  drained := (reads_drain hd).1.waits

/-- **How the input is split makes no difference.** -/
theorem decoding_ignores_splitting (m : Keymap) (portions : List Portion) :
    (ofKeymap m).feed portions = ((ofKeymap m).append (portions.flatMap Portion.text)).drain ∧
      (∀ events last, (ofKeymap m).feed portions = (events, { ofKeymap m with pending := last }) ↔
        m.Reads (portions.flatMap Portion.text) events last) ∧
      ∀ pending, Orderly m { ofKeymap m with pending } := by
  refine ⟨feed_eq_drain _ _, fun events last => ?_, fun pending => orderly rfl⟩
  rw [feed_eq_drain]
  generalize hd : (ofKeymap m).append (portions.flatMap Portion.text) = d
  have htrie : d.trie = .ofKeymap m := by rw [← hd, append, ofKeymap]
  have hpending : d.pending = portions.flatMap Portion.text := by
    rw [← hd, append, ofKeymap, List.nil_append]
  obtain ⟨hreads, hlast⟩ := reads_drain htrie
  rw [hpending] at hreads
  constructor
  · intro h
    rwa [h] at hreads
  · intro h
    obtain ⟨hevents, hpending⟩ := hreads.unique h
    have hdecoder : d.drain.2 = { ofKeymap m with pending := last } := by
      rw [ofKeymap, ← htrie, ← hlast, ← hpending]
    exact Prod.ext hevents hdecoder

end Decoder

end Keys

end LineEditor
