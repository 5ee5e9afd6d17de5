import LineEditor.Keys.Trie

/-!
# Decoding typed input

A decoder holds the characters that were typed and not yet understood. It gives the next event as
soon as no further input could change it, and otherwise waits. `length_lt_of_next` says that every
event takes at least one waiting character, so that draining the decoder ends.
-/

namespace LineEditor.Keys

/-- The compiled bindings and the characters that wait. -/
structure Decoder where
  /-- The compiled bindings. -/
  trie : Trie := .empty
  /-- The characters that were typed and not yet understood. -/
  pending : List Char := []
  deriving Inhabited

namespace Decoder

/-- The decoder of a keymap. -/
def ofKeymap (m : Keymap) : Decoder := { trie := .ofKeymap m }

/-- Adds typed characters. -/
def append (d : Decoder) (text : List Char) : Decoder := { d with pending := d.pending ++ text }

/-- Whether an event can be decoded now. -/
def hasNext (d : Decoder) : Bool := !(d.trie.resolve d.pending).waits

/-- The next event, and the decoder without the characters that it took. -/
def next? (d : Decoder) : Option (KeyEvent × Decoder) :=
  match d.trie.resolve d.pending with
  | .bound event length false => some (event, { d with pending := d.pending.drop length })
  | .literal c => some (.key [c], { d with pending := d.pending.drop 1 })
  | .bound _ _ true | .wait => none

/-- The waiting characters as they are, and the decoder without them. -/
def takeAll (d : Decoder) : List Char × Decoder := (d.pending, { d with pending := [] })

/-- There is a next event exactly when the decoder says so. -/
theorem isSome_next (d : Decoder) : d.next?.isSome = d.hasNext := by
  unfold next? hasNext
  cases d.trie.resolve d.pending with
  | bound e n a => cases a <;> rfl
  | wait => rfl
  | literal c => rfl

/-- Nothing is decoded from nothing. -/
theorem next_eq_none_of_pending_nil {d : Decoder} (h : d.pending = []) : d.next? = none := by
  simp [next?, h, Trie.resolve]

/-- Every event takes at least one waiting character. -/
theorem length_lt_of_next {d d' : Decoder} {event : KeyEvent} (h : d.next? = some (event, d')) :
    d'.pending.length < d.pending.length := by
  have hpos : 0 < d.pending.length := by
    refine List.length_pos_iff.2 fun hnil => ?_
    simp [next_eq_none_of_pending_nil hnil] at h
  unfold next? at h
  split at h
  · rename_i hres
    have := Trie.length_pos_of_resolve hres
    obtain ⟨-, rfl⟩ := by simpa using h
    simp only [List.length_drop]
    omega
  · obtain ⟨-, rfl⟩ := by simpa using h
    simp only [List.length_tail]
    omega
  · simp at h
  · simp at h

/-- All events that can be decoded now, and the decoder after them. -/
def drain (d : Decoder) : List KeyEvent × Decoder :=
  match _h : d.next? with
  | none => ([], d)
  | some (event, next) =>
    let (events, last) := next.drain
    (event :: events, last)
termination_by d.pending.length
decreasing_by exact length_lt_of_next _h

end Decoder

end LineEditor.Keys
