import LineEditor.Keys.Decoder

/-!
# Decoding before all has been typed

A decoder gives an event as soon as no further input could change it. So the event that it gives
from a part of the input is the one that it gives from all of it, with the same characters left
behind it: `Decoder.next?_append`. A walk along the waiting characters either has left the trie, and
goes no further (`Trie.walk_append_of_none`), or goes on from the node that it has reached
(`Trie.walk_append`); from a node without edges it then leaves the trie at once.
-/

namespace LineEditor.Keys

namespace Trie

variable {t reached : Trie} {depth : Nat} {longest : Option (Nat × KeyEvent)} {s u : List Char}

/-- A walk that has left the trie goes no further. -/
theorem walk_append_of_none (h : (t.walk depth longest s).node? = none) :
    t.walk depth longest (s ++ u) = t.walk depth longest s := by
  induction s generalizing t depth longest with
  | nil => cases h
  | cons c s ih =>
    rw [List.cons_append, walk, walk]
    rw [walk] at h
    cases hchild : t.child? c with
    | none => rfl
    | some next =>
      simp only [hchild] at h ⊢
      exact ih h

/-- A walk goes on from the node that it has reached. -/
theorem walk_append (h : (t.walk depth longest s).node? = some reached) :
    t.walk depth longest (s ++ u) =
      reached.walk (depth + s.length) (t.walk depth longest s).longest u := by
  induction s generalizing t depth longest with
  | nil =>
    cases h
    rfl
  | cons c s ih =>
    have hlength : depth + (c :: s).length = depth + 1 + s.length := by
      rw [List.length_cons]
      omega
    rw [hlength]
    simp only [List.cons_append, walk] at h ⊢
    cases hchild : t.child? c with
    | none =>
      simp only [hchild] at h
      cases h
    | some next =>
      simp only [hchild] at h ⊢
      exact ih h

/-- From a node without edges a walk gets nowhere. -/
theorem walk_of_edges_nil (h : reached.edges = []) (c : Char) :
    reached.walk depth longest (c :: u) = { longest, node? := none } := by
  have hchild : reached.child? c = none := by
    rw [child?, h]
    rfl
  rw [walk, hchild]

/-- A bound sequence that is found is no longer than what was walked along. -/
theorem le_of_walk_longest {length : Nat} {event : KeyEvent} {bound : Nat}
    (hlongest : ∀ p ∈ longest, p.1 ≤ bound) (hdepth : depth + s.length ≤ bound)
    (h : (t.walk depth longest s).longest = some (length, event)) : length ≤ bound := by
  induction s generalizing t depth longest with
  | nil => exact hlongest (length, event) h
  | cons c s ih =>
    rw [walk] at h
    rw [List.length_cons] at hdepth
    split at h
    · exact hlongest (length, event) h
    · rename_i next _
      refine ih ?_ (by omega) h
      cases next.event? with
      | none => exact hlongest
      | some e =>
        rintro p ⟨⟩
        show depth + 1 ≤ bound
        omega

/-- A bound sequence that is found stands among the waiting characters. -/
theorem length_le_of_resolve {waiting : List Char} {event : KeyEvent} {length : Nat}
    {ambiguous : Bool} (h : t.resolve waiting = .bound event length ambiguous) :
    length ≤ waiting.length := by
  have hwalk : ∀ {event'}, (t.walk 0 none waiting).longest = some (length, event') →
      length ≤ waiting.length :=
    fun hlongest => le_of_walk_longest (by simp) (by omega) hlongest
  unfold resolve at h
  split at h
  · cases h
  · split at h
    · rename_i hlongest _
      cases h
      exact hwalk hlongest
    · rename_i hlongest _
      cases h
      exact hwalk hlongest
    · cases h
    · cases h

/-- **More input** does not change a verdict that does not wait for it. -/
theorem resolve_append {waiting : List Char} (h : (t.resolve waiting).waits = false)
    (text : List Char) : t.resolve (waiting ++ text) = t.resolve waiting := by
  cases waiting with
  | nil => cases h
  | cons c waiting =>
    -- the walk has left the trie, or stands where it will leave it
    suffices hwalk : (t.walk 0 none (c :: waiting ++ text)).longest =
          (t.walk 0 none (c :: waiting)).longest ∧
        ((t.walk 0 none (c :: waiting ++ text)).node? = (t.walk 0 none (c :: waiting)).node? ∨
          ∃ found reached, (t.walk 0 none (c :: waiting)).longest = some found ∧
            (t.walk 0 none (c :: waiting)).node? = some reached ∧ reached.edges = [] ∧
              (t.walk 0 none (c :: waiting ++ text)).node? = none) by
      obtain ⟨hlongest, hnode | ⟨found, reached, hfound, hnode, hedges, hleft⟩⟩ := hwalk
      · simp only [resolve, List.cons_append] at hlongest hnode ⊢
        rw [hlongest, hnode]
      · simp only [resolve, List.cons_append] at hlongest hfound hnode hleft ⊢
        rw [hlongest, hfound, hnode, hleft]
        simp [hedges]
    cases hnode : (t.walk 0 none (c :: waiting)).node? with
    | none =>
      rw [walk_append_of_none hnode]
      exact ⟨rfl, .inl hnode⟩
    | some reached =>
      have hresolve := h
      simp only [resolve, hnode] at hresolve
      cases hfound : (t.walk 0 none (c :: waiting)).longest with
      | none =>
        simp only [hfound] at hresolve
        cases hresolve
      | some found =>
        have hedges : reached.edges = [] := by
          simpa [hfound, Verdict.waits] using hresolve
        rw [walk_append hnode, hfound]
        cases text with
        | nil => exact ⟨rfl, .inl rfl⟩
        | cons d text =>
          rw [walk_of_edges_nil hedges]
          exact ⟨rfl, .inr ⟨found, reached, rfl, rfl, hedges, rfl⟩⟩

end Trie

namespace Decoder

variable {d d' : Decoder} {event : KeyEvent}

@[simp]
theorem append_nil (d : Decoder) : d.append [] = d := by
  rw [append, List.append_nil]

theorem append_append (d : Decoder) (s t : List Char) :
    (d.append s).append t = d.append (s ++ t) := by
  simp [append]

/-- **An event stands**: whatever is typed later, it is the next one, and what is left waits before
what is typed later. -/
theorem next?_append (h : d.next? = some (event, d')) (text : List Char) :
    (d.append text).next? = some (event, d'.append text) := by
  have hwaits : (d.trie.resolve d.pending).waits = false := by
    have hnext := d.isSome_next
    rw [h] at hnext
    simpa [hasNext] using hnext.symm
  have hpending : d.pending ≠ [] := by
    intro hnil
    rw [next_eq_none_of_pending_nil hnil] at h
    cases h
  unfold next? at h ⊢
  rw [show (d.append text).trie.resolve (d.append text).pending = d.trie.resolve d.pending from
    d.trie.resolve_append hwaits text]
  split at h
  · rename_i length hbound
    have hle := Trie.length_le_of_resolve hbound
    cases h
    simp [append, List.drop_append_of_le_length hle]
  · cases h
    have hle : 1 ≤ d.pending.length := List.length_pos_iff.2 hpending
    simp only [append]
    rw [List.drop_append_of_le_length hle]
  · cases h
  · cases h

end Decoder

end LineEditor.Keys
