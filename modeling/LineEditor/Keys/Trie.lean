import LineEditor.Keys.Keymap

/-!
# Bindings as a trie

A keymap is compiled to a trie, in which the characters of a sequence lead from node to node and the
node at its end holds the event. `Trie.resolve` walks it along the characters that wait to be
decoded and gives a `Verdict`: the longest bound sequence that they begin with, or the advice to
wait for more, or the first character as itself.

A match is *ambiguous* while the waiting characters, all of them, are the beginning of a longer
bound sequence, which more input could complete.
-/

namespace LineEditor.Keys

/-- A node of the trie: the event of the sequence that leads here, and the ways on. -/
inductive Trie where
  /-- A node. -/
  | node (event : Option KeyEvent) (edges : List (Char × Trie))
  deriving Inhabited

/-- What the waiting characters mean. -/
inductive Verdict where
  /-- They begin with a bound sequence of this length; none longer matches yet. -/
  | bound (event : KeyEvent) (length : Nat) (ambiguous : Bool)
  /-- They are too few to tell. -/
  | wait
  /-- They begin with a character that no binding explains. -/
  | literal (c : Char)
  deriving DecidableEq, Repr

/-- Whether more input is needed before anything can be decoded. -/
def Verdict.waits : Verdict → Bool
  | .bound _ _ ambiguous => ambiguous
  | .wait => true
  | .literal _ => false

namespace Trie

/-- The trie without bindings. -/
def empty : Trie := .node none []

/-- The event of the sequence that leads here. -/
def event? : Trie → Option KeyEvent
  | .node event _ => event

/-- The ways on. -/
def edges : Trie → List (Char × Trie)
  | .node _ edges => edges

/-- The node that a character leads to. -/
def child? (t : Trie) (c : Char) : Option Trie := t.edges.lookup c

/-- The edges with the node behind a character changed; without such an edge, a new one leads to a
changed empty node. -/
def changeEdge (c : Char) (change : Trie → Trie) : List (Char × Trie) → List (Char × Trie)
  | [] => [(c, change empty)]
  | (d, t) :: rest => if c = d then (d, change t) :: rest else (d, t) :: changeEdge c change rest

/-- Binds a sequence, in place of an earlier binding of it. -/
def insert (event : KeyEvent) : List Char → Trie → Trie
  | [], .node _ edges => .node (some event) edges
  | c :: rest, .node here edges => .node here (changeEdge c (insert event rest) edges)

/-- The trie of a keymap. -/
def ofKeymap (m : Keymap) : Trie :=
  m.bindings.foldl (fun t b => t.insert b.event b.sequence) empty

/-- What a walk along some characters has found. -/
structure Walk where
  /-- The longest bound sequence on the way, and its event. -/
  longest : Option (Nat × KeyEvent)
  /-- The node at the end, if the trie has a way for all the characters. -/
  node? : Option Trie

/-- Walks along the characters; `depth` characters have been passed, and `longest` is the longest
bound sequence among them. -/
def walk : Trie → Nat → Option (Nat × KeyEvent) → List Char → Walk
  | t, _, longest, [] => { longest, node? := some t }
  | t, depth, longest, c :: rest =>
    match t.child? c with
    | none => { longest, node? := none }
    | some next =>
      let longest := match next.event? with
        | some event => some (depth + 1, event)
        | none => longest
      walk next (depth + 1) longest rest

/-- What the waiting characters mean. -/
def resolve (t : Trie) (waiting : List Char) : Verdict :=
  match waiting with
  | [] => .wait
  | c :: _ =>
    match (t.walk 0 none waiting).longest, (t.walk 0 none waiting).node? with
    | some (length, event), some reached => .bound event length (!reached.edges.isEmpty)
    | some (length, event), none => .bound event length false
    | none, some _ => .wait
    | none, none => .literal c

/-- What a walk finds lies beyond the depth at which it began. -/
theorem lt_of_walk_longest {t : Trie} {depth length : Nat} {event : KeyEvent} {cs : List Char}
    {longest : Option (Nat × KeyEvent)} {bound : Nat}
    (hlongest : ∀ p ∈ longest, bound < p.1) (hdepth : bound ≤ depth)
    (h : (t.walk depth longest cs).longest = some (length, event)) : bound < length := by
  induction cs generalizing t depth longest with
  | nil => exact hlongest (length, event) (by simpa [walk] using h)
  | cons c rest ih =>
    rw [walk] at h
    split at h
    · exact hlongest (length, event) (by simpa using h)
    · rename_i next _
      refine ih ?_ (Nat.le_succ_of_le hdepth) h
      cases next.event? with
      | none => simpa using hlongest
      | some e => simpa using Nat.lt_succ_of_le hdepth

/-- A bound sequence that is found is not empty. -/
theorem length_pos_of_resolve {t : Trie} {waiting : List Char} {event : KeyEvent} {length : Nat}
    {ambiguous : Bool} (h : t.resolve waiting = .bound event length ambiguous) : 0 < length := by
  unfold resolve at h
  split at h
  · simp at h
  · split at h
    · rename_i hlongest _
      obtain ⟨_, rfl, _⟩ := by simpa using h
      exact lt_of_walk_longest (by simp) (Nat.le_refl 0) hlongest
    · rename_i hlongest _
      obtain ⟨_, rfl, _⟩ := by simpa using h
      exact lt_of_walk_longest (by simp) (Nat.le_refl 0) hlongest
    · simp at h
    · simp at h

end Trie

end LineEditor.Keys
