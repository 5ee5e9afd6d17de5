import LineEditor.Keys.Trie
import Mathlib.Data.List.Infix
import Mathlib.Data.List.Induction

/-!
# Longest match

What waiting characters mean is a rule about the list of bindings alone, `Keymap.Says`: of the bound
sequences that they begin with the longest counts, with what it was bound to last; they stay
ambiguous while all of them are the beginning of a longer bound sequence (`Keymap.Awaits`). Without
such a sequence they wait for more, or begin with a character that stands for itself.

`Trie.resolve_eq_iff` says that a walk along the trie of a keymap follows this rule. The trie is seen
through two views: the node that a sequence leads to (`Trie.descend?`), and the event that stands
there (`Trie.at?`). In the trie of a keymap the second is `Keymap.lookup` (`Trie.at?_ofKeymap`), and
the first says which texts bound sequences begin with (`Trie.isSome_descend?_ofKeymap`).
-/

namespace LineEditor

namespace Keymap

/-- A sequence is bound. -/
def IsBound (m : Keymap) (s : List Char) : Prop := ∃ b ∈ m.bindings, b.sequence = s

/-- A text is the beginning of a bound sequence. -/
def Begins (m : Keymap) (text : List Char) : Prop := ∃ b ∈ m.bindings, text <+: b.sequence

/-- A text is the beginning of a longer bound sequence. -/
def Awaits (m : Keymap) (text : List Char) : Prop :=
  ∃ b ∈ m.bindings, text <+: b.sequence ∧ text ≠ b.sequence

/-- The longest of the bound sequences that a text begins with; the empty sequence does not
count. -/
structure Longest (m : Keymap) (text s : List Char) : Prop where
  ne_nil : s ≠ []
  begins : s <+: text
  bound : m.IsBound s
  longest : ∀ u, u <+: text → m.IsBound u → u.length ≤ s.length

/-- No bound sequence matches: a text begins with none but perhaps the empty one. -/
def Unmatched (m : Keymap) (text : List Char) : Prop :=
  ∀ u, u ≠ [] → u <+: text → ¬ m.IsBound u

/-- The rule of the longest match: what the bindings say of waiting characters. -/
inductive Says (m : Keymap) (waiting : List Char) : Keys.Verdict → Prop where
  /-- A bound sequence is matched. -/
  | bound {s event ambiguous} (hs : m.Longest waiting s) (hevent : m.lookup s = some event)
      (hambiguous : ambiguous = true ↔ m.Awaits waiting) :
      Says m waiting (.bound event s.length ambiguous)
  /-- More input is needed. -/
  | wait (hnone : m.Unmatched waiting) (h : waiting = [] ∨ m.Awaits waiting) :
      Says m waiting .wait
  /-- The first character stands for itself. -/
  | literal {c rest} (hnone : m.Unmatched waiting) (h : waiting = c :: rest)
      (hnot : ¬ m.Awaits waiting) : Says m waiting (.literal c)

variable {m : Keymap} {waiting : List Char} {v v' : Keys.Verdict}

theorem isBound_iff_lookup {s : List Char} : m.IsBound s ↔ m.lookup s ≠ none := by
  simp [IsBound, lookup]

/-- There is at most one longest match. -/
theorem Longest.unique {s u : List Char} (hs : m.Longest waiting s) (hu : m.Longest waiting u) :
    s = u := by
  have hlength : s.length = u.length :=
    Nat.le_antisymm (hu.longest s hs.begins hs.bound) (hs.longest u hu.begins hu.bound)
  exact (List.prefix_of_prefix_length_le hs.begins hu.begins hlength.le).eq_of_length hlength

theorem Longest.not_unmatched {s : List Char} (hs : m.Longest waiting s) : ¬ m.Unmatched waiting :=
  fun hnone => hnone s hs.ne_nil hs.begins hs.bound

/-- The rule says one thing only. -/
theorem Says.unique (h : m.Says waiting v) (h' : m.Says waiting v') : v = v' := by
  cases h with
  | bound hs hevent hambiguous =>
    cases h' with
    | bound hs' hevent' hambiguous' =>
      obtain rfl := hs.unique hs'
      obtain rfl : _ = _ := Option.some.inj (hevent.symm.trans hevent')
      rw [Bool.eq_iff_iff.2 (hambiguous.trans hambiguous'.symm)]
    | wait hnone => exact absurd hnone hs.not_unmatched
    | literal hnone => exact absurd hnone hs.not_unmatched
  | wait hnone h =>
    cases h' with
    | bound hs' => exact absurd hnone hs'.not_unmatched
    | wait => rfl
    | literal _ hc hnot =>
      obtain rfl | hawaits := h
      · cases hc
      · exact absurd hawaits hnot
  | literal hnone hc hnot =>
    cases h' with
    | bound hs' => exact absurd hnone hs'.not_unmatched
    | wait _ h =>
      obtain rfl | hawaits := h
      · cases hc
      · exact absurd hawaits hnot
    | literal _ hc' =>
      rw [hc] at hc'
      cases hc'
      rfl

end Keymap

namespace Keys.Trie

/-! ### The view of a trie -/

/-- The node that a sequence leads to. -/
def descend? : Trie → List Char → Option Trie
  | t, [] => some t
  | t, c :: rest => (t.child? c).bind fun next => next.descend? rest

/-- The event of a sequence. -/
def at? (t : Trie) (s : List Char) : Option KeyEvent := (t.descend? s).bind event?

variable {t root reached : Trie} {event : KeyEvent} {c d : Char} {s u passed : List Char}

theorem descend?_append (t : Trie) (s u : List Char) :
    t.descend? (s ++ u) = (t.descend? s).bind fun next => next.descend? u := by
  induction s generalizing t with
  | nil => rfl
  | cons c s ih =>
    rw [List.cons_append, descend?, descend?]
    cases t.child? c with
    | none => rfl
    | some next => exact ih next

theorem descend?_concat (h : root.descend? s = some t) :
    root.descend? (s ++ [c]) = t.child? c := by
  have hlast : t.descend? [c] = t.child? c := Option.bind_fun_some _
  rw [descend?_append, h, Option.bind_some, hlast]

/-- Beyond the last node there is none. -/
theorem descend?_append_eq_none (h : t.descend? s = none) : t.descend? (s ++ u) = none := by
  rw [descend?_append, h]
  rfl

/-- There are edges exactly when one of them is for some character. -/
theorem isEmpty_edges_eq_false {α : Type} {edges : List (Char × α)} :
    edges.isEmpty = false ↔ ∃ c, (edges.lookup c).isSome := by
  cases edges with
  | nil => simp
  | cons edge rest =>
    obtain ⟨c, next⟩ := edge
    exact ⟨fun _ => ⟨c, by simp⟩, fun _ => rfl⟩

/-! ### Binding a sequence -/

theorem lookup_changeEdge (c d : Char) (change : Trie → Trie) (edges : List (Char × Trie)) :
    (changeEdge c change edges).lookup d =
      if d = c then some (change ((edges.lookup c).getD empty)) else edges.lookup d := by
  induction edges with
  | nil =>
    rw [changeEdge]
    by_cases h : d = c
    · simp [h]
    · simp [h, List.lookup_cons, beq_eq_false_iff_ne.2 h]
  | cons edge rest ih =>
    obtain ⟨e, next⟩ := edge
    rw [changeEdge]
    by_cases hce : c = e
    · subst hce
      by_cases h : d = c
      · simp [h]
      · simp [h, List.lookup_cons, beq_eq_false_iff_ne.2 h]
    · rw [if_neg hce, List.lookup_cons, ih, List.lookup_cons, List.lookup_cons,
        beq_eq_false_iff_ne.2 hce]
      by_cases hde : d = e
      · simp [hde, Ne.symm hce]
      · simp [beq_eq_false_iff_ne.2 hde]

theorem child?_insert_cons :
    (t.insert event (c :: s)).child? d =
      if d = c then some (((t.child? c).getD empty).insert event s) else t.child? d := by
  cases t
  rw [insert]
  exact lookup_changeEdge ..

theorem descend?_empty (s : List Char) : empty.descend? s = if s = [] then some empty else none := by
  cases s <;> rfl

theorem at?_empty (s : List Char) : empty.at? s = none := by
  rw [at?, descend?_empty]
  split <;> rfl

/-- A way exists after a sequence is bound if it existed before or begins the sequence. -/
theorem isSome_descend?_insert :
    ((t.insert event s).descend? u).isSome ↔ u <+: s ∨ (t.descend? u).isSome := by
  induction u generalizing t s with
  | nil => simp [descend?]
  | cons d u ih =>
    cases s with
    | nil =>
      obtain ⟨here, edges⟩ := t
      simp [insert, descend?, child?, Trie.edges]
    | cons c s =>
      rw [descend?, child?_insert_cons, descend?, List.cons_prefix_cons]
      by_cases h : d = c
      · subst h
        rw [if_pos rfl, Option.bind_some, ih]
        cases t.child? d with
        | none =>
          rw [Option.getD_none, descend?_empty]
          by_cases hu : u = [] <;> simp [hu]
        | some next => simp
      · simp [h]

/-- Binding a sequence changes what stands at this sequence only. -/
theorem at?_insert : (t.insert event s).at? u = if u = s then some event else t.at? u := by
  induction u generalizing t s with
  | nil =>
    cases t
    cases s with
    | nil => rfl
    | cons c s => simp [at?, descend?, insert, event?]
  | cons d u ih =>
    cases s with
    | nil =>
      cases t
      rfl
    | cons c s =>
      have hstep : ∀ t : Trie, t.at? (d :: u) = (t.child? d).bind fun next => next.at? u := by
        intro t
        rw [at?, descend?, Option.bind_assoc]
        rfl
      rw [hstep, child?_insert_cons, hstep]
      by_cases h : d = c
      · subst h
        rw [if_pos rfl, Option.bind_some, ih]
        cases t.child? d with
        | none => simp [at?_empty]
        | some next => simp
      · simp [h]

/-! ### The trie of a keymap -/

/-- What stands at a sequence is what it was bound to last. -/
theorem at?_ofKeymap (m : Keymap) (s : List Char) : (ofKeymap m).at? s = m.lookup s := by
  obtain ⟨bindings⟩ := m
  unfold ofKeymap Keymap.lookup
  simp only
  induction bindings using List.reverseRecOn with
  | nil => exact at?_empty s
  | append_singleton bindings b ih =>
    rw [List.foldl_concat, List.reverse_concat, at?_insert, List.find?_cons]
    by_cases h : s = b.sequence
    · simp [h]
    · simp [h, Ne.symm h, ih]

/-- A sequence leads somewhere if it is empty or a bound sequence begins with it. -/
theorem isSome_descend?_ofKeymap (m : Keymap) (s : List Char) :
    ((ofKeymap m).descend? s).isSome ↔ s = [] ∨ m.Begins s := by
  obtain ⟨bindings⟩ := m
  unfold ofKeymap Keymap.Begins
  simp only
  induction bindings using List.reverseRecOn with
  | nil => cases s <;> simp [descend?_empty]
  | append_singleton bindings b ih =>
    rw [List.foldl_concat, isSome_descend?_insert, ih]
    simp only [List.mem_append, List.mem_singleton, or_and_right, exists_or, exists_eq_left]
    exact or_left_comm.trans (or_congr_right or_comm)

/-- A node has ways on exactly when a longer bound sequence begins with what leads to it. -/
theorem isEmpty_edges_ofKeymap {m : Keymap} (h : (ofKeymap m).descend? s = some reached) :
    (!reached.edges.isEmpty) = true ↔ m.Awaits s := by
  have hchild : ∀ c, (reached.child? c).isSome ↔ m.Begins (s ++ [c]) := by
    intro c
    rw [← descend?_concat h, isSome_descend?_ofKeymap]
    simp
  rw [Bool.not_eq_true', isEmpty_edges_eq_false]
  constructor
  · rintro ⟨c, hc⟩
    obtain ⟨b, hb, rest, hrest⟩ := (hchild c).1 hc
    refine ⟨b, hb, ⟨c :: rest, by simp [← hrest]⟩, fun hs => ?_⟩
    have hlength := congrArg List.length hrest
    simp [← hs] at hlength
  · rintro ⟨b, hb, ⟨rest, hrest⟩, hne⟩
    cases rest with
    | nil => exact absurd (by simpa using hrest) hne
    | cons c rest => exact ⟨c, (hchild c).2 ⟨b, hb, rest, by simp [← hrest]⟩⟩

/-! ### Walking -/

/-- No event stands on the way along some characters beyond the first `n`. -/
def Bare (root : Trie) (passed : List Char) (n : Nat) : Prop :=
  ∀ k, n < k → k ≤ passed.length → root.at? (passed.take k) = none

/-- The longest of the sequences with an event, not the empty one, that the characters which a walk
has passed begin with. -/
def Found (root : Trie) (passed : List Char) : Option (Nat × KeyEvent) → Prop
  | none => root.Bare passed 0
  | some (length, event) =>
    0 < length ∧ length ≤ passed.length ∧ root.at? (passed.take length) = some event ∧
      root.Bare passed length

variable {n : Nat} {longest : Option (Nat × KeyEvent)}

/-- One more character is passed, and no event stands behind it. -/
theorem Bare.concat (h : root.Bare passed n) (hat : root.at? (passed ++ [c]) = none) :
    root.Bare (passed ++ [c]) n := by
  intro k hk hle
  rw [List.length_append, List.length_singleton] at hle
  rcases Nat.lt_or_eq_of_le hle with hlt | rfl
  · rw [List.take_append_of_le_length (by omega)]
    exact h k hk (by omega)
  · rwa [List.take_of_length_le (by simp)]

/-- The trie is left, and no event stands anywhere beyond. -/
theorem Bare.append (h : root.Bare passed n) (hleft : root.descend? (passed ++ [c]) = none)
    (u : List Char) : root.Bare (passed ++ c :: u) n := by
  intro k hk hle
  rcases Nat.lt_or_ge passed.length k with hlt | hge
  · obtain ⟨j, rfl⟩ : ∃ j, k = (passed ++ [c]).length + j :=
      ⟨k - (passed ++ [c]).length, by simp; omega⟩
    have hsplit : passed ++ c :: u = passed ++ [c] ++ u := List.append_cons ..
    rw [hsplit, List.take_length_add_append, at?, descend?_append_eq_none hleft]
    rfl
  · rw [List.take_append_of_le_length hge]
    exact h k hk hge

/-- What was found remains when more characters are passed, if no event stands beyond. -/
theorem Found.mono (h : root.Found passed longest) (u : List Char)
    (hbare : ∀ n, root.Bare passed n → root.Bare (passed ++ u) n) :
    root.Found (passed ++ u) longest := by
  cases longest with
  | none => exact hbare 0 h
  | some found =>
    obtain ⟨hpos, hle, hevent, hlonger⟩ := h
    refine ⟨hpos, ?_, ?_, hbare _ hlonger⟩
    · rw [List.length_append]
      omega
    · rwa [List.take_append_of_le_length hle]

/-- One more character is passed. -/
theorem Found.concat (h : root.Found passed longest) (c : Char) :
    root.Found (passed ++ [c])
      (match root.at? (passed ++ [c]) with
        | some event => some (passed.length + 1, event)
        | none => longest) := by
  cases hat : root.at? (passed ++ [c]) with
  | some event =>
    have hall : (passed ++ [c]).take (passed.length + 1) = passed ++ [c] :=
      List.take_of_length_le (by simp)
    refine ⟨Nat.succ_pos _, by simp, by rw [hall, hat], fun k hk hle => ?_⟩
    rw [List.length_append, List.length_singleton] at hle
    omega
  | none => exact h.mono [c] fun n hbare => hbare.concat hat

/-- A walk ends at the node that the characters lead to. -/
theorem walk_node? (t : Trie) (depth : Nat) (longest : Option (Nat × KeyEvent)) (s : List Char) :
    (t.walk depth longest s).node? = t.descend? s := by
  induction s generalizing t depth longest with
  | nil => rfl
  | cons c s ih =>
    rw [walk, descend?]
    cases t.child? c with
    | none => rfl
    | some next => exact ih ..

/-- A walk finds the longest sequence with an event. -/
theorem Found.walk (h : root.Found passed longest) (ht : root.descend? passed = some t)
    (s : List Char) : root.Found (passed ++ s) (t.walk passed.length longest s).longest := by
  induction s generalizing t passed longest with
  | nil => simpa [Trie.walk] using h
  | cons c s ih =>
    have hchild : root.descend? (passed ++ [c]) = t.child? c := descend?_concat ht
    rw [Trie.walk]
    cases hnext : t.child? c with
    | none => exact h.mono _ fun n hbare => hbare.append (hchild.trans hnext) s
    | some next =>
      have hreached : root.descend? (passed ++ [c]) = some next := hchild.trans hnext
      have hat : root.at? (passed ++ [c]) = next.event? := by
        rw [at?, hreached, Option.bind_some]
      have hstep := h.concat c
      rw [hat] at hstep
      have hrest := ih hstep hreached
      rwa [List.length_append, List.length_singleton, List.append_assoc] at hrest

variable {m : Keymap}

/-- What is found in the trie of a keymap is the longest match. -/
theorem Found.longest_match {length : Nat} (h : (ofKeymap m).Found s (some (length, event))) :
    m.Longest s (s.take length) ∧ m.lookup (s.take length) = some event ∧
      (s.take length).length = length := by
  obtain ⟨hpos, hle, hevent, hlonger⟩ := h
  rw [at?_ofKeymap] at hevent
  have hlength : (s.take length).length = length := by simp [hle]
  refine ⟨⟨?_, List.take_prefix length s, ?_, fun u hu hbound => ?_⟩, hevent, hlength⟩
  · exact List.ne_nil_of_length_pos (by omega)
  · exact Keymap.isBound_iff_lookup.2 (by simp [hevent])
  · by_contra hlt
    have hnone := hlonger u.length (by omega) hu.length_le
    rw [at?_ofKeymap, ← List.prefix_iff_eq_take.1 hu] at hnone
    exact Keymap.isBound_iff_lookup.1 hbound hnone

/-- Where nothing is found in the trie of a keymap, nothing matches. -/
theorem Found.unmatched (h : (ofKeymap m).Found s none) : m.Unmatched s := by
  intro u hne hu hbound
  have hnone := h u.length (List.length_pos_of_ne_nil hne) hu.length_le
  rw [at?_ofKeymap, ← List.prefix_iff_eq_take.1 hu] at hnone
  exact Keymap.isBound_iff_lookup.1 hbound hnone

/-- Where nothing matches, but the trie of a keymap has a way, a longer sequence is to come. -/
theorem awaits_of_unmatched (hnone : m.Unmatched s) (hne : s ≠ [])
    (h : (ofKeymap m).descend? s = some reached) : m.Awaits s := by
  obtain hnil | ⟨b, hb, hbegins⟩ := (isSome_descend?_ofKeymap m s).1 (by simp [h])
  · exact absurd hnil hne
  · exact ⟨b, hb, hbegins, fun hs => hnone s hne (List.prefix_refl s) ⟨b, hb, hs.symm⟩⟩

/-- Where the walk leaves the trie of a keymap, no longer sequence is to come. -/
theorem not_awaits_of_descend?_eq_none (h : (ofKeymap m).descend? s = none) : ¬ m.Awaits s := by
  rintro ⟨b, hb, hbegins, -⟩
  have hsome := (isSome_descend?_ofKeymap m s).2 (.inr ⟨b, hb, hbegins⟩)
  rw [h] at hsome
  cases hsome

/-- The trie of a keymap follows the rule. -/
theorem says_resolve (m : Keymap) (waiting : List Char) :
    m.Says waiting ((ofKeymap m).resolve waiting) := by
  have hstart : (ofKeymap m).Found [] none := fun k hpos hle => absurd hle (Nat.not_le.2 hpos)
  have hfound : (ofKeymap m).Found waiting ((ofKeymap m).walk 0 none waiting).longest :=
    hstart.walk rfl waiting
  have hnode := walk_node? (ofKeymap m) 0 none waiting
  cases waiting with
  | nil => exact .wait hstart.unmatched (.inl rfl)
  | cons c rest =>
    rw [resolve]
    cases hlongest : ((ofKeymap m).walk 0 none (c :: rest)).longest with
    | some found =>
      obtain ⟨length, event⟩ := found
      rw [hlongest] at hfound
      obtain ⟨hmatch, hevent, hlength⟩ := hfound.longest_match
      rw [← hlength]
      cases hreached : ((ofKeymap m).walk 0 none (c :: rest)).node? with
      | some reached =>
        exact .bound hmatch hevent (isEmpty_edges_ofKeymap (hnode.symm.trans hreached))
      | none =>
        have hnot := not_awaits_of_descend?_eq_none (hnode.symm.trans hreached)
        exact .bound hmatch hevent ⟨nofun, fun hawaits => absurd hawaits hnot⟩
    | none =>
      rw [hlongest] at hfound
      cases hreached : ((ofKeymap m).walk 0 none (c :: rest)).node? with
      | some reached =>
        exact .wait hfound.unmatched (.inr
          (awaits_of_unmatched hfound.unmatched nofun (hnode.symm.trans hreached)))
      | none =>
        exact .literal hfound.unmatched rfl
          (not_awaits_of_descend?_eq_none (hnode.symm.trans hreached))

/-- **Longest match.** -/
theorem resolve_eq_iff (m : Keymap) (waiting : List Char) (v : Verdict) :
    (ofKeymap m).resolve waiting = v ↔ m.Says waiting v :=
  ⟨fun h => h ▸ says_resolve m waiting, fun h => (says_resolve m waiting).unique h⟩

end Keys.Trie

end LineEditor
