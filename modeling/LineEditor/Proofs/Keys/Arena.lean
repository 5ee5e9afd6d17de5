import LineEditor.Keys.Arena
import LineEditor.Proofs.Keys.LongestMatch
import LineEditor.Proofs.Lists
import Mathlib.Data.List.Nodup
import Mathlib.Logic.Function.Basic

/-!
# An arena holds its trie

In an arena each node stands for one text, the one that leads to it from the root. `Layout` lists
these texts, `words`, in the order of the nodes: they are all different, each of them but the empty
one is another one with one more character, and the edges lead from the one to the other. `mark`
tells which binding a text is marked with. A step to a node that is missing adds a text
(`Layout.advance`), a path adds the beginnings of a sequence (`Layout.path`), and binding a sequence
marks it (`Layout.bind`); none of them meets a number that is out of range.

So the arena of a keymap has a node for each beginning of a bound sequence, marked with the last
binding of it (`Compiled`), as the trie of the keymap has. A walk along the one is a walk along the
other (`Compiled.walk`). `Keymap.resolves_longest_match` concludes that both follow the rule of the
longest match.
-/

namespace LineEditor.Keys.Arena

/-- A node that stands for a word: its edges lead to the words with one more character, and it is
marked as the word is. -/
structure Fits (words : List (List Char)) (mark : List Char → Option Nat) (node : ArenaNode)
    (s : List Char) : Prop where
  edge : ∀ c j, node.edges.lookup c = some j ↔ words[j]? = some (s ++ [c])
  terminal : node.terminal? = mark s

/-- Each node stands for a word of its own. -/
structure Layout (nodes : List ArenaNode) (words : List (List Char))
    (mark : List Char → Option Nat) : Prop where
  length : words.length = nodes.length
  root : words[0]? = some []
  nodup : words.Nodup
  closed : ∀ s c, s ++ [c] ∈ words → s ∈ words
  fits : ∀ (i : Nat) (node : ArenaNode) (s : List Char), nodes[i]? = some node →
    words[i]? = some s → Fits words mark node s
  marked : ∀ s, s ∉ words → mark s = none

variable {nodes : List ArenaNode} {words : List (List Char)} {mark : List Char → Option Nat}
  {node : ArenaNode} {i : Nat} {s u : List Char} {c : Char}

namespace Fits

/-- A new node stands for a word that is not marked and that no other word goes on from. -/
theorem leaf (hnone : ∀ c, s ++ [c] ∉ words) (hmark : mark s = none) :
    Fits words mark .leaf s where
  edge c j := by
    refine ⟨fun h => ?_, fun h => absurd (List.mem_of_getElem? h) (hnone c)⟩
    cases h
  terminal := hmark.symm

/-- A word more, which does not go on from this one. -/
theorem append (h : Fits words mark node s) {new : List Char} (hnew : ∀ c, new ≠ s ++ [c]) :
    Fits (words ++ [new]) mark node s where
  edge c j := by simp [getElem?_concat_eq_some_iff, h.edge, hnew c]
  terminal := h.terminal

/-- A word more, which goes on from this one, with an edge to it. -/
theorem edge_append (h : Fits words mark node s) (hnew : s ++ [c] ∉ words) :
    Fits (words ++ [s ++ [c]]) mark { node with edges := node.edges ++ [(c, words.length)] } s where
  edge d j := by
    rw [List.lookup_append, Option.or_eq_some_iff, h.edge, getElem?_concat_eq_some_iff]
    by_cases hd : d = c
    · subst hd
      have hnone : node.edges.lookup d = none := by
        refine Option.eq_none_iff_forall_ne_some.2 fun k hk => hnew ?_
        exact List.mem_of_getElem? ((h.edge d k).1 hk)
      simp [hnone, eq_comm]
    · simp [List.lookup_cons, beq_eq_false_iff_ne.2 hd, Ne.symm hd]
  terminal := h.terminal

/-- Another word is marked. -/
theorem mark_ne (h : Fits words mark node u) (hne : u ≠ s) (number : Option Nat) :
    Fits words (Function.update mark s number) node u where
  edge := h.edge
  terminal := by rw [Function.update_of_ne hne, h.terminal]

/-- The word is marked. -/
theorem mark_self (h : Fits words mark node s) (number : Option Nat) :
    Fits words (Function.update mark s number) { node with terminal? := number } s where
  edge := h.edge
  terminal := by rw [Function.update_self]

end Fits

namespace Layout

/-- The root alone stands for the empty word. -/
theorem leaf : Layout [.leaf] [[]] fun _ => none where
  length := rfl
  root := rfl
  nodup := List.nodup_singleton _
  closed s c h := by simp at h
  fits i node s hnode hword := by
    rw [List.getElem?_singleton] at hnode hword
    split at hnode
    · obtain rfl : _ = node := Option.some.inj hnode
      exact .leaf (fun c => by simp) rfl
    · cases hnode
  marked _ _ := rfl

/-- A node stands for each word. -/
theorem exists_node (h : Layout nodes words mark) (hi : words[i]? = some s) :
    ∃ node, nodes[i]? = some node := by
  obtain ⟨hlt, -⟩ := List.getElem?_eq_some_iff.1 hi
  exact ⟨_, List.getElem?_eq_getElem (h.length ▸ hlt)⟩

/-- Two nodes do not stand for the same word. -/
theorem eq_of_word (h : Layout nodes words mark) {j : Nat} (hi : words[i]? = some s)
    (hj : words[j]? = some s) : i = j := by
  obtain ⟨hlt, -⟩ := List.getElem?_eq_some_iff.1 hi
  exact (List.getElem?_inj hlt h.nodup).1 (hi.trans hj.symm)

/-- A node stands for each beginning of a word. -/
theorem mem_of_begins (h : Layout nodes words mark) (hu : u <+: s) (hs : s ∈ words) :
    u ∈ words := by
  obtain ⟨rest, rfl⟩ := hu
  induction rest using List.reverseRecOn with
  | nil => simpa using hs
  | append_singleton rest c ih => exact ih (h.closed _ c (by rwa [List.append_assoc]))

/-- A node more, behind an edge from the node of a word. -/
theorem append (h : Layout nodes words mark) (hi : words[i]? = some s) (hnode : nodes[i]? = some node)
    (hnew : s ++ [c] ∉ words) :
    Layout (nodes.set i { node with edges := node.edges ++ [(c, nodes.length)] } ++ [.leaf])
      (words ++ [s ++ [c]]) mark where
  length := by simp [h.length]
  root := by
    rw [List.getElem?_append_left (List.getElem?_eq_some_iff.1 h.root).1, h.root]
  nodup := by
    rw [← List.concat_eq_append]
    exact h.nodup.concat hnew
  closed u d hmem := by
    rw [List.mem_append, List.mem_singleton] at hmem ⊢
    refine .inl (hmem.elim (h.closed u d) fun heq => ?_)
    obtain ⟨rfl, -⟩ := List.append_inj' heq rfl
    exact List.mem_of_getElem? hi
  fits j node' u hj hu := by
    have hlong : ∀ d, s ++ [c] ≠ s ++ [c] ++ [d] := by simp
    rw [getElem?_concat_eq_some_iff, List.length_set] at hj
    rw [getElem?_concat_eq_some_iff] at hu
    obtain hu | ⟨rfl, rfl⟩ := hu
    · have hlt : j < nodes.length := h.length ▸ (List.getElem?_eq_some_iff.1 hu).1
      obtain ⟨rfl, rfl⟩ | ⟨hij, hj⟩ := eq_or_of_getElem?_set (hj.resolve_right fun hj => hlt.ne hj.1)
      · -- the node that the new edge leaves
        obtain rfl : u = s := Option.some.inj (hu.symm.trans hi)
        rw [← h.length]
        exact (h.fits i node u hnode hu).edge_append hnew
      · -- another old node
        refine (h.fits j node' u hj hu).append fun d heq => hij ?_
        obtain ⟨rfl, -⟩ := List.append_inj' heq rfl
        exact h.eq_of_word hi hu
    · -- the new node
      obtain hj | ⟨-, rfl⟩ := hj
      · exact absurd (List.getElem?_eq_some_iff.1 hj).1 (by simp [h.length])
      · refine (Fits.leaf (fun d hmem => hnew (h.closed _ d hmem)) (h.marked _ hnew)).append hlong
  marked u hu := h.marked u fun hmem => hu (List.mem_append_left _ hmem)

/-- A step to a node, which is there or is put at the end of the row. -/
theorem advance (h : Layout nodes words mark) (hi : words[i]? = some s) (c : Char) :
    ∃ nodes' words' j, advance? nodes i c = some (nodes', j) ∧ Layout nodes' words' mark ∧
      words'[j]? = some (s ++ [c]) ∧ ∀ u, u ∈ words' ↔ u ∈ words ∨ u = s ++ [c] := by
  obtain ⟨node, hnode⟩ := h.exists_node hi
  have hfits := h.fits i node s hnode hi
  cases hlookup : node.edges.lookup c with
  | some j =>
    have hj : words[j]? = some (s ++ [c]) := (hfits.edge c j).1 hlookup
    refine ⟨nodes, words, j, by simp [advance?, hnode, hlookup], h, hj, fun u => ?_⟩
    exact ⟨.inl, fun hu => hu.elim id fun hu => hu ▸ List.mem_of_getElem? hj⟩
  | none =>
    have hnew : s ++ [c] ∉ words := by
      intro hmem
      obtain ⟨j, hj⟩ := List.getElem?_of_mem hmem
      rw [(hfits.edge c j).2 hj] at hlookup
      cases hlookup
    refine ⟨_, words ++ [s ++ [c]], nodes.length, by simp [advance?, hnode, hlookup],
      h.append hi hnode hnew, ?_, by simp⟩
    rw [← h.length, List.getElem?_concat_length]

/-- A path to a node, with new nodes where they are missing. -/
theorem path (h : Layout nodes words mark) (hi : words[i]? = some s) (cs : List Char) :
    ∃ nodes' words' j, path? nodes i cs = some (nodes', j) ∧ Layout nodes' words' mark ∧
      words'[j]? = some (s ++ cs) ∧ ∀ u, u ∈ words' ↔ u ∈ words ∨ u <+: s ++ cs := by
  induction cs generalizing nodes words i s with
  | nil =>
    refine ⟨nodes, words, i, rfl, h, by simpa using hi, fun u => ?_⟩
    rw [List.append_nil]
    exact ⟨.inl, fun hu => hu.elim id fun hu => h.mem_of_begins hu (List.mem_of_getElem? hi)⟩
  | cons c cs ih =>
    obtain ⟨nodes₁, words₁, k, hadvance, h₁, hk, hmem₁⟩ := h.advance hi c
    obtain ⟨nodes₂, words₂, j, hpath, h₂, hj, hmem₂⟩ := ih h₁ hk
    rw [List.append_assoc, List.singleton_append] at hj
    refine ⟨nodes₂, words₂, j, by simp [path?, hadvance, hpath], h₂, hj, fun u => ?_⟩
    rw [hmem₂, hmem₁, or_assoc, List.append_assoc, List.singleton_append]
    refine or_congr_right ⟨fun hu => hu.elim (fun hu => ?_) id, .inr⟩
    exact ⟨cs, by simp [hu]⟩

/-- A word is marked with the number of a binding. -/
theorem setTerminal (h : Layout nodes words mark) (hi : words[i]? = some s)
    (hnode : nodes[i]? = some node) (number : Nat) :
    Layout (nodes.set i { node with terminal? := some number }) words
      (Function.update mark s (some number)) where
  length := by simp [h.length]
  root := h.root
  nodup := h.nodup
  closed := h.closed
  fits j node' u hj hu := by
    obtain ⟨rfl, rfl⟩ | ⟨hij, hj⟩ := eq_or_of_getElem?_set hj
    · obtain rfl : u = s := Option.some.inj (hu.symm.trans hi)
      exact (h.fits i node u hnode hu).mark_self _
    · refine (h.fits j node' u hj hu).mark_ne (fun heq => hij ?_) _
      exact h.eq_of_word hi (heq ▸ hu)
  marked u hu := by
    have hne : u ≠ s := fun heq => hu (heq ▸ List.mem_of_getElem? hi)
    rw [Function.update_of_ne hne, h.marked u hu]

/-- A sequence is bound. -/
theorem bind (h : Layout nodes words mark) (sequence : List Char) (number : Nat) :
    ∃ nodes' words', bind? nodes sequence number = some nodes' ∧
      Layout nodes' words' (Function.update mark sequence (some number)) ∧
        ∀ u, u ∈ words' ↔ u ∈ words ∨ u <+: sequence := by
  obtain ⟨nodes₁, words₁, j, hpath, h₁, hj, hmem⟩ := h.path h.root sequence
  obtain ⟨node, hnode⟩ := h₁.exists_node hj
  refine ⟨_, words₁, by simp [bind?, hpath, hnode], h₁.setTerminal hj hnode number, hmem⟩

end Layout

/-! ### The arena of a keymap -/

/-- What has been made of some bindings: a node for each beginning of a bound sequence, marked with
the number of its last binding. -/
structure Compiled (bindings : List Binding) (nodes : List ArenaNode) (words : List (List Char))
    (mark : List Char → Option Nat) : Prop where
  layout : Layout nodes words mark
  mem_iff : ∀ u, u ∈ words ↔ u = [] ∨ ∃ b ∈ bindings, u <+: b.sequence
  mark_eq : ∀ u, (mark u).map (bindings[·]?) =
    (bindings.reverse.find? (·.sequence = u)).map some

/-- One binding more. -/
theorem Compiled.bind {bindings : List Binding} (h : Compiled bindings nodes words mark)
    (b : Binding) :
    ∃ nodes' words' mark', bind? nodes b.sequence bindings.length = some nodes' ∧
      Compiled (bindings ++ [b]) nodes' words' mark' := by
  obtain ⟨nodes', words', hbind, hlayout, hmem⟩ := h.layout.bind b.sequence bindings.length
  refine ⟨nodes', words', _, hbind, hlayout, fun u => ?_, fun u => ?_⟩
  · rw [hmem, h.mem_iff]
    simp [or_and_right, exists_or, or_assoc]
  · rw [List.reverse_concat, List.find?_cons]
    by_cases hu : b.sequence = u
    · subst hu
      simp
    · -- the number of an older binding is still its number
      have hold : (mark u).map ((bindings ++ [b])[·]?) = (mark u).map (bindings[·]?) := by
        cases hnumber : mark u with
        | none => rfl
        | some number =>
          have hbinding := h.mark_eq u
          rw [hnumber, Option.map_some] at hbinding
          obtain ⟨b', -, hb'⟩ := Option.map_eq_some_iff.1 hbinding.symm
          have hlt := (List.getElem?_eq_some_iff.1 hb'.symm).1
          rw [Option.map_some, Option.map_some, List.getElem?_append_left hlt]
      rw [Function.update_of_ne (Ne.symm hu), hold, h.mark_eq]
      simp [hu]

/-- A keymap with one more binding is compiled by binding it behind the others. -/
theorem ofKeymap?_concat (bindings : List Binding) (b : Binding) :
    ofKeymap? ⟨bindings ++ [b]⟩ = (ofKeymap? ⟨bindings⟩).bind fun arena =>
      (bind? arena.nodes b.sequence bindings.length).map (⟨·, bindings ++ [b]⟩) := by
  simp only [ofKeymap?, List.zipIdx_append, List.foldlM_append, List.zipIdx_singleton,
    List.foldlM_cons, List.foldlM_nil, Nat.zero_add, bind_pure]
  generalize (List.foldlM _ _ bindings.zipIdx : Option (List ArenaNode)) = nodes?
  cases nodes? with
  | none => rfl
  | some nodes => exact (Option.map_eq_bind ..).symm

/-- A keymap is compiled, and no number is out of range. -/
theorem exists_compiled (m : Keymap) :
    ∃ nodes words mark, ofKeymap? m = some ⟨nodes, m.bindings⟩ ∧
      Compiled m.bindings nodes words mark := by
  obtain ⟨bindings⟩ := m
  induction bindings using List.reverseRecOn with
  | nil => exact ⟨_, _, _, rfl, .leaf, by simp, by simp⟩
  | append_singleton bindings b ih =>
    obtain ⟨nodes, words, mark, harena, h⟩ := ih
    obtain ⟨nodes', words', mark', hbind, h'⟩ := h.bind b
    refine ⟨nodes', words', mark', ?_, h'⟩
    rw [ofKeymap?_concat, harena, Option.bind_some, hbind, Option.map_some]

/-! ### Walking -/

namespace Compiled

variable {m : Keymap} {t : Trie}

/-- An edge leaves the node of a word exactly where a way leaves the node of the trie. -/
theorem isSome_lookup (h : Compiled m.bindings nodes words mark) (hi : words[i]? = some s)
    (hnode : nodes[i]? = some node) (ht : (Trie.ofKeymap m).descend? s = some t) (c : Char) :
    (node.edges.lookup c).isSome ↔ (t.child? c).isSome := by
  calc (node.edges.lookup c).isSome
      ↔ ∃ j, words[j]? = some (s ++ [c]) := by
        simp only [Option.isSome_iff_exists, (h.layout.fits i node s hnode hi).edge]
    _ ↔ s ++ [c] ∈ words := List.mem_iff_getElem?.symm
    _ ↔ ((Trie.ofKeymap m).descend? (s ++ [c])).isSome := by
        rw [h.mem_iff, Trie.isSome_descend?_ofKeymap, Keymap.Begins]
    _ ↔ (t.child? c).isSome := by rw [Trie.descend?_concat ht]

/-- The node of a word has edges exactly when the node of the trie has. -/
theorem isEmpty_edges (h : Compiled m.bindings nodes words mark) (hi : words[i]? = some s)
    (hnode : nodes[i]? = some node) (ht : (Trie.ofKeymap m).descend? s = some t) :
    node.edges.isEmpty = t.edges.isEmpty := by
  have hiff : node.edges.isEmpty = false ↔ t.edges.isEmpty = false := by
    rw [Trie.isEmpty_edges_eq_false, Trie.isEmpty_edges_eq_false]
    exact exists_congr (h.isSome_lookup hi hnode ht)
  rwa [Bool.coe_false_iff_false, Bool.not_inj_iff] at hiff

/-- The node of a word is marked with a binding of the event that stands in the trie. -/
theorem event (h : Compiled m.bindings nodes words mark) (hi : words[i]? = some s)
    (hnode : nodes[i]? = some node) (ht : (Trie.ofKeymap m).descend? s = some t) :
    node.terminal? = none ∧ t.event? = none ∨
      ∃ number b, node.terminal? = some number ∧ m.bindings[number]? = some b ∧
        t.event? = some b.event := by
  have hat : t.event? = m.lookup s := by
    rw [← Trie.at?_ofKeymap, Trie.at?, ht, Option.bind_some]
  rw [(h.layout.fits i node s hnode hi).terminal, hat, Keymap.lookup]
  have hmark := h.mark_eq s
  cases hb : m.bindings.reverse.find? (·.sequence = s) with
  | none =>
    rw [hb, Option.map_none, Option.map_eq_none_iff] at hmark
    exact .inl ⟨hmark, rfl⟩
  | some b =>
    rw [hb, Option.map_some] at hmark
    obtain ⟨number, hnumber, hbinding⟩ := Option.map_eq_some_iff.1 hmark
    exact .inr ⟨number, b, hnumber, hbinding, rfl⟩

end Compiled

/-- The longest bound sequence that was found, by its number and by its event. -/
inductive Agrees (bindings : List Binding) : Option (Nat × Nat) → Option (Nat × KeyEvent) → Prop
  | none : Agrees bindings none none
  | some {length number b} (hb : bindings[number]? = some b) :
      Agrees bindings (some (length, number)) (some (length, b.event))

/-- A walk along the arena has found what a walk along the trie has found. -/
structure Finds (bindings : List Binding) (words : List (List Char)) (s : List Char) (walk : Walk)
    (other : Trie.Walk) : Prop where
  longest : Agrees bindings walk.longest other.longest
  exhausted : walk.exhausted = other.node?.isSome
  last : walk.exhausted = true → words[walk.last]? = some s

/-- A walk along the arena finds what a walk along the trie finds. -/
theorem Compiled.walk {m : Keymap} {t : Trie} {longest : Option (Nat × Nat)}
    {longest' : Option (Nat × KeyEvent)} (h : Compiled m.bindings nodes words mark)
    (hi : words[i]? = some s) (ht : (Trie.ofKeymap m).descend? s = some t) (depth : Nat)
    (hlongest : Agrees m.bindings longest longest') (cs : List Char) :
    ∃ walk, walk? nodes i depth longest cs = some walk ∧
      Finds m.bindings words (s ++ cs) walk (t.walk depth longest' cs) := by
  induction cs generalizing i s t depth longest longest' with
  | nil => exact ⟨_, rfl, hlongest, rfl, fun _ => by simpa using hi⟩
  | cons c cs ih =>
    obtain ⟨node, hnode⟩ := h.layout.exists_node hi
    have hiff := h.isSome_lookup hi hnode ht c
    cases hchild : t.child? c with
    | none =>
      have hlookup : node.edges.lookup c = none :=
        Option.not_isSome_iff_eq_none.1 (mt hiff.1 (by simp [hchild]))
      refine ⟨⟨longest, i, false⟩, by simp [walk?, hnode, hlookup], ?_⟩
      rw [Trie.walk, hchild]
      exact ⟨hlongest, rfl, by simp⟩
    | some next =>
      obtain ⟨j, hlookup⟩ := Option.isSome_iff_exists.1 (hiff.2 (by simp [hchild]))
      have hj : words[j]? = some (s ++ [c]) :=
        ((h.layout.fits i node s hnode hi).edge c j).1 hlookup
      obtain ⟨reached, hreached⟩ := h.layout.exists_node hj
      have hnext : (Trie.ofKeymap m).descend? (s ++ [c]) = some next :=
        (Trie.descend?_concat ht).trans hchild
      rw [List.append_cons, Trie.walk, hchild]
      simp only
      obtain ⟨hterminal, hevent⟩ | ⟨number, b, hterminal, hb, hevent⟩ := h.event hj hreached hnext
      · obtain ⟨walk, hwalk, hfinds⟩ := ih hj hnext (depth + 1) hlongest
        rw [hevent]
        exact ⟨walk, by simp [walk?, hnode, hlookup, hreached, hterminal, hwalk], hfinds⟩
      · have hfound : Agrees m.bindings (some (depth + 1, number)) (some (depth + 1, b.event)) :=
          .some hb
        obtain ⟨walk, hwalk, hfinds⟩ := ih hj hnext (depth + 1) hfound
        rw [hevent]
        exact ⟨walk, by simp [walk?, hnode, hlookup, hreached, hterminal, hwalk], hfinds⟩

/-- The arena of a keymap gives the verdicts of its trie, and no number is out of range. -/
theorem exists_resolve?_eq (m : Keymap) :
    ∃ arena, ofKeymap? m = some arena ∧
      ∀ waiting, arena.resolve? waiting = some ((Trie.ofKeymap m).resolve waiting) := by
  obtain ⟨nodes, words, mark, harena, h⟩ := exists_compiled m
  refine ⟨_, harena, fun waiting => ?_⟩
  obtain ⟨⟨longest, last, exhausted⟩, hwalk, hlongest, hexhausted, hlast⟩ :=
    h.walk h.layout.root rfl 0 .none waiting
  rw [List.nil_append] at hlast
  cases waiting with
  | nil =>
    cases hwalk
    rfl
  | cons c rest =>
    simp only at hlongest hexhausted hlast
    -- behind a character the walk is no longer at the root
    have hroot : exhausted = true → last ≠ 0 := by
      rintro hend rfl
      have hword := hlast hend
      rw [h.layout.root] at hword
      cases hword
    rw [Trie.resolve]
    have hnode := Trie.walk_node? (Trie.ofKeymap m) 0 none (c :: rest)
    generalize (Trie.ofKeymap m).walk 0 none (c :: rest) = other at *
    obtain ⟨longest', node?⟩ := other
    simp only at hlongest hexhausted hnode ⊢
    cases node? with
    | none =>
      cases hlongest with
      | none => simp [resolve?, hwalk, hexhausted]
      | some hb => simp [resolve?, hwalk, hexhausted, hb]
    | some reached =>
      have hend : exhausted = true := hexhausted
      cases hlongest with
      | none => simp [resolve?, hwalk, hend, hroot hend]
      | some hb =>
        obtain ⟨node, hlastNode⟩ := h.layout.exists_node (hlast hend)
        have hedges := h.isEmpty_edges (hlast hend) hlastNode hnode.symm
        simp [resolve?, hwalk, hend, hb, hlastNode, hedges]

/-- Two of three characters of a bound sequence, of which the first is bound alone. -/
example :
    (ofKeymap? ((Keymap.empty.bindFunction ['a'] ['f']).bindFunction ['a', 'b', 'c'] ['g'])).bind
      (·.resolve? ['a', 'b']) = some (.bound (.function ['f']) 1 true) := by decide

end LineEditor.Keys.Arena

namespace LineEditor.Keymap

/-- **Longest match.** Whatever is bound, and whatever characters wait: a keymap is compiled and the
characters are resolved without a number that is out of range, and the arena and the trie both say
what the rule says. -/
theorem resolves_longest_match (m : Keymap) :
    ∃ arena, Keys.Arena.ofKeymap? m = some arena ∧ ∀ waiting,
      arena.resolve? waiting ≠ none ∧ ∀ v,
        (arena.resolve? waiting = some v ↔ m.Says waiting v) ∧
          ((Keys.Trie.ofKeymap m).resolve waiting = v ↔ m.Says waiting v) := by
  obtain ⟨arena, harena, hresolve⟩ := Keys.Arena.exists_resolve?_eq m
  refine ⟨arena, harena, fun waiting => ?_⟩
  rw [hresolve]
  refine ⟨nofun, fun v => ⟨?_, Keys.Trie.resolve_eq_iff m waiting v⟩⟩
  rw [Option.some.injEq]
  exact Keys.Trie.resolve_eq_iff m waiting v

end LineEditor.Keymap
