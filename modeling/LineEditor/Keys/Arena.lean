import LineEditor.Keys.Trie

/-!
# The trie in an arena

A trie can be laid out in a row of nodes: edges lead to nodes by their numbers, and a node tells the
number of the binding whose sequence ends there. The first node is the root, and a new node is put
at the end of the row. A number may be out of range, so everything that looks one up may fail: `none`
says that it did.
-/

namespace LineEditor.Keys

/-- A node in a row: the number of the binding that ends here, and the ways on. -/
structure ArenaNode where
  /-- The number of the binding. -/
  terminal? : Option Nat := none
  /-- The ways on, to nodes by their numbers, the oldest first. -/
  edges : List (Char × Nat) := []
  deriving DecidableEq, Repr, Inhabited

/-- A trie as a row of nodes, and the bindings that it was made of. -/
structure Arena where
  /-- The nodes. -/
  nodes : List ArenaNode
  /-- The bindings, oldest first. -/
  bindings : List Binding
  deriving DecidableEq, Repr

/-- A node of which nothing is known yet. -/
def ArenaNode.leaf : ArenaNode := {}

namespace Arena

/-- The number of the node that a character leads to; without such an edge, a new one leads to a new
node. -/
def advance? (nodes : List ArenaNode) (i : Nat) (c : Char) : Option (List ArenaNode × Nat) := do
  let node ← nodes[i]?
  match node.edges.lookup c with
  | some next => return (nodes, next)
  | none =>
    let new := nodes.length
    return (nodes.set i { node with edges := node.edges ++ [(c, new)] } ++ [.leaf], new)

/-- The number of the node that a sequence leads to, with new nodes where they are missing. -/
def path? (nodes : List ArenaNode) (i : Nat) : List Char → Option (List ArenaNode × Nat)
  | [] => some (nodes, i)
  | c :: rest => do
    let (nodes, next) ← advance? nodes i c
    path? nodes next rest

/-- Binds a sequence to the binding of a number, in place of an earlier one. -/
def bind? (nodes : List ArenaNode) (sequence : List Char) (number : Nat) :
    Option (List ArenaNode) := do
  let (nodes, last) ← path? nodes 0 sequence
  let node ← nodes[last]?
  return nodes.set last { node with terminal? := some number }

/-- The arena of a keymap. -/
def ofKeymap? (m : Keymap) : Option Arena := do
  let nodes ← m.bindings.zipIdx.foldlM (fun nodes (b, number) => bind? nodes b.sequence number) [.leaf]
  return { nodes, bindings := m.bindings }

/-- What a walk along some characters has found. -/
structure Walk where
  /-- The length of the longest bound sequence on the way, and the number of its binding. -/
  longest : Option (Nat × Nat)
  /-- The number of the last node on the way. -/
  last : Nat
  /-- Whether there was a way for all the characters. -/
  exhausted : Bool

/-- Walks along the characters; `depth` characters have been passed, and `longest` is the longest
bound sequence among them. -/
def walk? (nodes : List ArenaNode) (i depth : Nat) (longest : Option (Nat × Nat)) :
    List Char → Option Walk
  | [] => some { longest, last := i, exhausted := true }
  | c :: rest => do
    let node ← nodes[i]?
    match node.edges.lookup c with
    | none => return { longest, last := i, exhausted := false }
    | some next =>
      let reached ← nodes[next]?
      let longest := match reached.terminal? with
        | some number => some (depth + 1, number)
        | none => longest
      walk? nodes next (depth + 1) longest rest

/-- What the waiting characters mean. -/
def resolve? (a : Arena) (waiting : List Char) : Option Verdict := do
  let walk ← walk? a.nodes 0 0 none waiting
  match walk.longest with
  | some (length, number) =>
    let binding ← a.bindings[number]?
    if walk.exhausted then
      let reached ← a.nodes[walk.last]?
      return .bound binding.event length (!reached.edges.isEmpty)
    else return .bound binding.event length false
  | none =>
    if waiting.isEmpty || (walk.exhausted && walk.last ≠ 0) then return .wait
    else
      let c ← waiting[0]?
      return .literal c

end Arena

end LineEditor.Keys
