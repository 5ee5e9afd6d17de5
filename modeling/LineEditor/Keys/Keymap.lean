import LineEditor.Keys.Event

/-!
# Key bindings

A keymap binds sequences of characters to events. Bindings are kept in the order in which they were
made, and of several for one sequence the last counts. The empty sequence cannot be bound.
-/

namespace LineEditor

/-- A sequence of characters and the event that it stands for. -/
structure Binding where
  /-- The characters that are typed. -/
  sequence : List Char
  /-- What they mean. -/
  event : KeyEvent
  deriving DecidableEq, Repr

/-- The bindings, in the order in which they were made. -/
structure Keymap where
  /-- The bindings, oldest first. -/
  bindings : List Binding := []
  deriving DecidableEq, Repr, Inhabited

namespace Keymap

/-- The keymap without bindings. -/
def empty : Keymap := {}

/-- Binds a sequence, unless it is empty. -/
def bind (m : Keymap) (sequence : List Char) (event : KeyEvent) : Keymap :=
  if sequence.isEmpty then m else ⟨m.bindings ++ [⟨sequence, event⟩]⟩

/-- Binds a sequence to a key. -/
def bindKey (m : Keymap) (sequence text : List Char) : Keymap := m.bind sequence (.key text)

/-- Binds a sequence to an editing function. -/
def bindFunction (m : Keymap) (sequence name : List Char) : Keymap :=
  m.bind sequence (.function name)

/-- What a sequence is bound to. -/
def lookup (m : Keymap) (sequence : List Char) : Option KeyEvent :=
  (m.bindings.reverse.find? (·.sequence = sequence)).map Binding.event

/-- The sequences of the cursor keys, after either of their two introductions. -/
def cursorKeys : List (Char × String) :=
  [('A', "previous-history"), ('B', "next-history"), ('C', "forward-char"), ('D', "backward-char")]

/-- The bindings that every session starts from: Enter and Tab, the usual control keys, and the
cursor keys of terminals. -/
def standard : Keymap :=
  let functions : List (List Char × String) :=
    [([Keys.delete], "backward-delete-char"),
      ([Keys.control 'H'], "backward-delete-char"),
      ([Keys.control 'D'], "delete-char"),
      ([Keys.control 'A'], "beginning-of-line"),
      ([Keys.control 'E'], "end-of-line"),
      ([Keys.control 'B'], "backward-char"),
      ([Keys.control 'F'], "forward-char"),
      ([Keys.control 'K'], "kill-line"),
      ([Keys.control 'U'], "unix-line-discard"),
      ([Keys.escape, '[', '3', '~'], "delete-char"),
      ([Keys.escape, '[', 'H'], "beginning-of-line"),
      ([Keys.escape, '[', 'F'], "end-of-line")]
      ++ cursorKeys.map (fun (letter, name) => ([Keys.escape, '[', letter], name))
      ++ cursorKeys.map (fun (letter, name) => ([Keys.escape, 'O', letter], name))
  functions.foldl (fun m (sequence, name) => m.bindFunction sequence name.toList)
    ((empty.bindKey [Keys.enter] [Keys.enter]).bindKey [Keys.tab] [Keys.tab])

end Keymap

end LineEditor
