import LineEditor.Line.Builtin

/-!
# Edits as data

A single edit of a line and its history, and a query of either, as a value: a list of edits is an
editing function (`EditFunction.ofEdits`), and a script of edits can be run and its answers shown.
-/

namespace LineEditor

/-- One operation on a line and its history. -/
inductive Edit where
  /-- Starts over with a text, the cursor at its end. -/
  | load (text : List Char)
  /-- Puts characters before the cursor. -/
  | insert (text : List Char)
  /-- Keeps the first characters only. -/
  | truncate (size : Nat)
  /-- Puts the cursor at a position. -/
  | moveTo (position : Nat)
  /-- Moves the cursor by a distance. -/
  | moveBy (distance : Int)
  /-- Deletes characters on one side of the cursor. -/
  | delete (distance : Int)
  /-- Asks for the character at an index. -/
  | charAt (index : Nat)
  /-- Asks for the length of the line. -/
  | length
  /-- Applies the built-in function of a name. -/
  | call (name : List Char)
  /-- Replaces the history by an empty one with a cap. -/
  | newHistory (cap : Nat)
  /-- Enters a line into the history. -/
  | push (line : List Char)
  /-- Steps to the previous entry of the history, without touching the line. -/
  | previous
  /-- Steps to the next entry of the history, without touching the line. -/
  | next
  /-- Asks for the entry at an index of the history. -/
  | entryAt (index : Nat)
  /-- Asks for the size and the cap of the history. -/
  | historySize
  /-- Asks for all entries of the history. -/
  | entries
  deriving DecidableEq, Repr

/-- What an edit answers. -/
inductive EditAnswer where
  /-- Nothing. -/
  | nothing
  /-- The distance that the cursor has moved. -/
  | moved (distance : Int)
  /-- The number of characters that were removed. -/
  | removed (count : Nat)
  /-- The character asked for, if there is one. -/
  | char (c : Option Char)
  /-- The length of the line. -/
  | length (length : Nat)
  /-- Whether there is a function of that name. -/
  | found (found : Bool)
  /-- The entry of the history, if there is one. -/
  | entry (entry : Option (List Char))
  /-- The number of entries of the history, and its cap. -/
  | historySize (size cap : Nat)
  /-- The entries of the history, oldest first. -/
  | entries (entries : List (List Char))
  deriving DecidableEq, Repr

/-- Carries out one edit. -/
def Edit.apply (edit : Edit) (history : History) (line : Line) : History × Line × EditAnswer :=
  match edit with
  | .load text => (history, .ofText text, .nothing)
  | .insert text => (history, line.insert text, .nothing)
  | .truncate size => (history, line.truncate size, .nothing)
  | .moveTo position => (history, line.moveTo position, .nothing)
  | .moveBy distance =>
    let moved := line.moveBy distance
    (history, moved, .moved (moved.cursor - line.cursor))
  | .delete distance =>
    let shorter := line.delete distance
    (history, shorter, .removed (line.text.length - shorter.text.length))
  | .charAt index => (history, line, .char line.text[index]?)
  | .length => (history, line, .length line.text.length)
  | .call name =>
    match Builtin.ofName? name with
    | some builtin =>
      let (history, line) := builtin.apply history line
      (history, line, .found true)
    | none => (history, line, .found false)
  | .newHistory cap => (.empty cap, line, .nothing)
  | .push entry => (history.push entry, line, .nothing)
  | .previous =>
    let (history, entry) := history.previous
    (history, line, .entry entry)
  | .next =>
    let (history, entry) := history.next
    (history, line, .entry entry)
  | .entryAt index => (history, line, .entry history.entries[index]?)
  | .historySize => (history, line, .historySize history.entries.length history.cap)
  | .entries => (history, line, .entries history.entries)

/-- Carries out edits one after another; the answers to them, in order. -/
def Edit.run (edits : List Edit) (history : History) (line : Line) :
    History × Line × List EditAnswer :=
  edits.foldl
    (fun (history, line, answers) edit =>
      let (history, line, answer) := edit.apply history line
      (history, line, answers ++ [answer]))
    (history, line, [])

/-- One more edit. -/
theorem Edit.run_concat (edits : List Edit) (edit : Edit) (history : History) (line : Line) :
    Edit.run (edits ++ [edit]) history line =
      let (history, line, answers) := Edit.run edits history line
      let (history, line, answer) := edit.apply history line
      (history, line, answers ++ [answer]) := by
  rw [run, List.foldl_append]
  rfl

/-- The editing function that carries out a list of edits. -/
def EditFunction.ofEdits (edits : List Edit) : EditFunction := fun history line =>
  edits.foldl
    (fun (history, line) edit =>
      let (history, line, _) := edit.apply history line
      (history, line))
    (history, line)

end LineEditor
