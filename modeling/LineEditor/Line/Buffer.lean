import LineEditor.Line.Edit
import LineEditor.Memory

/-!
# Lines in memory

A `Buffer` is a line as it lies in memory: its characters in a vector, at four bytes each, and the
cursor as a word. Likewise a `Shelf` holds the entries of a history, which are vectors in a vector,
at 24 bytes each, and the position of the browsing user as a word. All that is computed with them is
computed in words, and may be at fault: nothing says that the cursor is within the line, or that a
position is that of an entry.

An `Operation` is a change of a line with its sizes, positions and distances as words; it may also
be a built-in function, which takes the history into account.
-/

namespace LineEditor

open Memory (Fault Vec)

/-- A text in memory. -/
abbrev StoredText := Vec Char 4

/-- A line in memory. -/
structure Buffer where
  /-- The characters. -/
  chars : StoredText := .empty
  /-- The number of characters before the cursor. -/
  cursor : UInt64 := 0
  deriving DecidableEq, Repr

namespace Buffer

/-- The line that holds a text, with the cursor at its end. -/
def ofStored (text : StoredText) : Buffer := { chars := text, cursor := text.length }

/-- Puts characters before the cursor. -/
def insert (b : Buffer) (text : StoredText) : Except Fault Buffer := do
  let chars ← b.chars.splice b.cursor b.cursor text
  let cursor ← Memory.add b.cursor text.length
  return { chars, cursor }

/-- Keeps the first characters only; the cursor stays within them. -/
def truncate (b : Buffer) (size : UInt64) : Buffer :=
  let chars := b.chars.truncate size
  { chars, cursor := min b.cursor chars.length }

/-- Puts the cursor at a position, or at the end when that is nearer. -/
def moveTo (b : Buffer) (position : UInt64) : Buffer :=
  { b with cursor := min position b.chars.length }

/-- Moves the cursor by a distance; the distance that it has moved. -/
def moveBy (b : Buffer) (distance : Int64) : Except Fault (Buffer × Int64) := do
  let cursor := min (Memory.saturatingAddSigned b.cursor distance) b.chars.length
  let moved ← Memory.subSigned cursor.toInt64 b.cursor.toInt64
  return ({ b with cursor }, moved)

/-- What a deletion removes: the positions where it starts and stops. -/
def deleted (b : Buffer) (distance : Int64) : UInt64 × UInt64 :=
  if distance < 0 then (Memory.saturatingSub b.cursor (Memory.magnitude distance), b.cursor)
  else (b.cursor, min (Memory.saturatingAdd b.cursor (Memory.magnitude distance)) b.chars.length)

/-- Deletes characters on one side of the cursor; the number of them. -/
def delete (b : Buffer) (distance : Int64) : Except Fault (Buffer × UInt64) := do
  let (start, stop) := b.deleted distance
  let chars ← b.chars.drain start stop
  let removed ← Memory.sub stop start
  return ({ chars, cursor := start }, removed)

end Buffer

/-- The entries of a history in memory. -/
structure Shelf where
  /-- The entries, oldest first. -/
  entries : Vec StoredText 24
  /-- The position of the entry that is shown, while browsing. -/
  position? : Option UInt64
  deriving DecidableEq, Repr

namespace Shelf

/-- The entries of a history are put into memory. -/
def ofHistory (h : History) : Except Fault Shelf := do
  let entries ← h.entries.mapM Vec.ofList
  return { entries := ← Vec.ofList entries, position? := h.pos?.map .ofNat }

/-- Shows the entry before the one that is shown, or the newest when none is. -/
def previous (shelf : Shelf) : Except Fault (Shelf × Option StoredText) :=
  match shelf.position? with
  | none =>
    if shelf.entries.length = 0 then return (shelf, none)
    else do
      let position ← Memory.sub shelf.entries.length 1
      return ({ shelf with position? := some position }, shelf.entries.get? position)
  | some i =>
    if i = 0 then return (shelf, none)
    else do
      let position ← Memory.sub i 1
      return ({ shelf with position? := some position }, shelf.entries.get? position)

/-- Shows the entry after the one that is shown. -/
def next (shelf : Shelf) : Except Fault (Shelf × Option StoredText) :=
  match shelf.position? with
  | some i => do
    let position ← Memory.add i 1
    if position < shelf.entries.length then
      return ({ shelf with position? := some position }, shelf.entries.get? position)
    else return ({ shelf with position? := none }, none)
  | none => return (shelf, none)

end Shelf

/-- What built-in functions work on: the history and the line. -/
structure Store where
  /-- The history. -/
  shelf : Shelf
  /-- The line. -/
  buffer : Buffer := {}
  deriving DecidableEq, Repr

/-- What a built-in function does in memory. -/
def Builtin.perform (b : Builtin) (store : Store) : Except Fault Store :=
  let { shelf, buffer } := store
  match b with
  | .backwardChar => return { shelf, buffer := (← buffer.moveBy (-1)).1 }
  | .forwardChar => return { shelf, buffer := (← buffer.moveBy 1).1 }
  | .beginningOfLine => return { shelf, buffer := buffer.moveTo 0 }
  | .endOfLine => return { shelf, buffer := buffer.moveTo buffer.chars.length }
  | .backwardDeleteChar => return { shelf, buffer := (← buffer.delete (-1)).1 }
  | .deleteChar => return { shelf, buffer := (← buffer.delete 1).1 }
  | .killLine => return { shelf, buffer := buffer.truncate buffer.cursor }
  | .discardLine => do
    let distance ← Memory.neg buffer.cursor.toInt64
    return { shelf, buffer := (← buffer.delete distance).1 }
  | .previousHistory => do
    match ← shelf.previous with
    | (shelf, some entry) => return { shelf, buffer := .ofStored entry }
    | (shelf, none) => return { shelf, buffer }
  | .nextHistory =>
    match shelf.position? with
    | none => return { shelf, buffer }
    | some _ => do
      match ← shelf.next with
      | (shelf, some entry) => return { shelf, buffer := .ofStored entry }
      | (shelf, none) => return { shelf, buffer := .ofStored .empty }

/-- A change of a line. -/
inductive Operation where
  /-- Starts over with a text, the cursor at its end. -/
  | load (text : List Char)
  /-- Puts a text in place of the line, the cursor at its end. -/
  | replace (text : List Char)
  /-- Puts characters before the cursor. -/
  | insert (text : List Char)
  /-- Keeps the first characters only. -/
  | truncate (size : UInt64)
  /-- Puts the cursor at a position. -/
  | moveTo (position : UInt64)
  /-- Moves the cursor by a distance. -/
  | moveBy (distance : Int64)
  /-- Deletes characters on one side of the cursor. -/
  | delete (distance : Int64)
  /-- Applies a built-in function. -/
  | call (b : Builtin)
  deriving DecidableEq, Repr

namespace Operation

/-- The edit that an operation carries out in memory. -/
def edit : Operation → Edit
  | .load text | .replace text => .load text
  | .insert text => .insert text
  | .truncate size => .truncate size.toNat
  | .moveTo position => .moveTo position.toNat
  | .moveBy distance => .moveBy distance.toInt
  | .delete distance => .delete distance.toInt
  | .call b => .call b.name

/-- Carries out an operation in memory. A text that is put into the line is in memory, too. -/
def perform (operation : Operation) (store : Store) : Except Fault (Store × EditAnswer) :=
  match operation with
  | .load text | .replace text => do
    return ({ store with buffer := .ofStored (← Vec.ofList text) }, .nothing)
  | .insert text => do
    return ({ store with buffer := ← store.buffer.insert (← Vec.ofList text) }, .nothing)
  | .truncate size => return ({ store with buffer := store.buffer.truncate size }, .nothing)
  | .moveTo position => return ({ store with buffer := store.buffer.moveTo position }, .nothing)
  | .moveBy distance => do
    let (buffer, moved) ← store.buffer.moveBy distance
    return ({ store with buffer }, .moved moved.toInt)
  | .delete distance => do
    let (buffer, removed) ← store.buffer.delete distance
    return ({ store with buffer }, .removed removed.toNat)
  | .call b => do
    return (← b.perform store, .found true)

/-- Carries out operations on an empty line, with a history that is put into memory first; the
answers to them. -/
def run (history : History) (operations : List Operation) :
    Except Fault (Store × List EditAnswer) := do
  let shelf ← Shelf.ofHistory history
  operations.foldlM
    (fun (store, answers) operation => do
      let (store, answer) ← operation.perform store
      return (store, answers ++ [answer]))
    ({ shelf }, [])

end Operation

end LineEditor
