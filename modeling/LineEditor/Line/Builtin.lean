import LineEditor.Line.Basic
import LineEditor.History

/-!
# Editing functions

An editing function changes the line and the history together. The built-in ones move the cursor,
delete around it, or fetch an entry of the history into the line; `Builtin.name` is how key bindings
refer to them.
-/

namespace LineEditor

/-- What a key can be bound to do to the history and the line. -/
abbrev EditFunction := History → Line → History × Line

/-- The built-in editing functions. -/
inductive Builtin where
  /-- Moves the cursor one character left. -/
  | backwardChar
  /-- Moves the cursor one character right. -/
  | forwardChar
  /-- Moves the cursor to the beginning. -/
  | beginningOfLine
  /-- Moves the cursor to the end. -/
  | endOfLine
  /-- Deletes the character before the cursor. -/
  | backwardDeleteChar
  /-- Deletes the character after the cursor. -/
  | deleteChar
  /-- Deletes everything after the cursor. -/
  | killLine
  /-- Deletes everything before the cursor. -/
  | discardLine
  /-- Fetches the entry before the one that is shown. -/
  | previousHistory
  /-- Fetches the entry after the one that is shown. -/
  | nextHistory
  deriving DecidableEq, Repr

namespace Builtin

/-- All built-in functions. -/
def all : List Builtin :=
  [.backwardChar, .forwardChar, .beginningOfLine, .endOfLine, .backwardDeleteChar, .deleteChar,
    .killLine, .discardLine, .previousHistory, .nextHistory]

theorem mem_all (b : Builtin) : b ∈ all := by cases b <;> decide

/-- The name that key bindings use. -/
def name : Builtin → List Char
  | .backwardChar => "backward-char".toList
  | .forwardChar => "forward-char".toList
  | .beginningOfLine => "beginning-of-line".toList
  | .endOfLine => "end-of-line".toList
  | .backwardDeleteChar => "backward-delete-char".toList
  | .deleteChar => "delete-char".toList
  | .killLine => "kill-line".toList
  | .discardLine => "unix-line-discard".toList
  | .previousHistory => "previous-history".toList
  | .nextHistory => "next-history".toList

/-- The built-in function of a name. -/
def ofName? (name : List Char) : Option Builtin := all.find? (·.name = name)

/-- Every built-in function is found by its name. -/
theorem ofName?_name (b : Builtin) : ofName? b.name = some b := by cases b <;> rfl

/-- What a built-in function does. Past the newest entry the line becomes empty; while no entry is
shown, the function for the next one leaves the line alone. -/
def apply (b : Builtin) : EditFunction := fun history line =>
  match b with
  | .backwardChar => (history, line.moveBy (-1))
  | .forwardChar => (history, line.moveBy 1)
  | .beginningOfLine => (history, line.moveTo 0)
  | .endOfLine => (history, line.moveTo line.text.length)
  | .backwardDeleteChar => (history, line.delete (-1))
  | .deleteChar => (history, line.delete 1)
  | .killLine => (history, line.truncate line.cursor)
  | .discardLine => (history, line.delete (-line.cursor))
  | .previousHistory =>
    match history.previous with
    | (history, some entry) => (history, .ofText entry)
    | (history, none) => (history, line)
  | .nextHistory =>
    match history.pos? with
    | none => (history, line)
    | some _ =>
      match history.next with
      | (history, some entry) => (history, .ofText entry)
      | (history, none) => (history, .ofText [])

end Builtin

/-- Editing functions by name. -/
structure FunctionTable where
  /-- The functions, the one added last first. -/
  entries : List (List Char × EditFunction) := []

namespace FunctionTable

instance : Inhabited FunctionTable := ⟨{}⟩

/-- Adds a function; it hides an earlier one of the same name. -/
def insert (t : FunctionTable) (name : List Char) (f : EditFunction) : FunctionTable :=
  ⟨(name, f) :: t.entries.filter (·.1 ≠ name)⟩

/-- The function of a name. -/
def get? (t : FunctionTable) (name : List Char) : Option EditFunction :=
  t.entries.lookup name

/-- Adds the built-in functions. -/
def insertBuiltins (t : FunctionTable) : FunctionTable :=
  Builtin.all.foldl (fun t b => t.insert b.name b.apply) t

end FunctionTable

end LineEditor
