import LineEditor.Keys.Event
import LineEditor.Line.Builtin
import LineEditor.Line.Redraw
import LineEditor.Quoting.Basic

/-!
# Entering one logical line

A request asks the user for one logical line. Its `Entry` lives from the prompt to the Enter key
that ends the line, and handles the key events in between.

* A key puts its characters into the line, and a function edits it; either sends the terminal what
  takes it from the line before to the line after.
* Enter ends the physical line. While a quote or an escape is open the entry goes on with another
  physical line, behind a continuation prompt; the logical line is all of them joined by line feeds.
* Tab takes a `Snapshot` for completion: what the entered text stands for, and the word before the
  cursor, which begins after the last space, with the quoting at its end.

The physical lines and the reader say the same thing twice: the reader has read every stored line,
and a line feed after each.
-/

namespace LineEditor

/-- A request for a logical line: the prompt, and the handlers of the client, `κ`. -/
structure Request (κ : Type) where
  /-- What is written before the line. -/
  prompt : List Char
  /-- The handler of the line. -/
  onLine : κ
  /-- The handler of completions, if there are any. -/
  onComplete? : Option κ

/-- One live request, and what has been entered for it. -/
structure Entry (κ : Type) where
  /-- The number of the request in its session. -/
  id : Nat
  /-- The request. -/
  request : Request κ
  /-- The physical lines that Enter has ended. -/
  lines : List (List Char) := []
  /-- The physical line that is edited. -/
  line : Line := .empty
  /-- The reader of the ended lines, with a line feed after each. -/
  reader : Quoting.Reader := {}

/-- What a completion is asked for. -/
structure Snapshot where
  /-- What all that was entered stands for. -/
  line : List Char
  /-- What the word before the cursor stands for. -/
  word : List Char
  /-- The quoting at the end of that word. -/
  context : Quoting.Context
  deriving DecidableEq, Repr

/-- What an event comes to. -/
inductive Outcome (κ : Type) where
  /-- The entry goes on. -/
  | goesOn
  /-- The logical line is complete. -/
  | submitted (line : List Char)
  /-- The handler is asked to complete a word. -/
  | asked (handler : κ) (snapshot : Snapshot)

/-- An event handled: the entry and the history after it, what the terminal is sent, and what it
comes to. -/
structure Handled (κ : Type) where
  /-- The entry after the event. -/
  entry : Entry κ
  /-- The history after the event. -/
  history : History
  /-- What the terminal is sent. -/
  written : List Char
  /-- What the event comes to. -/
  outcome : Outcome κ

/-- What moves the terminal to a new row. -/
def newRow : List Char := ['\r', '\n']

/-- The word that ends a text: what follows its last space. -/
def lastWord (text : List Char) : List Char := (text.reverse.takeWhile (· ≠ ' ')).reverse

namespace Entry

variable [Text.Widths] {κ : Type}

/-- The prompt of the physical line that is edited. -/
def prompt (e : Entry κ) (continuation : List Char) : List Char :=
  if e.lines.isEmpty then e.request.prompt else continuation

/-- The snapshot that a completion gets. -/
def snapshot (e : Entry κ) : Snapshot :=
  let word := ({} : Quoting.Reader).feed (lastWord e.line.before)
  { line := (e.reader.feed e.line.text).output, word := word.output, context := word.context }

/-- The entry with an edited line, and what takes the terminal there. -/
def edited (e : Entry κ) (history : History) (line : Line) : Handled κ :=
  { entry := { e with line }, history, written := e.line.redraw line, outcome := .goesOn }

/-- The Enter key. -/
def enter (e : Entry κ) (history : History) (continuation : List Char) : Handled κ :=
  let reader := e.reader.feed e.line.text
  let lines := e.lines ++ [e.line.text]
  if reader.pending then
    { entry := { e with lines, line := .empty, reader := reader.feed ['\n'] }
      history
      written := newRow ++ continuation
      outcome := .goesOn }
  else
    { entry := { e with lines := [], line := .empty, reader := {} }
      history
      written := newRow
      outcome := .submitted (List.intercalate ['\n'] lines) }

/-- The Tab key; without a handler of completions it does nothing. -/
def complete (e : Entry κ) (history : History) : Handled κ :=
  { entry := e
    history
    written := []
    outcome :=
      match e.request.onComplete? with
      | some handler => .asked handler e.snapshot
      | none => .goesOn }

/-- Handles one event. A key is Enter or Tab when it stands for that character alone. -/
def handle (e : Entry κ) (functions : FunctionTable) (history : History)
    (continuation : List Char) : KeyEvent → Handled κ
  | .key text =>
    if text = [Keys.enter] then e.enter history continuation
    else if text = [Keys.tab] then e.complete history
    else e.edited history (e.line.insert text)
  | .function name =>
    match functions.get? name with
    | some f => e.edited (f history e.line).1 (f history e.line).2
    | none => e.edited history e.line

end Entry

end LineEditor
