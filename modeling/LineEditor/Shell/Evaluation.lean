import LineEditor.History
import LineEditor.Quoting.Basic
import LineEditor.Text.Blank

/-!
# A small command shell

`evaluate` reads a logical line as a command word and the text after it, once the quoting is taken
away, and gives the reply. Blanks before the command word do not count, and one blank separates it
from the rest. A line with no word has an empty reply.
-/

namespace LineEditor.Shell

/-- The command words. -/
def commands : List (List Char) :=
  ["echo".toList, "exit".toList, "help".toList, "history".toList, "quit".toList]

/-- What a line comes to. -/
inductive Reply where
  /-- A text to show. -/
  | output (text : List Char)
  /-- The end of the shell. -/
  | exit
  deriving DecidableEq, Repr

/-- A text with spaces before it, so that it is at least so long. -/
def padLeft (length : Nat) (text : List Char) : List Char :=
  List.replicate (length - text.length) ' ' ++ text

/-- The history as it is listed, each entry after its number. -/
def listing (entries : List (List Char)) : List Char :=
  List.intercalate ['\n'] <| entries.zipIdx.map fun (entry, i) =>
    padLeft 4 (Nat.toDigits 10 (i + 1)) ++ [' ', ' '] ++ entry

/-- The reply to a line. -/
def evaluate (line : List Char) (history : History) : Reply :=
  let (command, rest) := Text.cutAtBlank (Text.dropBlanks (Quoting.unquote line))
  if command.isEmpty then .output []
  else if command = "exit".toList ∨ command = "quit".toList then .exit
  else if command = "echo".toList then .output rest
  else if command = "help".toList then
    .output ("commands: ".toList ++ List.intercalate [' '] commands)
  else if command = "history".toList then .output (listing history.entries)
  else .output (command ++ ": command not found".toList)

end LineEditor.Shell
