import LineEditor.Session.Machine
import LineEditor.Shell.CommandWord
import LineEditor.Text.Width.Table

/-!
# The shell as a client

The program has one session on one connection. It asks for a line, enters the line into the history,
evaluates it, writes the reply, and asks for the next line, until a reply is the end of the shell or
a request is refused. The Tab key completes the command word.
-/

namespace LineEditor.Application

/-- The handlers that the shell hands over. -/
inductive Handler where
  /-- The handler of lines, which asks for the next line with a prompt. -/
  | line (prompt : List Char)
  /-- The handler of completions. -/
  | commandWord
  deriving DecidableEq, Repr

/-- The one note that the shell leaves. -/
inductive Signal where
  /-- The program is to quit. -/
  | quit
  deriving DecidableEq, Repr

/-- The world of the shell. -/
abbrev World := LineEditor.World Handler Signal

/-- The session of the program. -/
def session : SessionId := 0

/-- The connection of the program. -/
def terminal : ConnectionId := 0

/-- A text as a terminal shows it on rows of their own. -/
def onRows (text : List Char) : List Char :=
  text.flatMap fun c => if c = '\n' then newRow else [c]

/-- Asks for a line. -/
def ask (prompt : List Char) : Program Handler Signal :=
  .call (.request session { prompt, onLine := .line prompt, onComplete? := some .commandWord })
    fun
      | .refused _ => .ofCall (.note .quit)
      | _ => .done

/-- Writes what a line has put out, unless that is nothing, and then goes on. -/
def display (text : List Char) (rest : Program Handler Signal) : Program Handler Signal :=
  if text.isEmpty then rest
  else .andThen (.write terminal (onRows text)) (.andThen (.write terminal newRow) rest)

/-- What is done with a line. -/
def onLine (prompt line : List Char) : Program Handler Signal :=
  .andThen (.changeHistory session (·.push line)) <| .call (.history session) fun
    | .history history =>
      match Shell.evaluate line history with
      | .output text => display text (ask prompt)
      | .exit => .ofCall (.note .quit)
    | _ => .done

/-- The client that the shell is. -/
def client : Client Handler Signal where
  onLine
    | .line prompt, line => onLine prompt line
    | .commandWord, _ => .done
  onComplete
    | .commandWord, k, c => Shell.completeCommand k c.snapshot
    | .line _, _, _ => .done
  onRead _ _ := .done
  onResize _ _ := .done

end LineEditor.Application
