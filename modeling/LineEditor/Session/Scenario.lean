import LineEditor.Line.Edit
import LineEditor.Session.Machine
import LineEditor.Shell.CommandWord

/-!
# Scenarios

A scenario is client code as data: sessions and two connections to begin with, and steps, each of
which is a call under a name. The handlers that it hands over are lists of steps again, which are
taken when the handler runs, each with a note of its answer; a handler of lines can also have the
line evaluated by the shell, and make its request again.

`reports` takes the steps one by one and tells for each the answer, what happened, and the state
afterwards.
-/

namespace LineEditor.Scenario

/-- A note that a scenario leaves. -/
inductive Note where
  /-- The reply of the shell to a line. -/
  | reply (r : Shell.Reply)
  /-- The answer to a request that is made again. -/
  | again (a : Answer)
  /-- The answer to the step of a handler. -/
  | returned (step : String) (a : Answer)
  /-- The answer to a step of the scenario itself. -/
  | answered (a : Answer)

mutual

/-- A call under a name. -/
inductive Step where
  /-- A step. -/
  | mk (name : String) (call : Call Handler Note)

/-- A handler that takes steps. -/
inductive Handler where
  /-- The handler of the lines of a request, which it holds itself so as to make it again. -/
  | line (s : SessionId) (prompt : List Char) (onComplete? : Option Handler)
      (shell again : Bool) (steps : List Step)
  /-- A handler of completions, of waiting input or of changes of size. -/
  | plain (steps : List Step)
  /-- The handler of completions that completes command words. -/
  | commandWord

end

namespace Step

/-- The name of a step. -/
def name : Step → String
  | .mk name _ => name

/-- The call of a step. -/
def call : Step → Call Handler Note
  | .mk _ call => call

/-- Takes some steps, each with a note of its answer, and then goes on. -/
def sequence (steps : List Step) (rest : Program Handler Note) : Program Handler Note :=
  steps.foldr
    (fun step rest => .call step.call fun a => .andThen (.note (.returned step.name a)) rest) rest

end Step

namespace Handler

/-- The request that a handler of lines holds. -/
def request? : Handler → Option (SessionId × Request Handler)
  | h@(.line s prompt onComplete? _ _ _) => some (s, { prompt, onLine := h, onComplete? })
  | _ => none

/-- What a handler does with a line. The shell enters it into the history before it evaluates it. -/
def onLine (h : Handler) (line : List Char) : Program Handler Note :=
  match h with
  | .line s prompt onComplete? shell again steps =>
    let repeated : Program Handler Note :=
      if again then
        .call (.request s { prompt, onLine := h, onComplete? }) fun a => .ofCall (.note (.again a))
      else .done
    let rest := Step.sequence steps repeated
    if shell then
      .andThen (.changeHistory s (·.push line)) <| .call (.history s) fun a =>
        match a with
        | .history history => .andThen (.note (.reply (Shell.evaluate line history))) rest
        | _ => rest
    else rest
  | .plain steps => Step.sequence steps .done
  | .commandWord => .done

/-- What a handler does to complete a word. -/
def onComplete (h : Handler) (k : CompletionId) (c : Completion) : Program Handler Note :=
  match h with
  | .commandWord => Shell.completeCommand k c.snapshot
  | .plain steps | .line _ _ _ _ _ steps => Step.sequence steps .done

/-- What a handler of any other kind does. -/
def takeSteps : Handler → Program Handler Note
  | .plain steps | .line _ _ _ _ _ steps => Step.sequence steps .done
  | .commandWord => .done

end Handler

/-- The client that scenarios are. -/
def client : Client Handler Note where
  onLine := Handler.onLine
  onComplete := Handler.onComplete
  onRead h _ := h.takeSteps
  onResize h _ := h.takeSteps

/-- The world of scenarios. -/
abbrev World := LineEditor.World Handler Note

/-- How a session begins: with a keymap, and with the built-in functions or bare of them. -/
def freshSession (keymap : Keymap) (bare : Bool) : Session Handler :=
  { decoder := .ofKeymap keymap
    functions := if bare then {} else FunctionTable.insertBuiltins {} }

/-- The world that a scenario begins with: its sessions, and two connections. Unless it installs
sessions itself, the first is installed on the first connection. -/
def start (sessions : List (Session Handler)) (manual : Bool) : World :=
  let w : World := { sessions, connections := [{}, {}] }
  if manual then w else (w.install 0 0).1

/-- What is told of a session: whether it is installed, whether a request is live, and the size of
its terminal. -/
structure SessionReport where
  /-- Whether it is on a connection. -/
  installed : Bool
  /-- Whether a request is live. -/
  reading : Bool
  /-- The size of its terminal, when it is known. -/
  size? : Option Size
  deriving DecidableEq, Repr

/-- What is told of a step. -/
structure Report where
  /-- The answer, unless the step has not come to its end. -/
  answer? : Option Answer
  /-- What happened, in order. -/
  log : List (Occurrence Note)
  /-- The sessions; nothing is told of one that was given up. -/
  sessions : List (Option SessionReport)
  /-- The number of tasks that wait on each connection. -/
  waiting : List Nat
  /-- How far each completion has come. -/
  statuses : List Status

/-- Joins writes to one connection that follow each other directly. -/
def joinWrites {ν : Type} : List (Occurrence ν) → List (Occurrence ν)
  | .wrote c text :: rest =>
    match joinWrites rest with
    | .wrote d more :: others =>
      if c = d then .wrote c (text ++ more) :: others
      else .wrote c text :: .wrote d more :: others
    | others => .wrote c text :: others
  | o :: rest => o :: joinWrites rest
  | [] => []

/-- Tells of a session. -/
def sessionReport (s : Session Handler) : Option SessionReport :=
  if s.released then none
  else some { installed := s.connection?.isSome, reading := !s.phase.isIdle, size? := s.size? }

/-- Tells of a step from the world after it, in which only what the step did is on record. -/
def report (w : World) : Report :=
  let (answer?, record) := match w.record with
    | .noted (.answered a) :: record => (some a, record)
    | record => (none, record)
  { answer?
    log := joinWrites record.reverse
    sessions := w.sessions.map sessionReport
    waiting := w.connections.map (·.tasks.length)
    statuses := w.completions.map Completion.status }

variable [Text.Widths]

/-- Takes a step of the scenario; only what it does is on record afterwards. -/
def take (fuel : Nat) (w : World) (step : Step) : World :=
  ({ w with record := [] } : World).exec client fuel <|
    .call step.call fun a => .ofCall (.note (.answered a))

/-- Takes the steps one by one, and tells of each. -/
def reports (fuel : Nat) : World → List Step → List Report
  | _, [] => []
  | w, step :: rest =>
    let w := take fuel w step
    report w :: reports fuel w rest

end LineEditor.Scenario
