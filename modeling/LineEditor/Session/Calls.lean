import LineEditor.Quoting.Insertion
import LineEditor.Session.World

/-!
# The calls on sessions and completions

What each call does to the world, and when it is refused. A refused call on a session changes
nothing. A call on a completion that is no longer waited for is refused as stale after its status
has moved.
-/

namespace LineEditor.World

variable [Text.Widths] {κ ν : Type}

/-- The world after a call, and whether the call was refused. -/
abbrev Result (κ ν : Type) := World κ ν × Except Refusal Unit

/-! ### Sessions -/

/-- Queues a task for a session that holds input that can be decoded, on its connection. -/
def schedule (w : World κ ν) (s : SessionId) : World κ ν :=
  match w.sessions[s]? with
  | none => w
  | some session =>
    match session.decoder.hasNext, session.connection? with
    | true, some c => w.changeConnection c fun conn => { conn with tasks := conn.tasks ++ [s] }
    | _, _ => w

/-- Puts a session on a connection, and makes it the receiver of everything there. -/
def install (w : World κ ν) (s : SessionId) (c : ConnectionId) : Result κ ν :=
  match w.sessions[s]?, w.connections[c]? with
  | some session, some conn =>
    if session.connection?.isSome then (w, .error .alreadyInstalled)
    else
      ((w.changeSession s fun session =>
          { session with
            connection? := some c
            savedInput? := conn.input?
            savedResize? := conn.resize? }).changeConnection c fun conn =>
          { conn with input? := some (.session s), resize? := some (.session s) },
        .ok ())
  | _, _ => (w, .error .notInstalled)

/-- Takes a session off its connection, whose former receivers come back; a live request is
dropped. -/
def uninstall (w : World κ ν) (s : SessionId) : Result κ ν :=
  match w.sessions[s]? with
  | none => (w, .error .notInstalled)
  | some session =>
    match session.connection? with
    | none => (w, .error .notInstalled)
    | some c =>
      let w := w.changeConnection c fun conn =>
        { conn with input? := session.savedInput?, resize? := session.savedResize? }
      (w.changeSession s fun session =>
          { session with
            connection? := none
            phase := .idle
            savedInput? := none
            savedResize? := none },
        .ok ())

/-- Makes a request live, writes its prompt, and sees to the input that waits. -/
def request (w : World κ ν) (s : SessionId) (r : Request κ) : Result κ ν :=
  match w.sessions[s]? with
  | none => (w, .error .notInstalled)
  | some session =>
    match session.connection? with
    | none => (w, .error .notInstalled)
    | some c =>
      if session.phase.isIdle then
        (((w.changeSession s fun session =>
            { session with
              phase := .editing { id := session.nextId, request := r }
              nextId := session.nextId + 1 }).write c r.prompt).schedule s,
          .ok ())
      else (w, .error .alreadyReading)

/-! ### Completions -/

/-- The connection and the entry that wait for a completion. -/
def waiting? (w : World κ ν) (completion : Completion) : Option (ConnectionId × Entry κ) :=
  match w.sessions[completion.session]? with
  | none => none
  | some session =>
    match session.connection?, session.phase with
    | some c, .completing entry => if entry.id = completion.entryId then some (c, entry) else none
    | _, _ => none

/-- Whether a text may be put into a line: its first control code, if it has one. -/
def unsupported? (text : List Char) : Option Char := text.find? (·.toNat < 32)

/-- Puts text into the line that waits for a completion, so that it reads literally there. -/
def complete (w : World κ ν) (k : CompletionId) (completion : Completion) (text : List Char)
    (terminal : Bool) : Result κ ν :=
  match unsupported? text with
  | some c => (w, .error (.unsupported c))
  | none =>
    if completion.status ≠ .pending then
      (w, .error (.illegalStatus .complete completion.status))
    else
      let w := w.setStatus k .inlining
      match w.waiting? completion with
      | none => (w, .error .stale)
      | some (c, entry) =>
        if text.isEmpty && !terminal then (w, .ok ())
        else
          let line := entry.line.insert (completion.snapshot.context.literally terminal text)
          ((w.changeSession completion.session fun session =>
              { session with phase := .completing { entry with line } }).write c
              (entry.line.redraw line),
            .ok ())

/-- Writes suggestions below the line that waits for a completion. -/
def suggest (w : World κ ν) (k : CompletionId) (completion : Completion) (text : List Char) :
    Result κ ν :=
  if completion.status = .pending ∨ completion.status = .completing then
    let w := w.setStatus k .completing
    match w.waiting? completion with
    | none => (w, .error .stale)
    | some (c, _) =>
      (w.write c (if completion.status = .pending then newRow ++ text else text), .ok ())
  else (w, .error (.illegalStatus .suggest completion.status))

/-- Ends a completion. The entry that waits for it is edited again; below suggestions, the prompt
and the line are written anew. -/
def finish (w : World κ ν) (k : CompletionId) (completion : Completion) : Result κ ν :=
  if completion.status = .completed then (w, .error (.illegalStatus .finish .completed))
  else
    let w := w.setStatus k .completed
    match w.sessions[completion.session]? with
    | none => (w, .ok ())
    | some session =>
      match session.phase with
      | .completing entry =>
        if entry.id = completion.entryId then
          let redrawn :=
            match completion.status, session.connection? with
            | .completing, some c =>
              w.write c (entry.prompt session.continuation ++ Line.empty.redraw entry.line)
            | _, _ => w
          ((redrawn.changeSession completion.session ({ · with phase := .editing entry })).schedule
            completion.session, .ok ())
        else (w, .ok ())
      | _ => (w, .ok ())

end LineEditor.World
