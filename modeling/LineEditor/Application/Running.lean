import LineEditor.Application.Client
import LineEditor.Dispatch.Basic
import LineEditor.Settings.Basic
import LineEditor.Text.Utf8

/-!
# The running program

Input comes in blocks of bytes. A block is decoded, queued and dispatched; what the session asks its
connection to do later is queued behind it. The program quits when the shell says so, at the end of
the input, and at a block with an interrupt, which is lost as a whole. Only then does it come to
something (`Running.leave?`): it takes its session off the terminal, and the answer decides its exit
code. Before that it can fail to start (`Running.launch`), since it depends on its `Host`.

Every dispatch is over after finitely many steps, and `dispatchBound` and `stepBound` say how many:
each event takes at least one waiting character, sets at most `stepsPerEvent` steps in motion, and
queues at most one message.
-/

namespace LineEditor.Application

/-- What the dispatched messages act on. -/
structure State where
  /-- The world, with nothing on record. -/
  world : World
  /-- What was written, in order. -/
  output : List Char := []

/-- A message of the queue; the tasks are sessions whose waiting input is to be dealt with. -/
abbrev Message := Dispatch.Message SessionId

/-! ### Client code -/

/-- What occurrences have written. -/
def written (occurrences : List (Occurrence Signal)) : List Char :=
  occurrences.flatMap fun
    | .wrote _ text => text
    | _ => []

/-- Whether occurrences say that the program is to quit. -/
def quits (occurrences : List (Occurrence Signal)) : Bool :=
  occurrences.any fun
    | .noted .quit => true
    | _ => false

/-- The number of characters that wait in the session. -/
def waiting (w : World) : Nat := (w.session? session).elim 0 (·.decoder.pending.length)

/-- The steps that an event and what follows from it may take. -/
def stepsPerEvent : Nat := 8

/-- The steps that client code may take that makes one call, when so many characters wait. -/
def stepBound (characters : Nat) : Nat := stepsPerEvent * (characters + 1)

/-- Runs client code, for which so many characters are new. What it has written is put out; the
tasks that it has left, and its wish to quit, are put at the end of the queue. -/
def State.run (s : State) (characters : Nat) (p : Program Handler Signal) : State × List Message :=
  let w := s.world.exec client (stepBound (waiting s.world + characters)) p
  let connections := w.connections.map ({ · with tasks := [] })
  let tasks : List Message := w.connections.flatMap fun c => c.tasks.map .task
  ({ world := { w with connections, record := [] }
     output := s.output ++ written w.record.reverse },
    tasks ++ if quits w.record then [.quit] else [])

/-- What is done with the messages of the queue. -/
def receivers : Dispatch.Receivers State SessionId where
  onInput? := some fun text s => s.run text.length (.ofCall (.type terminal text))
  onResize? := some fun size s => s.run 0 (.ofCall (.resize terminal size))
  onTask s state := state.run 0 (.ofCall (.deliver s))

/-! ### Around the program -/

/-- What the system grants the program when it starts; or why it does not. -/
structure Host where
  /-- The terminal passes on every key as it is typed, and does not echo it. -/
  rawMode : Except (List Char) Unit := .ok ()
  /-- The input is read on a thread of its own. -/
  reader : Except (List Char) Unit := .ok ()
  /-- The size of the terminal is watched on a thread of its own. -/
  watcher : Except (List Char) Unit := .ok ()
  /-- The size of the terminal, if it can be told. -/
  size? : Option Size := none

/-- The system grants everything that the program needs. -/
structure Host.Grants (host : Host) : Prop where
  rawMode : host.rawMode = .ok ()
  reader : host.reader = .ok ()
  watcher : host.watcher = .ok ()

/-- What a call of the program has come to. -/
structure CallOutcome where
  /-- The exit code. -/
  exitCode : Nat
  /-- What the program has written. -/
  output : List Char
  /-- What the program has written about mistakes and failures. -/
  errors : List Char := []
  deriving DecidableEq, Repr

/-- The exit code of a call that has failed. -/
def failureCode : Nat := 1

/-- What a call has come to that has failed after it has written something. -/
def CallOutcome.failure (output why : List Char) : CallOutcome where
  exitCode := failureCode
  output
  errors := "Error: ".toList ++ why ++ ['\n']

/-! ### The loop -/

/-- The program between two blocks of input. -/
structure Running where
  /-- What the messages act on. -/
  state : State
  /-- The messages that wait. -/
  queue : List Message := []
  /-- The decoder of the input. -/
  decoder : Utf8.Decoder := none
  /-- Whether the program is about to quit. -/
  quit : Bool := false

/-- The number of messages that a message may come to, itself included. -/
def messageWeight : Message → Nat
  | .input text => text.length + 1
  | _ => 1

/-- The number of messages that a queue may come to, when so many characters wait. -/
def dispatchBound (characters : Nat) : List Message → Nat
  | [] => characters + 1
  | message :: queue => messageWeight message + dispatchBound characters queue

namespace Running

/-- Dispatches all messages, up to the first that tells the program to quit. -/
def dispatch (r : Running) : Running :=
  let fuel := dispatchBound (waiting r.state.world) r.queue
  let ended := Dispatch.run receivers fuel r.state r.queue
  { r with state := ended.state, queue := ended.queue, quit := r.quit || ended.quit }

/-- Queues messages and dispatches them. -/
def post (r : Running) (messages : List Message) : Running :=
  { r with queue := r.queue ++ messages }.dispatch

/-- The session and the connection of the program, before the one is installed on the other. -/
def parts (settings : Settings) : World where
  sessions :=
    [{ decoder := .ofKeymap settings.keymap
       functions := FunctionTable.insertBuiltins {}
       continuation := settings.continuation
       history := .empty settings.historyCap }]
  connections := [{}]

/-- The program with its session installed on its connection. -/
def fresh (settings : Settings) : Running where
  state := { world := ((parts settings).install session terminal).1 }

/-- The program as it starts: it is told the size of the terminal, if that is known, and asks for
the first line with a prompt. -/
def start (settings : Settings) (prompt : List Char) (size? : Option Size) : Running :=
  let r := fresh settings
  let (state, messages) := r.state.run 0 (ask prompt)
  let sizes : List Message := size?.toList.map .resize
  { r with state }.post (sizes ++ messages)

/-- The program as it starts, unless the system does not grant what it needs, or its session cannot
be installed. -/
def launch (settings : Settings) (prompt : List Char) (host : Host) :
    Except (List Char) Running := do
  host.rawMode
  ((parts settings).install session terminal).2.mapError fun why => why.message.toList
  host.reader
  host.watcher
  return start settings prompt host.size?

/-- The size of the blocks of input. -/
def blockSize : Nat := 1024

/-- The byte that interrupts the program. -/
def interrupt : UInt8 := 3

/-- Takes a block of input. -/
def receive (r : Running) (block : List UInt8) : Running :=
  if r.quit then r
  else if block.contains interrupt then r.post [.quit]
  else
    let (decoder, text) := Utf8.decode r.decoder block
    { r with decoder }.post (if text.isEmpty then [] else [.input text])

/-- Meets the end of the input. -/
def close (r : Running) : Running := if r.quit then r else r.post [.quit]

/-- What the program comes to when it has quit: its session is uninstalled, and the terminal goes to
a new row. Until then it comes to nothing, but waits. -/
def leave? (r : Running) : Option CallOutcome :=
  if r.quit then
    match (r.state.world.uninstall session).2 with
    | .ok () => some { exitCode := 0, output := r.state.output ++ newRow }
    | .error why => some (.failure r.state.output why.message.toList)
  else none

/-- What is to be shown, and the program without it. -/
def takeOutput (r : Running) : List Char × Running :=
  (r.state.output, { r with state := { r.state with output := [] } })

end Running

/-! ### Whole runs -/

/-- Bytes in blocks, of which only the last may be shorter. -/
def blocks : List UInt8 → List (List UInt8)
  | [] => []
  | byte :: rest =>
    (byte :: rest.take (Running.blockSize - 1)) :: blocks (rest.drop (Running.blockSize - 1))
termination_by bytes => bytes.length
decreasing_by
  simp only [List.length_drop, List.length_cons]
  omega

/-- Nothing is lost between the blocks. -/
theorem flatten_blocks (bytes : List UInt8) : (blocks bytes).flatten = bytes := by
  fun_induction blocks bytes with
  | case1 => rfl
  | case2 byte rest ih =>
    rw [List.flatten_cons, ih]
    exact congrArg (byte :: ·) (List.take_append_drop _ _)

/-- What the program comes to when it is given these bytes, which may be followed by the end of the
input. -/
def Running.outcome? (r : Running) (input : List UInt8) (ends : Bool) : Option CallOutcome :=
  let r := (blocks input).foldl receive r
  (if ends then r.close else r).leave?

/-- What the program comes to when the system grants it what it needs. -/
def transcript? (settings : Settings) (prompt : List Char) (size? : Option Size)
    (input : List UInt8) (ends : Bool) : Option CallOutcome :=
  (Running.start settings prompt size?).outcome? input ends

end LineEditor.Application
