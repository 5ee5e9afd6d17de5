import LineEditor.Keys.Decoder
import LineEditor.Session.Entry
import LineEditor.Session.Error

/-!
# Sessions, connections and completions

The state of everything at once. A *session* edits lines on the connection that it is installed on:
it decodes what is typed there, and while a request is live it edits that request's entry or waits
for its completion. A *connection* hands what is typed and its changes of size to a receiver, and
queues tasks, each of which lets a session deal with the input that waits in it. A *completion* is
the business of one Tab key with the client.

Client code runs in between. It is a `Program`: the calls it makes, one after another, each of which
may depend on the answers so far. The handlers that a client hands over are values of a type `κ` of
its own, to which its `Client` gives meaning; so a handler can hand itself over again. Client code
can also leave notes, of a type `ν`, among the occurrences.

What is running stands on the *agenda*, the innermost first; the occurrences are on record, the
latest first.
-/

namespace LineEditor

/-- The size of a terminal. -/
structure Size where
  /-- The number of columns. -/
  columns : Nat
  /-- The number of rows. -/
  rows : Nat
  deriving DecidableEq, Repr

/-- A size as messages show it. -/
def Size.describe (size : Size) : List Char :=
  Nat.toDigits 10 size.columns ++ 'x' :: Nat.toDigits 10 size.rows

/-- The index of a session. -/
abbrev SessionId := Nat

/-- The index of a connection. -/
abbrev ConnectionId := Nat

/-- The index of a completion, in the order in which they were begun. -/
abbrev CompletionId := Nat

/-- Whom a connection hands things to. -/
inductive Receiver where
  /-- A session. -/
  | session (s : SessionId)
  /-- The owner of the connection, who listens under a label. -/
  | owner (label : List Char)
  deriving DecidableEq, Repr

/-- A connection to a terminal. -/
structure Connection where
  /-- Who gets what is typed. -/
  input? : Option Receiver := none
  /-- Who is told of changes of size. -/
  resize? : Option Receiver := none
  /-- The sessions whose waiting input is to be dealt with, in the order in which they asked. -/
  tasks : List SessionId := []
  deriving DecidableEq, Repr, Inhabited

/-- What a session is doing. -/
inductive Phase (κ : Type) where
  /-- No request is live. -/
  | idle
  /-- A request's entry is edited. -/
  | editing (entry : Entry κ)
  /-- A request's entry waits for its completion. -/
  | completing (entry : Entry κ)

namespace Phase

variable {κ : Type}

/-- Whether no request is live. -/
def isIdle : Phase κ → Bool
  | .idle => true
  | _ => false

/-- The entry of the live request. -/
def entry? : Phase κ → Option (Entry κ)
  | .idle => none
  | .editing entry | .completing entry => some entry

end Phase

/-- A line-editing session. -/
structure Session (κ : Type) where
  /-- The connection that the session is installed on. -/
  connection? : Option ConnectionId := none
  /-- What the session is doing. -/
  phase : Phase κ := .idle
  /-- The prompt of further physical lines. -/
  continuation : List Char := ['>', ' ']
  /-- What was typed and not yet dealt with. -/
  decoder : Keys.Decoder := {}
  /-- The editing functions that keys can be bound to. -/
  functions : FunctionTable := {}
  /-- The lines that were entered. -/
  history : History := .initial
  /-- The size of the terminal, when it is known. -/
  size? : Option Size := none
  /-- The number of the next request. -/
  nextId : Nat := 0
  /-- Who got what is typed before the session was installed. -/
  savedInput? : Option Receiver := none
  /-- Who was told of changes of size before the session was installed. -/
  savedResize? : Option Receiver := none
  /-- The handler of input that no request asks for. -/
  onRead? : Option κ := none
  /-- The handler of changes of size. -/
  onResize? : Option κ := none
  /-- Whether the client has given the session up; its input is then ignored. -/
  released : Bool := false

/-- A completion. -/
structure Completion where
  /-- The session of the Tab key. -/
  session : SessionId
  /-- The number of the request that was live. -/
  entryId : Nat
  /-- What was entered. -/
  snapshot : Snapshot
  /-- The size of the terminal, when it was known. -/
  size? : Option Size
  /-- How far the completion has come. -/
  status : Status := .pending
  deriving DecidableEq, Repr

/-- A completion as messages show it. -/
def Completion.describe (c : Completion) : List Char :=
  "Completion \x7B interaction: ".toList ++ Nat.toDigits 10 c.entryId
    ++ ", line: ".toList ++ Text.Escaped.quoteText c.snapshot.line
    ++ ", prefix: ".toList ++ Text.Escaped.quoteText c.snapshot.word
    ++ ", status: ".toList ++ c.status.name.toList ++ " \x7D".toList

/-- A call that client code makes; `κ` are its handlers and `ν` its notes. Completions are named by
their index, or else the latest is meant. -/
inductive Call (κ ν : Type) where
  /-- Puts a session on a connection. -/
  | install (s : SessionId) (c : ConnectionId)
  /-- Takes a session off its connection; a live request is dropped. -/
  | uninstall (s : SessionId)
  /-- Asks for a line. -/
  | request (s : SessionId) (r : Request κ)
  /-- Deals with the input that waits in a session. -/
  | deliver (s : SessionId)
  /-- Queues a task for the input that waits in a session. -/
  | schedule (s : SessionId)
  /-- Sets the prompt of further physical lines. -/
  | setContinuation (s : SessionId) (prompt : List Char)
  /-- Adds an editing function. -/
  | addFunction (s : SessionId) (name : List Char) (f : EditFunction)
  /-- Adds the built-in editing functions. -/
  | addBuiltins (s : SessionId)
  /-- Changes the history. -/
  | changeHistory (s : SessionId) (change : History → History)
  /-- Asks for the history. -/
  | history (s : SessionId)
  /-- Sets the handler of input that no request asks for. -/
  | setOnRead (s : SessionId) (handler? : Option κ)
  /-- Sets the handler of changes of size. -/
  | setOnResize (s : SessionId) (handler? : Option κ)
  /-- Asks which of these two handlers are set. -/
  | handlers (s : SessionId)
  /-- Gives a session up. -/
  | release (s : SessionId)
  /-- Types a text on a connection. -/
  | type (c : ConnectionId) (text : List Char)
  /-- Changes the size of a connection's terminal. -/
  | resize (c : ConnectionId) (size : Size)
  /-- Lets the owner of a connection listen under a label. -/
  | listen (c : ConnectionId) (label : List Char)
  /-- Writes to a connection. -/
  | write (c : ConnectionId) (text : List Char)
  /-- Runs the tasks of a connection until none is left, or a limit is reached. -/
  | runTasks (c : ConnectionId) (limit? : Option Nat)
  /-- Puts text into the line; a terminal one ends its word. -/
  | complete (k? : Option CompletionId) (text : List Char) (terminal : Bool)
  /-- Lists suggestions. -/
  | suggest (k? : Option CompletionId) (text : List Char)
  /-- Ends a completion. -/
  | finish (k? : Option CompletionId)
  /-- Asks for the state of a completion. -/
  | inspect (k? : Option CompletionId)
  /-- Leaves a note. -/
  | note (n : ν)

/-- What a call answers. -/
inductive Answer where
  /-- It was carried out. -/
  | done
  /-- It was refused. -/
  | refused (why : Refusal)
  /-- So many tasks were run. -/
  | ran (count : Nat)
  /-- The history. -/
  | history (h : History)
  /-- Whether there is a handler of input, and one of changes of size. -/
  | handlers (read resize : Bool)
  /-- Whether the session had not been given up before. -/
  | released (first : Bool)
  /-- The state of a completion, and its index. -/
  | completion (c : Completion)
  /-- There is no such session. -/
  | noSession
  /-- There is no such completion. -/
  | noCompletion
  /-- Nobody receives that on this connection. -/
  | noReceiver
  deriving DecidableEq, Repr

/-- Client code: calls, each chosen by the answers to those before it. -/
inductive Program (κ ν : Type) where
  /-- Nothing more. -/
  | done
  /-- A call, and what follows for each answer. -/
  | call (c : Call κ ν) (next : Answer → Program κ ν)

namespace Program

variable {κ ν : Type}

instance : Inhabited (Program κ ν) := ⟨.done⟩

/-- A call whose answer does not matter, and then a program. -/
def andThen (c : Call κ ν) (rest : Program κ ν) : Program κ ν := .call c fun _ => rest

/-- A single call. -/
def ofCall (c : Call κ ν) : Program κ ν := andThen c .done

end Program

/-- What the handlers of a client do. -/
structure Client (κ ν : Type) where
  /-- What is done with a line. -/
  onLine : κ → List Char → Program κ ν
  /-- What is done to complete a word. -/
  onComplete : κ → CompletionId → Completion → Program κ ν
  /-- What is done with input that no request asks for. -/
  onRead : κ → List Char → Program κ ν
  /-- What is done when the size changes. -/
  onResize : κ → Size → Program κ ν

/-- Something that has happened. -/
inductive Occurrence (ν : Type) where
  /-- Text was written to a connection. -/
  | wrote (c : ConnectionId) (text : List Char)
  /-- The line of a request was handed to its handler. -/
  | delivered (s : SessionId) (entryId : Nat) (line : List Char)
  /-- A completion was handed to its handler. -/
  | asked (k : CompletionId) (c : Completion)
  /-- Input that no request asks for was handed to its handler. -/
  | forwarded (s : SessionId) (text : List Char)
  /-- A change of size was handed to its handler. -/
  | resized (s : SessionId) (size : Size)
  /-- The owner of a connection has got what was typed. -/
  | ownerGot (label text : List Char)
  /-- The owner of a connection was told of a change of size. -/
  | ownerTold (label : List Char) (size : Size)
  /-- Client code left a note. -/
  | noted (n : ν)

/-- Something that is running. -/
inductive Job (κ ν : Type) where
  /-- Client code. -/
  | run (p : Program κ ν)
  /-- A session deals with the input that waits in it. -/
  | deliver (s : SessionId)
  /-- A connection runs its tasks, of which `count` have been run. -/
  | tasks (c : ConnectionId) (limit? : Option Nat) (count : Nat) (next : Answer → Program κ ν)

/-- The state of everything. -/
structure World (κ ν : Type) where
  /-- The sessions. -/
  sessions : List (Session κ) := []
  /-- The connections. -/
  connections : List Connection := []
  /-- The completions, in the order in which they were begun. -/
  completions : List Completion := []
  /-- What is running, the innermost first. -/
  agenda : List (Job κ ν) := []
  /-- What has happened, the latest first. -/
  record : List (Occurrence ν) := []

namespace World

variable {κ ν : Type}

instance : Inhabited (World κ ν) := ⟨{}⟩

/-- A session that has not been given up. -/
def session? (w : World κ ν) (s : SessionId) : Option (Session κ) :=
  w.sessions[s]?.filter fun session => !session.released

/-- Changes a session. -/
def changeSession (w : World κ ν) (s : SessionId) (change : Session κ → Session κ) : World κ ν :=
  { w with sessions := w.sessions.modify s change }

/-- Changes a connection. -/
def changeConnection (w : World κ ν) (c : ConnectionId) (change : Connection → Connection) :
    World κ ν :=
  { w with connections := w.connections.modify c change }

/-- Changes the status of a completion. -/
def setStatus (w : World κ ν) (k : CompletionId) (status : Status) : World κ ν :=
  { w with completions := w.completions.modify k ({ · with status }) }

/-- Puts a job in front of what is running. -/
def push (w : World κ ν) (job : Job κ ν) : World κ ν := { w with agenda := job :: w.agenda }

/-- Puts an occurrence on record. -/
def log (w : World κ ν) (o : Occurrence ν) : World κ ν := { w with record := o :: w.record }

/-- Writes to a connection; an empty text is nothing. -/
def write (w : World κ ν) (c : ConnectionId) (text : List Char) : World κ ν :=
  if text.isEmpty then w else w.log (.wrote c text)

/-- The index that names a completion. -/
def completionId (w : World κ ν) (k? : Option CompletionId) : CompletionId :=
  k?.getD (w.completions.length - 1)

end World

end LineEditor
