import LineEditor.Session.Calls

/-!
# Running

The world moves in small steps, each of which takes up the innermost job of the agenda: client code
makes its next call, a session deals with the next piece of its input, or a connection runs its next
task. A call that sets more in motion, such as typing, puts a job in front, and the program that
made the call goes on after it.

`step` is total: without a job nothing happens. `settle` takes steps until the agenda is empty, or
until a number of steps has been taken.
-/

namespace LineEditor.World

variable [Text.Widths] {κ ν : Type}

/-- Lets client code go on with an answer. -/
def reply (w : World κ ν) (next : Answer → Program κ ν) (answer : Answer) : World κ ν :=
  w.push (.run (next answer))

/-- The answer to a call that may be refused. -/
def answerOf : Except Refusal Unit → Answer
  | .ok () => .done
  | .error why => .refused why

/-! ### Calls -/

/-- Hands typed text to its receiver. -/
def type (w : World κ ν) (c : ConnectionId) (text : List Char) (next : Answer → Program κ ν) :
    World κ ν :=
  match w.connections[c]?.bind Connection.input? with
  | none => w.reply next .noReceiver
  | some (.owner label) => (w.log (.ownerGot label text)).reply next .done
  | some (.session s) =>
    match w.session? s with
    | none => w.reply next .done
    | some _ =>
      ((w.reply next .done).changeSession s fun session =>
        { session with decoder := session.decoder.append text }).push (.deliver s)

/-- Tells the receiver of a change of size. -/
def resize (w : World κ ν) (client : Client κ ν) (c : ConnectionId) (size : Size)
    (next : Answer → Program κ ν) : World κ ν :=
  match w.connections[c]?.bind Connection.resize? with
  | none => w.reply next .noReceiver
  | some (.owner label) => (w.log (.ownerTold label size)).reply next .done
  | some (.session s) =>
    match w.session? s with
    | none => w.reply next .done
    | some session =>
      let w := (w.reply next .done).changeSession s ({ · with size? := some size })
      match session.onResize? with
      | none => w
      | some handler => (w.log (.resized s size)).push (.run (client.onResize handler size))

/-- Carries out a call on a session, which must not have been given up. -/
def onSession (w : World κ ν) (s : SessionId) (next : Answer → Program κ ν)
    (act : Session κ → World κ ν) : World κ ν :=
  match w.session? s with
  | none => w.reply next .noSession
  | some session => act session

/-- Carries out a call on a completion. -/
def onCompletion (w : World κ ν) (k? : Option CompletionId) (next : Answer → Program κ ν)
    (act : CompletionId → Completion → World κ ν) : World κ ν :=
  match w.completions[w.completionId k?]? with
  | none => w.reply next .noCompletion
  | some completion => act (w.completionId k?) completion

/-- Carries out a call, after which the program goes on with its answer. -/
def perform (w : World κ ν) (client : Client κ ν) (call : Call κ ν)
    (next : Answer → Program κ ν) : World κ ν :=
  let finish (r : Result κ ν) := r.1.reply next (answerOf r.2)
  match call with
  | .install s c => w.onSession s next fun _ => finish (w.install s c)
  | .uninstall s => w.onSession s next fun _ => finish (w.uninstall s)
  | .request s r => w.onSession s next fun _ => finish (w.request s r)
  | .deliver s => w.onSession s next fun _ => (w.reply next .done).push (.deliver s)
  | .schedule s => w.onSession s next fun _ => (w.schedule s).reply next .done
  | .setContinuation s continuation =>
    w.onSession s next fun _ => (w.changeSession s ({ · with continuation })).reply next .done
  | .addFunction s name f =>
    w.onSession s next fun _ =>
      (w.changeSession s fun session =>
        { session with functions := session.functions.insert name f }).reply next .done
  | .addBuiltins s =>
    w.onSession s next fun _ =>
      (w.changeSession s fun session =>
        { session with functions := session.functions.insertBuiltins }).reply next .done
  | .changeHistory s change =>
    w.onSession s next fun _ =>
      (w.changeSession s fun session =>
        { session with history := change session.history }).reply next .done
  | .history s => w.onSession s next fun session => w.reply next (.history session.history)
  | .setOnRead s onRead? =>
    w.onSession s next fun _ => (w.changeSession s ({ · with onRead? })).reply next .done
  | .setOnResize s onResize? =>
    w.onSession s next fun _ => (w.changeSession s ({ · with onResize? })).reply next .done
  | .handlers s =>
    w.onSession s next fun session =>
      w.reply next (.handlers session.onRead?.isSome session.onResize?.isSome)
  | .release s =>
    (w.changeSession s ({ · with released := true })).reply next
      (.released (w.session? s).isSome)
  | .type c text => w.type c text next
  | .resize c size => w.resize client c size next
  | .listen c label =>
    (w.changeConnection c fun conn =>
      { conn with input? := some (.owner label), resize? := some (.owner label) }).reply next .done
  | .write c text => (w.write c text).reply next .done
  | .runTasks c limit? => w.push (.tasks c limit? 0 next)
  | .complete k? text terminal =>
    w.onCompletion k? next fun k completion => finish (w.complete k completion text terminal)
  | .suggest k? text =>
    w.onCompletion k? next fun k completion => finish (w.suggest k completion text)
  | .finish k? => w.onCompletion k? next fun k completion => finish (w.finish k completion)
  | .inspect k? => w.onCompletion k? next fun _ completion => w.reply next (.completion completion)
  | .note n => (w.log (.noted n)).reply next .done

/-! ### Input -/

/-- A session hands all its waiting input to a handler, since no request asks for it. -/
def forward (w : World κ ν) (client : Client κ ν) (s : SessionId) (session : Session κ)
    (handler : κ) : World κ ν :=
  let (text, decoder) := session.decoder.takeAll
  (((w.changeSession s ({ · with decoder })).push (.deliver s)).log (.forwarded s text)).push
    (.run (client.onRead handler text))

/-- A session handles the next event of its input on the entry that is edited. -/
def handleEvent (w : World κ ν) (client : Client κ ν) (s : SessionId) (session : Session κ)
    (entry : Entry κ) (c : ConnectionId) (event : KeyEvent) (decoder : Keys.Decoder) : World κ ν :=
  let handled := entry.handle session.functions session.history session.continuation event
  let after (phase : Phase κ) : World κ ν :=
    ((w.changeSession s ({ · with phase, decoder, history := handled.history })).write c
      handled.written).push (.deliver s)
  match handled.outcome with
  | .goesOn => after (.editing handled.entry)
  | .submitted line =>
    ((after .idle).log (.delivered s entry.id line)).push
      (.run (client.onLine entry.request.onLine line))
  | .asked handler snapshot =>
    let completion : Completion :=
      { session := s, entryId := entry.id, snapshot, size? := session.size? }
    let k := w.completions.length
    let w := after (.completing handled.entry)
    (({ w with completions := w.completions ++ [completion] } : World κ ν).log
      (.asked k completion)).push (.run (client.onComplete handler k completion))

/-- A session deals with the next piece of its waiting input, and goes on with the rest afterwards.
It stops when no event can be decoded, when its entry waits for a completion, and when neither a
request nor a handler asks for input. -/
def deliver (w : World κ ν) (client : Client κ ν) (s : SessionId) : World κ ν :=
  match w.sessions[s]? with
  | none => w
  | some session =>
    match session.decoder.next? with
    | none => w
    | some (event, decoder) =>
      match session.phase with
      | .completing _ => w
      | .idle =>
        match session.onRead? with
        | none => w
        | some handler => w.forward client s session handler
      | .editing entry =>
        match session.connection? with
        | none => w
        | some c => w.handleEvent client s session entry c event decoder

/-- A connection runs its next task, unless there is none or the limit is reached. -/
def nextTask (w : World κ ν) (c : ConnectionId) (limit? : Option Nat) (count : Nat)
    (next : Answer → Program κ ν) : World κ ν :=
  if limit? = some count then w.reply next (.ran count)
  else
    match w.connections[c]?.map Connection.tasks with
    | some (s :: rest) =>
      ((w.changeConnection c ({ · with tasks := rest })).push
        (.tasks c limit? (count + 1) next)).push (.deliver s)
    | _ => w.reply next (.ran count)

/-! ### Steps -/

/-- Takes up the innermost job. -/
def step (client : Client κ ν) (w : World κ ν) : World κ ν :=
  match w.agenda with
  | [] => w
  | job :: rest =>
    let w := { w with agenda := rest }
    match job with
    | .run .done => w
    | .run (.call c next) => w.perform client c next
    | .deliver s => w.deliver client s
    | .tasks c limit? count next => w.nextTask c limit? count next

/-- Takes steps until nothing is running, at most `fuel` of them. -/
def settle (client : Client κ ν) : Nat → World κ ν → World κ ν
  | 0, w => w
  | fuel + 1, w => if w.agenda.isEmpty then w else settle client fuel (w.step client)

/-- Runs client code until nothing is running, for at most `fuel` steps. -/
def exec (client : Client κ ν) (fuel : Nat) (w : World κ ν) (p : Program κ ν) : World κ ν :=
  settle client fuel (w.push (.run p))

end LineEditor.World
