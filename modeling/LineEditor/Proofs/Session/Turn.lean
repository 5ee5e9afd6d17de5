import LineEditor.Session.Machine

/-!
# What one step does

`World.step` takes up the innermost job of the agenda. `Turn client w job w'` lists everything that
can come of it: `w` is the world from which the job has been taken, and each constructor names the
guards that were passed and the world that results. `turn_step` says that the list is complete, so
that what every step keeps is proved by cases on `Turn`, without opening the machine again.

Many calls are alike in what they leave alone. A call that is only answered, an occurrence of the
client's or of an owner's, and an *adjustment* of a session (`Adjusts`) are one constructor each.
A call on a completion that its session does not wait for moves a status and nothing else.

The first section reads the parts of a world after each of its elementary changes.
-/

namespace LineEditor.World

variable {κ ν : Type}

/-! ### The parts of a changed world -/

section Parts

variable (w : World κ ν) (s : SessionId) (c : ConnectionId) (k : CompletionId) (job : Job κ ν)
  (o : Occurrence ν) (text : List Char) (f : Session κ → Session κ)
  (g : Connection → Connection) (status : Status) (next : Answer → Program κ ν) (a : Answer)

@[simp] theorem push_sessions : (w.push job).sessions = w.sessions := rfl
@[simp] theorem push_connections : (w.push job).connections = w.connections := rfl
@[simp] theorem push_completions : (w.push job).completions = w.completions := rfl
@[simp] theorem push_record : (w.push job).record = w.record := rfl
@[simp] theorem push_agenda : (w.push job).agenda = job :: w.agenda := rfl

@[simp] theorem reply_sessions : (w.reply next a).sessions = w.sessions := rfl
@[simp] theorem reply_connections : (w.reply next a).connections = w.connections := rfl
@[simp] theorem reply_completions : (w.reply next a).completions = w.completions := rfl
@[simp] theorem reply_record : (w.reply next a).record = w.record := rfl
@[simp] theorem reply_agenda : (w.reply next a).agenda = .run (next a) :: w.agenda := rfl

@[simp] theorem log_sessions : (w.log o).sessions = w.sessions := rfl
@[simp] theorem log_connections : (w.log o).connections = w.connections := rfl
@[simp] theorem log_completions : (w.log o).completions = w.completions := rfl
@[simp] theorem log_agenda : (w.log o).agenda = w.agenda := rfl
@[simp] theorem log_record : (w.log o).record = o :: w.record := rfl

@[simp] theorem changeSession_connections :
    (w.changeSession s f).connections = w.connections := rfl
@[simp] theorem changeSession_completions :
    (w.changeSession s f).completions = w.completions := rfl
@[simp] theorem changeSession_agenda : (w.changeSession s f).agenda = w.agenda := rfl
@[simp] theorem changeSession_record : (w.changeSession s f).record = w.record := rfl

@[simp] theorem changeConnection_sessions :
    (w.changeConnection c g).sessions = w.sessions := rfl
@[simp] theorem changeConnection_completions :
    (w.changeConnection c g).completions = w.completions := rfl
@[simp] theorem changeConnection_agenda : (w.changeConnection c g).agenda = w.agenda := rfl
@[simp] theorem changeConnection_record : (w.changeConnection c g).record = w.record := rfl

@[simp] theorem setStatus_sessions : (w.setStatus k status).sessions = w.sessions := rfl
@[simp] theorem setStatus_connections : (w.setStatus k status).connections = w.connections := rfl
@[simp] theorem setStatus_agenda : (w.setStatus k status).agenda = w.agenda := rfl
@[simp] theorem setStatus_record : (w.setStatus k status).record = w.record := rfl

@[simp]
theorem write_sessions : (w.write c text).sessions = w.sessions := by
  unfold write; split <;> rfl

@[simp]
theorem write_connections : (w.write c text).connections = w.connections := by
  unfold write; split <;> rfl

@[simp]
theorem write_completions : (w.write c text).completions = w.completions := by
  unfold write; split <;> rfl

@[simp]
theorem write_agenda : (w.write c text).agenda = w.agenda := by
  unfold write; split <;> rfl

/-- A text may as well be written before a session changes. -/
theorem changeSession_write :
    (w.write c text).changeSession s f = (w.changeSession s f).write c text := by
  unfold write; split <;> rfl

/-- The sessions after a change of one of them. -/
theorem getElem?_sessions_changeSession (t : SessionId) :
    (w.changeSession s f).sessions[t]? =
      (fun session => if s = t then f session else session) <$> w.sessions[t]? :=
  List.getElem?_modify f s w.sessions t

/-- The connections after a change of one of them. -/
theorem getElem?_connections_changeConnection (d : ConnectionId) :
    (w.changeConnection c g).connections[d]? =
      (fun conn => if c = d then g conn else conn) <$> w.connections[d]? :=
  List.getElem?_modify g c w.connections d

/-- The completions after a change of the status of one of them. -/
theorem getElem?_completions_setStatus (j : CompletionId) :
    (w.setStatus k status).completions[j]? =
      (fun completion => if k = j then { completion with status } else completion) <$>
        w.completions[j]? :=
  List.getElem?_modify _ k w.completions j

@[simp]
theorem length_completions_setStatus :
    (w.setStatus k status).completions.length = w.completions.length :=
  List.length_modify _ _ _

/-- Queueing a task adds the session to the tasks of its connection, or changes nothing. -/
theorem schedule_eq_or :
    w.schedule s = w ∨ ∃ d, w.schedule s =
      w.changeConnection d fun conn => { conn with tasks := conn.tasks ++ [s] } := by
  unfold schedule
  split
  · exact .inl rfl
  · split
    · exact .inr ⟨_, rfl⟩
    · exact .inl rfl

@[simp]
theorem schedule_sessions : (w.schedule s).sessions = w.sessions := by
  obtain h | ⟨d, h⟩ := w.schedule_eq_or s <;> rw [h]; rfl

@[simp]
theorem schedule_completions : (w.schedule s).completions = w.completions := by
  obtain h | ⟨d, h⟩ := w.schedule_eq_or s <;> rw [h]; rfl

@[simp]
theorem schedule_agenda : (w.schedule s).agenda = w.agenda := by
  obtain h | ⟨d, h⟩ := w.schedule_eq_or s <;> rw [h]; rfl

@[simp]
theorem schedule_record : (w.schedule s).record = w.record := by
  obtain h | ⟨d, h⟩ := w.schedule_eq_or s <;> rw [h]; rfl

end Parts

end LineEditor.World

namespace LineEditor

variable {κ ν : Type}

/-! ### Guards -/

/-- An occurrence that tells of no session: a note of the client's, or something that the owner of
a connection has got. -/
def Occurrence.IsAside : Occurrence ν → Prop
  | .noted _ | .ownerGot _ _ | .ownerTold _ _ => True
  | _ => False

/-- A change of a session that leaves alone what it is doing, where, and with which input. -/
structure Adjusts (f : Session κ → Session κ) : Prop where
  connection : ∀ session, (f session).connection? = session.connection?
  phase : ∀ session, (f session).phase = session.phase
  decoder : ∀ session, (f session).decoder = session.decoder
  nextId : ∀ session, (f session).nextId = session.nextId
  savedInput : ∀ session, (f session).savedInput? = session.savedInput?
  savedResize : ∀ session, (f session).savedResize? = session.savedResize?

/-- The statuses that a completion can move to. -/
def Status.Leads : Status → Status → Prop
  | .pending, .inlining | .pending, .completing | .completing, .completing => True
  | status, .completed => status ≠ .completed
  | _, _ => False

theorem Status.leads_completed {status : Status} (h : status ≠ .completed) :
    status.Leads .completed := by
  cases status <;> simp_all [Status.Leads]

/-- A session with nothing to do: no event can be decoded, or nobody asks for one. -/
def Session.Stops (session : Session κ) : Prop :=
  session.decoder.next? = none ∨ (∃ entry, session.phase = .completing entry) ∨
    (session.phase = .idle ∧ session.onRead? = none) ∨
      ∃ entry, session.phase = .editing entry ∧ session.connection? = none

/-- What is written when a completion ends: below suggestions the prompt and the line, and
otherwise nothing. -/
def Completion.redrawing [Text.Widths] (completion : Completion) (session : Session κ)
    (entry : Entry κ) : List Char :=
  if completion.status = .completing ∧ session.connection?.isSome then
    entry.prompt session.continuation ++ Line.empty.redraw entry.line
  else []

namespace World

/-- Session `s` is to handle `event` on `entry`, and has `decoder` left. -/
structure Handles (w : World κ ν) (s : SessionId) (session : Session κ) (entry : Entry κ)
    (c : ConnectionId) (event : KeyEvent) (decoder : Keys.Decoder) : Prop where
  lookup : w.sessions[s]? = some session
  phase : session.phase = .editing entry
  connection : session.connection? = some c
  next : session.decoder.next? = some (event, decoder)

/-- The world in which session `s` has handled an event and goes on in `phase`. -/
def afterEvent (w : World κ ν) (s : SessionId) (c : ConnectionId) (handled : Handled κ)
    (decoder : Keys.Decoder) (phase : Phase κ) : World κ ν :=
  ((w.changeSession s ({ · with phase, decoder, history := handled.history })).write c
    handled.written).push (.deliver s)

section AfterEvent

variable (w : World κ ν) (s : SessionId) (c : ConnectionId) (handled : Handled κ)
  (decoder : Keys.Decoder) (phase : Phase κ)

@[simp]
theorem afterEvent_sessions :
    (w.afterEvent s c handled decoder phase).sessions =
      (w.changeSession s ({ · with phase, decoder, history := handled.history })).sessions := by
  simp [afterEvent]

@[simp]
theorem afterEvent_connections :
    (w.afterEvent s c handled decoder phase).connections = w.connections := by
  simp [afterEvent]

@[simp]
theorem afterEvent_completions :
    (w.afterEvent s c handled decoder phase).completions = w.completions := by
  simp [afterEvent]

@[simp]
theorem afterEvent_agenda :
    (w.afterEvent s c handled decoder phase).agenda = .deliver s :: w.agenda := by
  simp [afterEvent]

end AfterEvent

section HandleEvent

variable [Text.Widths] {client : Client κ ν} {w : World κ ν} {s : SessionId} {session : Session κ}
  {entry : Entry κ} {c : ConnectionId} {event : KeyEvent} {decoder : Keys.Decoder}
  {handled : Handled κ}

/-- A session that is to handle an event does so when it deals with its input. -/
theorem Handles.step_eq (h : w.Handles s session entry c event decoder) {rest : List (Job κ ν)}
    (hagenda : w.agenda = .deliver s :: rest) (client : Client κ ν) :
    w.step client =
      ({ w with agenda := rest } : World κ ν).handleEvent client s session entry c event
        decoder := by
  have hs : ({ w with agenda := rest } : World κ ν).sessions[s]? = some session := h.lookup
  rw [step, hagenda]
  dsimp only
  simp only [deliver, hs, h.next, h.phase, h.connection]

/-- What an event comes to that goes on. -/
theorem handleEvent_goesOn
    (hhandled : entry.handle session.functions session.history session.continuation event =
      handled) (hgoes : handled.outcome = .goesOn) :
    w.handleEvent client s session entry c event decoder =
      w.afterEvent s c handled decoder (.editing handled.entry) := by
  simp only [handleEvent, hhandled, hgoes, afterEvent]

/-- What an event comes to that ends the line. -/
theorem handleEvent_submitted {line : List Char}
    (hhandled : entry.handle session.functions session.history session.continuation event =
      handled) (hsubmitted : handled.outcome = .submitted line) :
    w.handleEvent client s session entry c event decoder =
      ((w.afterEvent s c handled decoder .idle).log (.delivered s entry.id line)).push
        (.run (client.onLine entry.request.onLine line)) := by
  simp only [handleEvent, hhandled, hsubmitted, afterEvent]

/-- What an event comes to that begins a completion. -/
theorem handleEvent_asked {handler : κ} {snapshot : Snapshot} {completion : Completion}
    (hhandled : entry.handle session.functions session.history session.continuation event =
      handled) (hasked : handled.outcome = .asked handler snapshot)
    (hcompletion : completion =
      { session := s, entryId := entry.id, snapshot, size? := session.size? }) :
    w.handleEvent client s session entry c event decoder =
      (({ w.afterEvent s c handled decoder (.completing handled.entry) with
        completions := w.completions ++ [completion] } : World κ ν).log
          (.asked w.completions.length completion)).push
        (.run (client.onComplete handler w.completions.length completion)) := by
  simp only [handleEvent, hhandled, hasked, hcompletion, afterEvent, push_completions,
    write_completions, changeSession_completions]

end HandleEvent

/-! ### The list of all turns -/

variable [Text.Widths]

/-- What can come of a job: `w` is the world without the job, and the last world results. -/
inductive Turn (client : Client κ ν) (w : World κ ν) : Job κ ν → World κ ν → Prop where
  /-- Client code has come to its end. -/
  | rest : Turn client w (.run .done) w
  /-- A call is only answered. -/
  | answer (call next a) : Turn client w (.run (.call call next)) (w.reply next a)
  /-- A call leaves an occurrence that tells of no session. -/
  | aside (call next a) {o} (ho : o.IsAside) :
      Turn client w (.run (.call call next)) ((w.log o).reply next a)
  /-- The client writes to a connection. -/
  | write (c text next) :
      Turn client w (.run (.call (.write c text) next)) ((w.write c text).reply next .done)
  /-- The owner of a connection listens. -/
  | listen (c label next) :
      Turn client w (.run (.call (.listen c label) next))
        ((w.changeConnection c fun conn =>
          { conn with
            input? := some (.owner label)
            resize? := some (.owner label) }).reply next .done)
  /-- A session is adjusted. -/
  | adjust (call next a s) {f} (hf : Adjusts f) :
      Turn client w (.run (.call call next)) ((w.changeSession s f).reply next a)
  /-- A session is told its size and hands it to a handler. -/
  | resize (c size next s handler) :
      Turn client w (.run (.call (.resize c size) next))
        ((((w.changeSession s ({ · with size? := some size })).reply next .done).log
          (.resized s size)).push (.run (client.onResize handler size)))
  /-- A session gets what is typed. -/
  | type (c text next s) {session}
      (hinput : w.connections[c]?.bind Connection.input? = some (.session s))
      (hs : w.session? s = some session) :
      Turn client w (.run (.call (.type c text) next))
        (((w.changeSession s fun session =>
          { session with decoder := session.decoder.append text }).reply next .done).push
            (.deliver s))
  /-- The client has a task queued. -/
  | schedule (s next) :
      Turn client w (.run (.call (.schedule s) next)) ((w.schedule s).reply next .done)
  /-- The client has a session deal with its input. -/
  | deliver (s next) :
      Turn client w (.run (.call (.deliver s) next)) ((w.reply next .done).push (.deliver s))
  /-- The client has tasks run. -/
  | runTasks (c limit? next) :
      Turn client w (.run (.call (.runTasks c limit?) next)) (w.push (.tasks c limit? 0 next))
  /-- A session is installed. -/
  | install (s c next) {session conn} (hs : w.sessions[s]? = some session)
      (hfree : session.connection? = none) (hc : w.connections[c]? = some conn) :
      Turn client w (.run (.call (.install s c) next))
        (((w.changeSession s fun session =>
          { session with
            connection? := some c
            savedInput? := conn.input?
            savedResize? := conn.resize? }).changeConnection c fun conn =>
          { conn with
            input? := some (.session s)
            resize? := some (.session s) }).reply next .done)
  /-- A session is uninstalled. -/
  | uninstall (s next) {session c} (hs : w.sessions[s]? = some session)
      (hc : session.connection? = some c) :
      Turn client w (.run (.call (.uninstall s) next))
        (((w.changeConnection c fun conn =>
          { conn with
            input? := session.savedInput?
            resize? := session.savedResize? }).changeSession s fun session =>
          { session with
            connection? := none
            phase := .idle
            savedInput? := none
            savedResize? := none }).reply next .done)
  /-- A request becomes live. -/
  | request (s r next) {session c} (hs : w.sessions[s]? = some session)
      (hc : session.connection? = some c) (hidle : session.phase = .idle) :
      Turn client w (.run (.call (.request s r) next))
        ((((w.changeSession s fun session =>
          { session with
            phase := .editing { id := session.nextId, request := r }
            nextId := session.nextId + 1 }).write c r.prompt).schedule s).reply next .done)
  /-- The status of a completion moves, and nothing else happens. -/
  | move (call next a k status) {completion} (hk : w.completions[k]? = some completion)
      (hmove : completion.status.Leads status)
      (hwait : status = .inlining ∨ w.waiting? completion = none) :
      Turn client w (.run (.call call next)) ((w.setStatus k status).reply next a)
  /-- Text is put into the line that waits for a completion. -/
  | insert (k? text terminal next) {k completion c entry} (hk? : w.completionId k? = k)
      (hk : w.completions[k]? = some completion) (hpending : completion.status = .pending)
      (hwait : w.waiting? completion = some (c, entry)) {line}
      (hline : line = entry.line.insert (completion.snapshot.context.literally terminal text)) :
      Turn client w (.run (.call (.complete k? text terminal) next))
        ((((w.setStatus k .inlining).changeSession completion.session
          ({ · with phase := .completing { entry with line } })).write c
            (entry.line.redraw line)).reply next .done)
  /-- Suggestions are written below the line that waits for a completion. -/
  | suggest (k? text next) {k completion c entry} (hk? : w.completionId k? = k)
      (hk : w.completions[k]? = some completion)
      (hstatus : completion.status = .pending ∨ completion.status = .completing)
      (hwait : w.waiting? completion = some (c, entry)) :
      Turn client w (.run (.call (.suggest k? text) next))
        (((w.setStatus k .completing).write c
          (if completion.status = .pending then newRow ++ text else text)).reply next .done)
  /-- A completion ends, and the entry that waits for it is edited again. -/
  | resume (k? next) {k completion session entry c} (hk? : w.completionId k? = k)
      (hk : w.completions[k]? = some completion) (hopen : completion.status ≠ .completed)
      (hs : w.sessions[completion.session]? = some session)
      (hphase : session.phase = .completing entry) (hid : entry.id = completion.entryId)
      (hc : ∀ d, session.connection? = some d → d = c) :
      Turn client w (.run (.call (.finish k?) next))
        (((((w.setStatus k .completed).write c (completion.redrawing session entry)).changeSession
          completion.session ({ · with phase := .editing entry })).schedule
            completion.session).reply next .done)
  /-- A session stops dealing with its input. -/
  | stop (s) (h : ∀ session, w.sessions[s]? = some session → session.Stops) :
      Turn client w (.deliver s) w
  /-- A session hands its input to a handler, since no request asks for it. -/
  | forward (s) {session handler} (hs : w.sessions[s]? = some session)
      (hidle : session.phase = .idle) (hread : session.onRead? = some handler)
      (hnext : session.decoder.next? ≠ none) :
      Turn client w (.deliver s)
        ((((w.changeSession s ({ · with decoder := session.decoder.takeAll.2 })).push
          (.deliver s)).log (.forwarded s session.decoder.takeAll.1)).push
            (.run (client.onRead handler session.decoder.takeAll.1)))
  /-- An event is handled, and the entry goes on. -/
  | edit (s) {session entry c event decoder handled}
      (h : w.Handles s session entry c event decoder)
      (hhandled : entry.handle session.functions session.history session.continuation event =
        handled)
      (hgoes : handled.outcome = .goesOn) :
      Turn client w (.deliver s) (w.afterEvent s c handled decoder (.editing handled.entry))
  /-- An event ends the line, which is handed to its handler. -/
  | submit (s) {session entry c event decoder handled line}
      (h : w.Handles s session entry c event decoder)
      (hhandled : entry.handle session.functions session.history session.continuation event =
        handled)
      (hsubmitted : handled.outcome = .submitted line) :
      Turn client w (.deliver s)
        (((w.afterEvent s c handled decoder .idle).log (.delivered s entry.id line)).push
          (.run (client.onLine entry.request.onLine line)))
  /-- An event begins a completion, which is handed to its handler. -/
  | ask (s) {session entry c event decoder handled handler snapshot completion}
      (h : w.Handles s session entry c event decoder)
      (hhandled : entry.handle session.functions session.history session.continuation event =
        handled)
      (hasked : handled.outcome = .asked handler snapshot)
      (hcompletion : completion =
        { session := s, entryId := entry.id, snapshot, size? := session.size? }) :
      Turn client w (.deliver s)
        ((({ w.afterEvent s c handled decoder (.completing handled.entry) with
          completions := w.completions ++ [completion] } : World κ ν).log
            (.asked w.completions.length completion)).push
          (.run (client.onComplete handler w.completions.length completion)))
  /-- A connection has run its tasks. -/
  | tasksOver (c limit? count next)
      (h : limit? = some count ∨ ∀ conn, w.connections[c]? = some conn → conn.tasks = []) :
      Turn client w (.tasks c limit? count next) (w.reply next (.ran count))
  /-- A connection runs its next task. -/
  | nextTask (c limit? count next) {conn s rest} (hlimit : limit? ≠ some count)
      (hc : w.connections[c]? = some conn) (htasks : conn.tasks = s :: rest) :
      Turn client w (.tasks c limit? count next)
        (((w.changeConnection c ({ · with tasks := rest })).push
          (.tasks c limit? (count + 1) next)).push (.deliver s))

variable {client : Client κ ν} {w : World κ ν} {next : Answer → Program κ ν}

/-- A call on a session either is refused, since the session was given up, or acts on it. -/
theorem Turn.onSession {s : SessionId} {call : Call κ ν} {act : Session κ → World κ ν}
    (h : ∀ session, w.session? s = some session →
      Turn client w (.run (.call call next)) (act session)) :
    Turn client w (.run (.call call next)) (w.onSession s next act) := by
  unfold World.onSession
  split
  · exact .answer ..
  · exact h _ ‹_›

/-- A call on a completion either is refused, since there is none, or acts on it. -/
theorem Turn.onCompletion {k? : Option CompletionId} {call : Call κ ν}
    {act : CompletionId → Completion → World κ ν}
    (h : ∀ completion, w.completions[w.completionId k?]? = some completion →
      Turn client w (.run (.call call next)) (act (w.completionId k?) completion)) :
    Turn client w (.run (.call call next)) (w.onCompletion k? next act) := by
  unfold World.onCompletion
  split
  · exact .answer ..
  · exact h _ ‹_›

theorem Turn.ofInstall (s : SessionId) (c : ConnectionId) :
    Turn client w (.run (.call (.install s c) next))
      ((w.install s c).1.reply next (answerOf (w.install s c).2)) := by
  unfold World.install
  split
  · rename_i session conn hs hc
    split
    · exact .answer ..
    · rename_i hfree
      exact .install s c next hs (Option.not_isSome_iff_eq_none.1 hfree) hc
  · exact .answer ..

theorem Turn.ofUninstall (s : SessionId) :
    Turn client w (.run (.call (.uninstall s) next))
      ((w.uninstall s).1.reply next (answerOf (w.uninstall s).2)) := by
  unfold World.uninstall
  split
  · exact .answer ..
  · split
    · exact .answer ..
    · exact .uninstall s next ‹_› ‹_›

theorem Turn.ofRequest (s : SessionId) (r : Request κ) :
    Turn client w (.run (.call (.request s r) next))
      ((w.request s r).1.reply next (answerOf (w.request s r).2)) := by
  unfold World.request
  split
  · exact .answer ..
  · rename_i session hs
    split
    · exact .answer ..
    · rename_i c hc
      split
      · rename_i hidle
        have hphase : session.phase = .idle := by
          cases h : session.phase <;> simp [h, Phase.isIdle] at hidle ⊢
        exact .request s r next hs hc hphase
      · exact .answer ..

theorem Turn.ofComplete {k? : Option CompletionId} {completion : Completion} (text : List Char)
    (terminal : Bool) (hk : w.completions[w.completionId k?]? = some completion) :
    Turn client w (.run (.call (.complete k? text terminal) next))
      ((w.complete (w.completionId k?) completion text terminal).1.reply next
        (answerOf (w.complete (w.completionId k?) completion text terminal).2)) := by
  unfold World.complete
  split
  · exact .answer ..
  · split
    · exact .answer ..
    · rename_i hpending
      have hpending : completion.status = .pending := by simpa using hpending
      have hmove : completion.status.Leads .inlining := by simp [hpending, Status.Leads]
      simp only
      split
      · exact .move _ _ _ _ _ hk hmove (.inl rfl)
      · rename_i c entry hwait
        split
        · exact .move _ _ _ _ _ hk hmove (.inl rfl)
        · exact .insert k? text terminal next rfl hk hpending hwait rfl

theorem Turn.ofSuggest {k? : Option CompletionId} {completion : Completion} (text : List Char)
    (hk : w.completions[w.completionId k?]? = some completion) :
    Turn client w (.run (.call (.suggest k? text) next))
      ((w.suggest (w.completionId k?) completion text).1.reply next
        (answerOf (w.suggest (w.completionId k?) completion text).2)) := by
  unfold World.suggest
  split
  · rename_i hstatus
    have hmove : completion.status.Leads .completing := by
      rcases hstatus with h | h <;> simp [h, Status.Leads]
    simp only
    split
    · rename_i hwait
      exact .move _ _ _ _ _ hk hmove (.inr hwait)
    · rename_i c entry hwait
      exact .suggest k? text next rfl hk hstatus hwait
  · exact .answer ..

omit [Text.Widths] in
/-- Who waits for a completion: the entry of its request, in its session. -/
theorem waiting?_eq_some_iff {completion : Completion} {c : ConnectionId} {entry : Entry κ} :
    w.waiting? completion = some (c, entry) ↔
      ∃ session, w.sessions[completion.session]? = some session ∧
        session.connection? = some c ∧ session.phase = .completing entry ∧
          entry.id = completion.entryId := by
  unfold waiting?
  cases hs : w.sessions[completion.session]? with
  | none => simp
  | some session =>
    cases hc : session.connection? with
    | none => simp [hc]
    | some d =>
      cases hphase : session.phase with
      | idle | editing e => simp [hphase]
      | completing e =>
        simp only [Option.ite_none_right_eq_some, Option.some.injEq, Prod.mk.injEq,
          exists_eq_left', hc, hphase, Phase.completing.injEq]
        constructor
        · rintro ⟨hid, rfl, rfl⟩
          exact ⟨rfl, rfl, hid⟩
        · rintro ⟨rfl, rfl, hid⟩
          exact ⟨hid, rfl, rfl⟩

omit [Text.Widths] in
/-- Nobody waits for a completion unless its session has the entry of its request waiting. -/
theorem waiting?_eq_none {completion : Completion}
    (h : ∀ session entry, w.sessions[completion.session]? = some session →
      session.phase = .completing entry → entry.id ≠ completion.entryId) :
    w.waiting? completion = none := by
  refine Option.eq_none_iff_forall_ne_some.2 fun ⟨c, entry⟩ hwait => ?_
  obtain ⟨session, hs, -, hphase, hid⟩ := waiting?_eq_some_iff.1 hwait
  exact h session entry hs hphase hid

omit [Text.Widths] in
theorem write_nil (c : ConnectionId) : w.write c [] = w := rfl

/-- A completion that ends writes its redrawing. -/
theorem redrawn_eq (completion : Completion) (session : Session κ) (entry : Entry κ) :
    (match completion.status, session.connection? with
      | .completing, some c =>
        w.write c (entry.prompt session.continuation ++ Line.empty.redraw entry.line)
      | _, _ => w) =
      w.write (session.connection?.getD 0) (completion.redrawing session entry) := by
  split
  · rename_i c hstatus hc
    simp [Completion.redrawing, hstatus, hc]
  · rename_i hno
    have hnil : completion.redrawing session entry = [] := by
      refine if_neg fun ⟨hstatus, hc⟩ => ?_
      obtain ⟨c, hc⟩ := Option.isSome_iff_exists.1 hc
      exact hno c hstatus hc
    rw [hnil, write_nil]

theorem Turn.ofFinish {k? : Option CompletionId} {completion : Completion}
    (hk : w.completions[w.completionId k?]? = some completion) :
    Turn client w (.run (.call (.finish k?) next))
      ((w.finish (w.completionId k?) completion).1.reply next
        (answerOf (w.finish (w.completionId k?) completion).2)) := by
  unfold World.finish
  split
  · exact .answer ..
  · rename_i hopen
    have hmove : completion.status.Leads .completed := Status.leads_completed hopen
    simp only [setStatus_sessions]
    split
    · rename_i hs
      exact .move _ _ _ _ _ hk hmove (.inr (waiting?_eq_none (by simp [hs])))
    · rename_i session hs
      split
      · rename_i entry hphase
        split
        · rename_i hid
          suffices h : ∀ v : World κ ν, v = (w.setStatus (w.completionId k?) .completed).write
                (session.connection?.getD 0) (completion.redrawing session entry) →
              Turn client w (.run (.call (.finish k?) next))
                (((v.changeSession completion.session ({ · with phase := .editing entry })).schedule
                  completion.session).reply next .done) from
            h _ (redrawn_eq completion session entry)
          rintro v rfl
          exact .resume k? next rfl hk hopen hs hphase hid (by simp +contextual)
        · rename_i hid
          refine .move _ _ _ _ _ hk hmove (.inr (waiting?_eq_none ?_))
          intro session' entry' hs' hphase'
          rw [hs] at hs'
          cases hs'
          rw [hphase] at hphase'
          cases hphase'
          exact hid
      · rename_i hphase
        refine .move _ _ _ _ _ hk hmove (.inr (waiting?_eq_none ?_))
        intro session' entry' hs' hphase'
        rw [hs] at hs'
        cases hs'
        exact absurd hphase' (hphase entry')

theorem Turn.ofType (c : ConnectionId) (text : List Char) :
    Turn client w (.run (.call (.type c text) next)) (w.type c text next) := by
  unfold World.type
  split
  · exact .answer ..
  · exact .aside _ _ _ (by trivial)
  · split
    · exact .answer ..
    · exact .type c text next _ ‹_› ‹_›

theorem Turn.ofResize (c : ConnectionId) (size : Size) :
    Turn client w (.run (.call (.resize c size) next)) (w.resize client c size next) := by
  unfold World.resize
  split
  · exact .answer ..
  · exact .aside _ _ _ (by trivial)
  · split
    · exact .answer ..
    · simp only
      split
      · exact .adjust _ next .done _ (by constructor <;> intro <;> rfl)
      · exact .resize c size next _ _

/-- Every call comes to one of the turns. -/
theorem turn_perform (client : Client κ ν) (w : World κ ν) (call : Call κ ν)
    (next : Answer → Program κ ν) :
    Turn client w (.run (.call call next)) (w.perform client call next) := by
  unfold perform
  cases call with
  | install s c => exact .onSession fun _ _ => .ofInstall s c
  | uninstall s => exact .onSession fun _ _ => .ofUninstall s
  | request s r => exact .onSession fun _ _ => .ofRequest s r
  | deliver s => exact .onSession fun _ _ => .deliver s next
  | schedule s => exact .onSession fun _ _ => .schedule s next
  | setContinuation s prompt | addFunction s name f | addBuiltins s | changeHistory s change
  | setOnRead s handler? | setOnResize s handler? =>
    exact .onSession fun _ _ => .adjust _ next _ s (by constructor <;> intro <;> rfl)
  | history s | handlers s => exact .onSession fun _ _ => .answer ..
  | release s => exact .adjust _ next _ s (by constructor <;> intro <;> rfl)
  | type c text => exact .ofType c text
  | resize c size => exact .ofResize c size
  | listen c label => exact .listen c label next
  | write c text => exact .write c text next
  | runTasks c limit? => exact .runTasks c limit? next
  | complete k? text terminal =>
    refine .onCompletion fun completion hk => ?_
    exact .ofComplete text terminal hk
  | suggest k? text =>
    refine .onCompletion fun completion hk => ?_
    exact .ofSuggest text hk
  | finish k? =>
    refine .onCompletion fun completion hk => ?_
    exact .ofFinish hk
  | inspect k? =>
    refine .onCompletion fun completion hk => ?_
    exact .answer ..
  | note n => exact .aside _ next _ (by trivial)

theorem Turn.ofHandleEvent {s : SessionId} {session : Session κ} {entry : Entry κ}
    {c : ConnectionId} {event : KeyEvent} {decoder : Keys.Decoder}
    (h : w.Handles s session entry c event decoder) :
    Turn client w (.deliver s) (w.handleEvent client s session entry c event decoder) := by
  generalize hhandled :
    entry.handle session.functions session.history session.continuation event = handled
  cases houtcome : handled.outcome with
  | goesOn =>
    rw [handleEvent_goesOn hhandled houtcome]
    exact .edit s h hhandled houtcome
  | submitted line =>
    rw [handleEvent_submitted hhandled houtcome]
    exact .submit s h hhandled houtcome
  | asked handler snapshot =>
    rw [handleEvent_asked hhandled houtcome rfl]
    exact .ask s h hhandled houtcome rfl

/-- Dealing with input comes to one of the turns. -/
theorem turn_deliver (client : Client κ ν) (w : World κ ν) (s : SessionId) :
    Turn client w (.deliver s) (w.deliver client s) := by
  unfold World.deliver
  split
  · rename_i hs
    exact .stop s (by simp [hs])
  · rename_i session hs
    have hstop : session.Stops → Turn client w (.deliver s) w := fun h =>
      .stop s fun session' hs' => by rw [hs] at hs'; cases hs'; exact h
    split
    · exact hstop (.inl ‹_›)
    · rename_i event decoder hnext
      split
      · exact hstop (.inr (.inl ⟨_, ‹_›⟩))
      · rename_i hidle
        split
        · exact hstop (.inr (.inr (.inl ⟨hidle, ‹_›⟩)))
        · exact .forward s hs hidle ‹_› (by simp [hnext])
      · rename_i entry hphase
        split
        · exact hstop (.inr (.inr (.inr ⟨entry, hphase, ‹_›⟩)))
        · exact .ofHandleEvent ⟨hs, hphase, ‹_›, hnext⟩

/-- Running tasks comes to one of the turns. -/
theorem turn_nextTask (client : Client κ ν) (w : World κ ν) (c : ConnectionId)
    (limit? : Option Nat) (count : Nat) (next : Answer → Program κ ν) :
    Turn client w (.tasks c limit? count next) (w.nextTask c limit? count next) := by
  unfold nextTask
  split
  · exact .tasksOver c limit? count next (.inl ‹_›)
  · rename_i hlimit
    split
    · rename_i s rest htasks
      obtain ⟨conn, hc, htasks⟩ := Option.map_eq_some_iff.1 htasks
      exact .nextTask c limit? count next hlimit hc htasks
    · rename_i hnone
      refine .tasksOver c limit? count next (.inr fun conn hc => ?_)
      cases htasks : conn.tasks with
      | nil => rfl
      | cons s rest => exact absurd (by simp [hc, htasks]) (hnone s rest)

/-- **Every step is a turn** of the innermost job. -/
theorem turn_step (client : Client κ ν) {w : World κ ν} {job : Job κ ν} {rest : List (Job κ ν)}
    (h : w.agenda = job :: rest) :
    Turn client { w with agenda := rest } job (w.step client) := by
  unfold World.step
  rw [h]
  simp only
  cases job with
  | run p =>
    cases p with
    | done => exact .rest
    | call c next => exact turn_perform client _ c next
  | deliver s => exact turn_deliver client _ s
  | tasks c limit? count next => exact turn_nextTask client _ c limit? count next

/-- Without a job nothing happens. -/
theorem step_of_agenda_nil (client : Client κ ν) {w : World κ ν} (h : w.agenda = []) :
    w.step client = w := by
  unfold World.step
  rw [h]

end World

end LineEditor
