import LineEditor.Proofs.Keys.Extension
import LineEditor.Proofs.Session.Turn
import LineEditor.Text.Width.Table

/-!
# Calm worlds

What comes of a world does not depend on when things happen in it. To say so, `World.calm` forgets
when: nothing is running, no task is queued, and a text has already been typed that the sessions
would get later.

What moves a world on commutes with `calm`: the calls with which client code answers a session
(`calm_perform`), and the handling of an event, which is decoded from the waiting characters alike
whatever is typed later (`calm_handleEvent`).
-/

namespace LineEditor

variable {κ ν : Type}

/-- A session for which a text has already been typed. -/
def Session.fed (session : Session κ) (text : List Char) : Session κ :=
  { session with decoder := session.decoder.append text }

@[simp]
theorem Session.fed_nil (session : Session κ) : session.fed [] = session := by
  simp [fed, Keys.Decoder.append]

theorem Session.fed_fed (session : Session κ) (s t : List Char) :
    (session.fed s).fed t = session.fed (s ++ t) := by
  simp [fed, Keys.Decoder.append_append]

/-- The calls with which client code answers a session: the next request, and what is said of a
completion. -/
def Call.Answers : Call κ ν → Prop
  | .request _ _ | .complete _ _ _ | .suggest _ _ | .finish _ => True
  | _ => False

namespace World

variable {client : Client κ ν} {w : World κ ν} {text : List Char}

/-- The world when nothing is running or queued, and a text has already been typed. -/
def calm (w : World κ ν) (text : List Char) : World κ ν where
  sessions := w.sessions.map (·.fed text)
  connections := w.connections.map ({ · with tasks := [] })
  completions := w.completions
  agenda := []
  record := w.record

section Calm

variable (w) (text)

@[simp] theorem calm_completions : (w.calm text).completions = w.completions := rfl
@[simp] theorem calm_push (job : Job κ ν) : (w.push job).calm text = w.calm text := rfl

@[simp]
theorem calm_reply (next : Answer → Program κ ν) (a : Answer) :
    (w.reply next a).calm text = w.calm text := rfl

@[simp]
theorem calm_log (o : Occurrence ν) : (w.log o).calm text = (w.calm text).log o := rfl

@[simp]
theorem calm_setStatus (k : CompletionId) (status : Status) :
    (w.setStatus k status).calm text = (w.calm text).setStatus k status := rfl

@[simp]
theorem calm_write (c : ConnectionId) (output : List Char) :
    (w.write c output).calm text = (w.calm text).write c output := by
  unfold write
  split <;> rfl

theorem getElem?_sessions_calm (s : SessionId) :
    (w.calm text).sessions[s]? = (·.fed text) <$> w.sessions[s]? :=
  List.getElem?_map

/-- Calming once more changes nothing. -/
@[simp]
theorem calm_calm : (w.calm text).calm [] = w.calm text := by
  simp [calm]

@[simp]
theorem completionId_calm (k? : Option CompletionId) :
    (w.calm text).completionId k? = w.completionId k? := rfl

end Calm

/-- A change of a session that commutes with typing. -/
theorem calm_changeSession {s : SessionId} {f f' : Session κ → Session κ}
    (hf : ∀ session, (f session).fed text = f' (session.fed text)) :
    (w.changeSession s f).calm text = (w.calm text).changeSession s f' := by
  have hsessions : (w.sessions.modify s f).map (·.fed text) =
      (w.sessions.map (·.fed text)).modify s f' := by
    refine List.ext_getElem? fun t => ?_
    simp only [List.getElem?_map, List.getElem?_modify]
    cases w.sessions[t]? with
    | none => rfl
    | some session =>
      by_cases hst : s = t
      · simp [hst, hf]
      · simp [hst]
  unfold changeSession calm
  rw [hsessions]

/-- A change of a session in worlds that are calm alike. -/
theorem calm_changeSession_congr {w' : World κ ν} {s : SessionId} {f f' : Session κ → Session κ}
    (hw : w.calm text = w'.calm [])
    (hf : ∀ session, (f session).fed text = f' (session.fed text)) :
    (w.changeSession s f).calm text = (w'.changeSession s f').calm [] := by
  have hnil : ∀ session : Session κ, (f' session).fed [] = f' (session.fed []) := by simp
  rw [calm_changeSession hf, hw, calm_changeSession hnil]

/-- A change of a connection's tasks is forgotten. -/
theorem calm_changeConnection {c : ConnectionId} {g : Connection → Connection}
    (hg : ∀ conn, { g conn with tasks := [] } = { conn with tasks := [] }) :
    (w.changeConnection c g).calm text = w.calm text := by
  have hconnections : (w.connections.modify c g).map ({ · with tasks := [] }) =
      w.connections.map ({ · with tasks := [] }) := by
    refine List.ext_getElem? fun d => ?_
    simp only [List.getElem?_map, List.getElem?_modify]
    cases w.connections[d]? with
    | none => rfl
    | some conn =>
      by_cases hcd : c = d
      · simp [hcd, hg]
      · simp [hcd]
  unfold changeConnection calm
  rw [hconnections]

@[simp]
theorem calm_schedule (w : World κ ν) (text : List Char) (s : SessionId) :
    (w.schedule s).calm text = w.calm text := by
  obtain h | ⟨d, h⟩ := w.schedule_eq_or s
  · rw [h]
  · rw [h]
    exact calm_changeConnection fun _ => rfl

/-! ### Calls -/

theorem waiting?_calm (w : World κ ν) (text : List Char) (completion : Completion) :
    (w.calm text).waiting? completion = w.waiting? completion := by
  unfold waiting?
  rw [getElem?_sessions_calm]
  cases w.sessions[completion.session]? <;> rfl

theorem calm_request (w : World κ ν) (text : List Char) (s : SessionId) (r : Request κ) :
    (w.request s r).1.calm text = ((w.calm text).request s r).1.calm [] := by
  unfold World.request
  rw [getElem?_sessions_calm]
  cases w.sessions[s]? with
  | none => simp
  | some session =>
    cases hc : session.connection? with
    | none => simp [Session.fed, hc]
    | some c =>
      cases hidle : session.phase.isIdle with
      | false => simp [Session.fed, hc, hidle]
      | true =>
        simp only [Option.map_eq_map, Option.map_some, Session.fed, hc, hidle, if_true,
          calm_schedule, calm_write]
        refine congrArg (World.write · c r.prompt) (calm_changeSession_congr ?_ ?_)
        · exact (calm_calm w text).symm
        · exact fun _ => rfl

theorem calm_complete (w : World κ ν) (text : List Char) (k : CompletionId)
    (completion : Completion) (insertion : List Char) (terminal : Bool) :
    (w.complete k completion insertion terminal).1.calm text =
      ((w.calm text).complete k completion insertion terminal).1.calm [] := by
  have hwaiting : ((w.calm text).setStatus k .inlining).waiting? completion =
      (w.setStatus k .inlining).waiting? completion := waiting?_calm w text completion
  unfold World.complete
  simp only [hwaiting]
  split
  · simp
  · split
    · simp
    · split
      · simp
      · rename_i c entry _
        split
        · simp
        · simp only [calm_write]
          refine congrArg (World.write · c _) (calm_changeSession_congr ?_ ?_)
          · simp
          · exact fun _ => rfl

theorem calm_suggest (w : World κ ν) (text : List Char) (k : CompletionId)
    (completion : Completion) (suggestion : List Char) :
    (w.suggest k completion suggestion).1.calm text =
      ((w.calm text).suggest k completion suggestion).1.calm [] := by
  have hwaiting : ((w.calm text).setStatus k .completing).waiting? completion =
      (w.setStatus k .completing).waiting? completion := waiting?_calm w text completion
  unfold World.suggest
  simp only [hwaiting]
  split
  · split <;> simp
  · simp

theorem calm_finish (w : World κ ν) (text : List Char) (k : CompletionId)
    (completion : Completion) :
    (w.finish k completion).1.calm text = ((w.calm text).finish k completion).1.calm [] := by
  unfold World.finish
  split
  · simp
  · simp only [setStatus_sessions, getElem?_sessions_calm]
    cases w.sessions[completion.session]? with
    | none => simp
    | some session =>
      simp only [Option.map_eq_map, Option.map_some]
      cases hphase : session.phase with
      | idle | editing entry => simp [Session.fed, hphase]
      | completing entry =>
        simp only [Session.fed, hphase]
        split
        · simp only [calm_schedule]
          refine calm_changeSession_congr ?_ fun _ => rfl
          split <;> simp
        · simp

/-- **A call** that answers a session commutes with calming, whoever makes it. -/
theorem calm_perform {call : Call κ ν} (hcall : call.Answers) (client' : Client κ ν)
    (next next' : Answer → Program κ ν) :
    (w.perform client call next).calm text =
      ((w.calm text).perform client' call next').calm [] := by
  -- which session or completion a call finds does not depend on what is forgotten
  have hsession : ∀ {s : SessionId} {act act' : Session κ → World κ ν},
      (∀ session, (act session).calm text = (act' (session.fed text)).calm []) →
        (w.onSession s next act).calm text = ((w.calm text).onSession s next' act').calm [] := by
    intro s act act' hact
    unfold onSession session?
    rw [getElem?_sessions_calm]
    cases w.sessions[s]? with
    | none => simp
    | some session =>
      cases hreleased : session.released with
      | true => simp [Session.fed, hreleased, Option.filter]
      | false => simpa [Session.fed, hreleased, Option.filter] using hact session
  have hcompletion : ∀ {k? : Option CompletionId}
      {act act' : CompletionId → Completion → World κ ν},
      (∀ k completion, (act k completion).calm text = (act' k completion).calm []) →
        (w.onCompletion k? next act).calm text =
          ((w.calm text).onCompletion k? next' act').calm [] := by
    intro k? act act' hact
    unfold onCompletion
    rw [completionId_calm, calm_completions]
    split
    · simp
    · exact hact _ _
  cases call with
  | request s r => exact hsession fun _ => calm_request w text s r
  | complete k? insertion terminal =>
    exact hcompletion fun k completion => calm_complete w text k completion insertion terminal
  | suggest k? suggestion =>
    exact hcompletion fun k completion => calm_suggest w text k completion suggestion
  | finish k? => exact hcompletion fun k completion => calm_finish w text k completion
  | _ => cases hcall

/-! ### Events -/

/-- An event that is to be handled is so in the calm world. -/
theorem Handles.calm {s : SessionId} {session : Session κ} {entry : Entry κ} {c : ConnectionId}
    {event : KeyEvent} {decoder : Keys.Decoder} (h : w.Handles s session entry c event decoder)
    (text : List Char) :
    (w.calm text).Handles s (session.fed text) entry c event (decoder.append text) where
  lookup := by
    rw [getElem?_sessions_calm, h.lookup]
    rfl
  phase := h.phase
  connection := h.connection
  next := Keys.Decoder.next?_append h.next text

/-- **The handling of an event** commutes with calming, whatever client stands by. -/
theorem calm_handleEvent (client' : Client κ ν) {s : SessionId} {session : Session κ}
    {entry : Entry κ} {c : ConnectionId} {event : KeyEvent} {decoder : Keys.Decoder} :
    (w.handleEvent client s session entry c event decoder).calm text =
      ((w.calm text).handleEvent client' s (session.fed text) entry c event
        (decoder.append text)).calm [] := by
  have hafter : ∀ (handled : Handled κ) (phase : Phase κ),
      (w.afterEvent s c handled decoder phase).calm text =
        ((w.calm text).afterEvent s c handled (decoder.append text) phase).calm [] := by
    intro handled phase
    simp only [afterEvent, calm_push, calm_write]
    refine congrArg (World.write · c _) (calm_changeSession_congr ?_ ?_)
    · exact (calm_calm w text).symm
    · exact fun _ => rfl
  generalize hhandled :
    entry.handle session.functions session.history session.continuation event = handled
  -- what is typed later has no part in how the entry handles the event
  have hhandled' : entry.handle (session.fed text).functions (session.fed text).history
      (session.fed text).continuation event = handled := hhandled
  cases houtcome : handled.outcome with
  | goesOn =>
    rw [handleEvent_goesOn hhandled houtcome, handleEvent_goesOn hhandled' houtcome]
    exact hafter handled _
  | submitted line =>
    rw [handleEvent_submitted hhandled houtcome, handleEvent_submitted hhandled' houtcome]
    exact congrArg (World.log · _) (hafter handled _)
  | asked handler snapshot =>
    rw [handleEvent_asked hhandled houtcome rfl, handleEvent_asked hhandled' houtcome rfl]
    exact congrArg (fun v : World κ ν => ({ v with
        completions := w.completions ++ [({
          session := s, entryId := entry.id, snapshot, size? := session.size? } : Completion)] } :
      World κ ν).log (.asked w.completions.length
        { session := s, entryId := entry.id, snapshot, size? := session.size? }))
      (hafter handled (.completing handled.entry))

end World

end LineEditor
