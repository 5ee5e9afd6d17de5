import LineEditor.Proofs.Session.Conservation

/-!
# The life of a request

A request that is accepted gets a number and is live. It ends in one of two ways: its line is
complete and is handed to its handler, or its session is taken off its connection. These are the
`Milestone`s of a session. Which of them a step brings, if any, stands in the innermost job
(`World.milestone?`), and nothing else makes a request live or ends one (`step_marks`).

So the milestones of a session along a run follow one another in a fixed way (`Succession`): each
request that is accepted is the only live one until the very next milestone ends it, and its number
is used for no other. `Pristine.life_cycle` draws the consequences.
-/

namespace LineEditor

variable {κ ν : Type}

/-! ### Milestones -/

/-- A turning point in the life of a request, which has a number in its session. -/
inductive Milestone (κ : Type) where
  /-- The request is accepted. -/
  | accepted (id : Nat) (r : Request κ)
  /-- The line of the request is handed to its handler. -/
  | delivered (id : Nat) (r : Request κ) (line : List Char)
  /-- The request is dropped, since its session is taken off its connection. -/
  | dropped (id : Nat) (r : Request κ)

namespace Milestone

/-- The number of the request. -/
def id : Milestone κ → Nat
  | .accepted id _ | .delivered id _ _ | .dropped id _ => id

/-- The request that is accepted, with its number. -/
def accepted? : Milestone κ → Option (Nat × Request κ)
  | .accepted id r => some (id, r)
  | .delivered _ _ _ | .dropped _ _ => none

/-- The request whose line is delivered, with its number. -/
def delivered? : Milestone κ → Option (Nat × Request κ)
  | .delivered id r _ => some (id, r)
  | .accepted _ _ | .dropped _ _ => none

/-- What is delivered, and under which number. -/
def delivery? : Milestone κ → Option (Nat × List Char)
  | .delivered id _ line => some (id, line)
  | .accepted _ _ | .dropped _ _ => none

/-- A milestone ends the life of a request, in one of the two ways. -/
def Concludes (m : Milestone κ) (id : Nat) (r : Request κ) : Prop :=
  (∃ line, m = .delivered id r line) ∨ m = .dropped id r

end Milestone

/-- The live request, with its number. -/
def Session.live? (session : Session κ) : Option (Nat × Request κ) :=
  session.phase.entry?.map fun entry => (entry.id, entry.request)

theorem Session.live?_of_idle {session : Session κ} (h : session.phase = .idle) :
    session.live? = none := by
  rw [live?, h]
  rfl

theorem Session.live?_of_editing {session : Session κ} {entry : Entry κ}
    (h : session.phase = .editing entry) : session.live? = some (entry.id, entry.request) := by
  rw [live?, h]
  rfl

theorem Session.live?_of_completing {session : Session κ} {entry : Entry κ}
    (h : session.phase = .completing entry) : session.live? = some (entry.id, entry.request) := by
  rw [live?, h]
  rfl

/-- The milestone that dealing with the next piece of its input brings a session. -/
def Session.delivery? (session : Session κ) : Option (Milestone κ) :=
  match session.decoder.next?, session.phase, session.connection? with
  | some (event, _), .editing entry, some _ =>
    match (entry.handle session.functions session.history session.continuation event).outcome with
    | .submitted line => some (.delivered entry.id entry.request line)
    | _ => none
  | _, _, _ => none

/-- What an occurrence hands to a handler of lines of session `s`. -/
def Occurrence.deliveredTo? (s : SessionId) : Occurrence ν → Option (Nat × List Char)
  | .delivered t id line => if t = s then some (id, line) else none
  | _ => none

namespace World

variable {client : Client κ ν} {w w' : World κ ν} {s : SessionId} {session : Session κ}

/-- The live request of session `s`, with its number. -/
def live? (w : World κ ν) (s : SessionId) : Option (Nat × Request κ) :=
  w.sessions[s]?.bind Session.live?

/-- The milestone that comes for session `s` when the innermost job is taken up. A request, or the
end of one, is a call that is carried out and not refused. -/
def milestone? (w : World κ ν) (s : SessionId) : Option (Milestone κ) :=
  match w.agenda with
  | .run (.call (.request t r) _) :: rest =>
    if t = s then
      (w.session? s).bind fun session =>
        match (({ w with agenda := rest } : World κ ν).request s r).2 with
        | .ok () => some (.accepted session.nextId r)
        | .error _ => none
    else none
  | .run (.call (.uninstall t) _) :: rest =>
    if t = s then
      (w.session? s).bind fun session =>
        match (({ w with agenda := rest } : World κ ν).uninstall s).2 with
        | .ok () => session.live?.map fun live => .dropped live.1 live.2
        | .error _ => none
    else none
  | .deliver t :: _ => if t = s then w.sessions[s]?.bind Session.delivery? else none
  | _ => none

/-- The milestones of session `s` along a run. -/
def milestones (w : World κ ν) (s : SessionId) (choices : List (Choice κ ν)) :
    List (Milestone κ) :=
  (w.stepped choices).filterMap (·.milestone? s)

/-- What was handed to handlers of lines of session `s`, with the numbers of their requests, the
earliest first. -/
def deliveries (w : World κ ν) (s : SessionId) : List (Nat × List Char) :=
  w.record.reverse.filterMap (·.deliveredTo? s)

/-- What a milestone is in the step from `w`, with session `s` before and after it. -/
inductive Marks (client : Client κ ν) (w : World κ ν) (s : SessionId)
    (before after : Session κ) : Option (Milestone κ) → Prop where
  /-- The live request stays as it is, if there is one. -/
  | nothing (hlive : after.live? = before.live?) (hnext : after.nextId = before.nextId) :
      Marks client w s before after none
  /-- An idle session gets a live request, which has the next number. -/
  | accepted {r next rest} (hagenda : w.agenda = .run (.call (.request s r) next) :: rest)
      (hidle : before.phase = .idle) (hlive : after.live? = some (before.nextId, r))
      (hnext : after.nextId = before.nextId + 1)
      (hanswer : (w.step client).agenda = .run (next .done) :: rest) :
      Marks client w s before after (some (.accepted before.nextId r))
  /-- An event completes the line. The session is idle, and the handler runs with the line. -/
  | delivered {entry c event decoder line rest} (hagenda : w.agenda = .deliver s :: rest)
      (hhandles : ({ w with agenda := rest } : World κ ν).Handles s before entry c event decoder)
      (hline : (entry.handle before.functions before.history before.continuation event).outcome =
        .submitted line)
      (hidle : after.phase = .idle) (hconnection : after.connection? = before.connection?)
      (hnext : after.nextId = before.nextId)
      (hrun : (w.step client).agenda =
        .run (client.onLine entry.request.onLine line) :: .deliver s :: rest) :
      Marks client w s before after (some (.delivered entry.id entry.request line))
  /-- The session is taken off its connection, and is idle. -/
  | dropped {id r next rest} (hagenda : w.agenda = .run (.call (.uninstall s) next) :: rest)
      (hlive : before.live? = some (id, r)) (hidle : after.phase = .idle)
      (hconnection : after.connection? = none) (hnext : after.nextId = before.nextId) :
      Marks client w s before after (some (.dropped id r))

/-! ### One step -/

theorem milestone?_eq_none
    (hrequest : ∀ r next rest, w.agenda ≠ .run (.call (.request s r) next) :: rest)
    (huninstall : ∀ next rest, w.agenda ≠ .run (.call (.uninstall s) next) :: rest)
    (hdeliver : ∀ rest, w.agenda ≠ .deliver s :: rest) : w.milestone? s = none := by
  unfold milestone?
  split
  next t r next rest hagenda =>
    exact if_neg fun h : t = s => hrequest r next rest (h ▸ hagenda)
  next t next rest hagenda =>
    exact if_neg fun h : t = s => huninstall next rest (h ▸ hagenda)
  next t rest hagenda => exact if_neg fun h : t = s => hdeliver rest (h ▸ hagenda)
  next => rfl

/-- The live request and the next number are changed by three kinds of jobs only. -/
theorem Turn.live?_eq {job : Job κ ν} (hturn : Turn client w job w')
    (hrequest : ∀ r next, job ≠ .run (.call (.request s r) next))
    (huninstall : ∀ next, job ≠ .run (.call (.uninstall s) next)) (hdeliver : job ≠ .deliver s)
    (hs : w.sessions[s]? = some session) :
    ∃ after, w'.sessions[s]? = some after ∧
      after.live? = session.live? ∧ after.nextId = session.nextId := by
  cases hturn with
  | rest | answer | aside | write | listen | schedule | deliver | runTasks | stop | tasksOver
  | nextTask | move | suggest => exact ⟨session, by simpa using hs, rfl, rfl⟩
  | adjust call next a t hf =>
    refine exists_changeSession rfl hs ⟨rfl, rfl⟩ fun _ => ⟨?_, hf.nextId session⟩
    rw [Session.live?, hf.phase, Session.live?]
  | resize | type | install => exact exists_changeSession rfl hs ⟨rfl, rfl⟩ fun _ => ⟨rfl, rfl⟩
  | request t r next =>
    refine exists_changeSession (by
      simp only [reply_sessions, schedule_sessions, write_sessions]
      rfl) hs ⟨rfl, rfl⟩ ?_
    exact fun h => absurd (h ▸ rfl) (hrequest r next)
  | uninstall t next =>
    exact exists_changeSession rfl hs ⟨rfl, rfl⟩ fun h => absurd (h ▸ rfl) (huninstall next)
  | insert k? text terminal next hk? hk hpending hwait =>
    obtain ⟨waiting, ht, -, hphase, -⟩ := waiting?_eq_some_iff.1 hwait
    refine exists_changeSession (by simp only [reply_sessions, write_sessions]; rfl) hs
      ⟨rfl, rfl⟩ ?_
    rintro rfl
    obtain rfl := Option.some_inj.1 (hs.symm.trans ht)
    exact ⟨(Session.live?_of_completing hphase).symm, rfl⟩
  | resume k? next hk? hk hopen ht hphase =>
    refine exists_changeSession (by
      simp only [reply_sessions, schedule_sessions, changeSession, write_sessions,
        setStatus_sessions]
      rfl) hs ⟨rfl, rfl⟩ ?_
    rintro rfl
    obtain rfl := Option.some_inj.1 (hs.symm.trans ht)
    exact ⟨(Session.live?_of_completing hphase).symm, rfl⟩
  | forward t => exact exists_changeSession rfl hs ⟨rfl, rfl⟩ fun h => absurd (h ▸ rfl) hdeliver
  | edit t | submit t | ask t =>
    refine exists_changeSession (by
      simp only [push_sessions, log_sessions, afterEvent_sessions]
      rfl) hs ⟨rfl, rfl⟩ ?_
    exact fun h => absurd (h ▸ rfl) hdeliver

/-- A session that is found and has not been given up is the session. -/
theorem session?_eq_or (hs : w.sessions[s]? = some session) :
    w.session? s = none ∨ w.session? s = some session := by
  cases hreleased : session.released with
  | false => exact .inr (by simp [session?, hs, hreleased, Option.filter])
  | true => exact .inl (by simp [session?, hs, hreleased, Option.filter])

/-- A request is accepted by an idle session on a connection, and refused otherwise without any
effect. -/
theorem request_cases (hs : w.sessions[s]? = some session) (r : Request κ) :
    (session.phase = .idle ∧ ∃ c, session.connection? = some c ∧
      (w.request s r).2 = .ok () ∧ (w.request s r).1.agenda = w.agenda ∧
        (w.request s r).1.sessions[s]? = some
          { session with
            phase := .editing { id := session.nextId, request := r }
            nextId := session.nextId + 1 }) ∨
      ∃ why, w.request s r = (w, .error why) ∧
        (session.phase ≠ .idle → session.connection? ≠ none → why = .alreadyReading) := by
  unfold World.request
  rw [hs]
  dsimp only
  cases hc : session.connection? with
  | none => exact .inr ⟨.notInstalled, rfl, fun _ h => absurd rfl h⟩
  | some c =>
    cases hphase : session.phase with
    | idle =>
      refine .inl ⟨rfl, c, rfl, rfl, ?_, ?_⟩
      · simp [Phase.isIdle]
      · simp [Phase.isIdle, getElem?_sessions_changeSession, hs, hc]
    | editing entry | completing entry =>
      exact .inr ⟨.alreadyReading, rfl, fun _ _ => rfl⟩

/-- A session on a connection is taken off it, and any other refuses without any effect. -/
theorem uninstall_cases (hs : w.sessions[s]? = some session) :
    (session.connection? ≠ none ∧ (w.uninstall s).2 = .ok () ∧
      (w.uninstall s).1.agenda = w.agenda ∧
        (w.uninstall s).1.sessions[s]? = some
          { session with
            connection? := none
            phase := .idle
            savedInput? := none
            savedResize? := none }) ∨
      w.uninstall s = (w, .error .notInstalled) := by
  unfold World.uninstall
  rw [hs]
  dsimp only
  cases hc : session.connection? with
  | none => exact .inr rfl
  | some c =>
    refine .inl ⟨nofun, rfl, rfl, ?_⟩
    simp [getElem?_sessions_changeSession, hs]

/-- The milestone of a request. -/
theorem marks_request {r : Request κ} {next : Answer → Program κ ν} {rest : List (Job κ ν)}
    (hagenda : w.agenda = .run (.call (.request s r) next) :: rest)
    (hs : w.sessions[s]? = some session) :
    ∃ after, (w.step client).sessions[s]? = some after ∧
      Marks client w s session after (w.milestone? s) := by
  have hstep : w.step client = ({ w with agenda := rest } : World κ ν).onSession s next fun _ =>
      (({ w with agenda := rest } : World κ ν).request s r).1.reply next
        (answerOf (({ w with agenda := rest } : World κ ν).request s r).2) := by
    rw [step, hagenda]
    rfl
  have hmilestone : w.milestone? s = (w.session? s).bind fun session =>
      match (({ w with agenda := rest } : World κ ν).request s r).2 with
      | .ok () => some (.accepted session.nextId r)
      | .error _ => none := by
    rw [milestone?, hagenda]
    exact if_pos rfl
  have hs' : ({ w with agenda := rest } : World κ ν).sessions[s]? = some session := hs
  have hlive : ({ w with agenda := rest } : World κ ν).session? s = w.session? s := rfl
  obtain hgone | hkept := session?_eq_or hs
  · rw [hstep, hmilestone, onSession, hlive, hgone]
    exact ⟨session, hs, .nothing rfl rfl⟩
  · obtain ⟨hidle, c, hc, hok, hrest, hafter⟩ | ⟨why, hrefused, -⟩ := request_cases hs' r
    · have hanswer : (w.step client).agenda = .run (next .done) :: rest := by
        rw [hstep, onSession, hlive, hkept, hok]
        exact congrArg (.run (next .done) :: ·) hrest
      rw [hmilestone, hkept, hok, hstep, onSession, hlive, hkept]
      exact ⟨_, hafter, .accepted hagenda hidle rfl rfl hanswer⟩
    · rw [hstep, hmilestone, onSession, hlive, hkept, hrefused]
      exact ⟨session, hs, .nothing rfl rfl⟩

/-- The milestone of the end of a session on its connection. -/
theorem marks_uninstall {next : Answer → Program κ ν} {rest : List (Job κ ν)}
    (hagenda : w.agenda = .run (.call (.uninstall s) next) :: rest)
    (hs : w.sessions[s]? = some session) :
    ∃ after, (w.step client).sessions[s]? = some after ∧
      Marks client w s session after (w.milestone? s) := by
  have hstep : w.step client = ({ w with agenda := rest } : World κ ν).onSession s next fun _ =>
      (({ w with agenda := rest } : World κ ν).uninstall s).1.reply next
        (answerOf (({ w with agenda := rest } : World κ ν).uninstall s).2) := by
    rw [step, hagenda]
    rfl
  have hmilestone : w.milestone? s = (w.session? s).bind fun session =>
      match (({ w with agenda := rest } : World κ ν).uninstall s).2 with
      | .ok () => session.live?.map fun live => .dropped live.1 live.2
      | .error _ => none := by
    rw [milestone?, hagenda]
    exact if_pos rfl
  have hs' : ({ w with agenda := rest } : World κ ν).sessions[s]? = some session := hs
  have hlive : ({ w with agenda := rest } : World κ ν).session? s = w.session? s := rfl
  obtain hgone | hkept := session?_eq_or hs
  · rw [hstep, hmilestone, onSession, hlive, hgone]
    exact ⟨session, hs, .nothing rfl rfl⟩
  · obtain ⟨-, hok, -, hafter⟩ | hrefused := uninstall_cases hs'
    · rw [hmilestone, hkept, hok, hstep, onSession, hlive, hkept]
      refine ⟨_, hafter, ?_⟩
      dsimp only [Option.bind_some]
      cases hrequest : session.live? with
      | none => exact .nothing ((Session.live?_of_idle rfl).trans hrequest.symm) rfl
      | some live =>
        obtain ⟨id, r⟩ := live
        exact .dropped hagenda hrequest rfl rfl rfl
    · rw [hstep, hmilestone, onSession, hlive, hkept, hrefused]
      exact ⟨session, hs, .nothing rfl rfl⟩

/-- A session with nothing to do delivers nothing. -/
theorem delivery?_of_stops (h : session.Stops) : session.delivery? = none := by
  rw [Session.delivery?]
  obtain hnext | ⟨entry, hphase⟩ | ⟨hphase, -⟩ | ⟨entry, -, hconnection⟩ := h
  · rw [hnext]
  · rw [hphase]
    split <;> first | rfl | cases ‹Phase.completing entry = .editing _›
  · rw [hphase]
    split <;> first | rfl | cases ‹Phase.idle = .editing _›
  · rw [hconnection]
    split <;> first | rfl | cases ‹none = some _›

/-- An idle session delivers nothing. -/
theorem delivery?_of_idle (h : session.phase = .idle) : session.delivery? = none := by
  rw [Session.delivery?, h]
  split <;> first | rfl | cases ‹Phase.idle = .editing _›

/-- What an event delivers. -/
theorem Handles.delivery? {entry : Entry κ} {c : ConnectionId} {event : KeyEvent}
    {decoder : Keys.Decoder} {handled : Handled κ} (h : w.Handles s session entry c event decoder)
    (hhandled : entry.handle session.functions session.history session.continuation event =
      handled) : session.delivery? =
      match handled.outcome with
      | .submitted line => some (.delivered entry.id entry.request line)
      | _ => none := by
  rw [Session.delivery?, h.next, h.phase, h.connection]
  dsimp only
  rw [hhandled]

theorem milestone?_of_deliver {t : SessionId} {rest : List (Job κ ν)}
    (hagenda : w.agenda = .deliver t :: rest) :
    w.milestone? s = if t = s then w.sessions[s]?.bind Session.delivery? else none := by
  rw [milestone?, hagenda]

/-- The milestone of dealing with input. -/
theorem marks_deliver {rest : List (Job κ ν)} (hagenda : w.agenda = .deliver s :: rest)
    (hs : w.sessions[s]? = some session) :
    ∃ after, (w.step client).sessions[s]? = some after ∧
      Marks client w s session after (w.milestone? s) := by
  have hmilestone : w.milestone? s = session.delivery? := by
    rw [milestone?_of_deliver hagenda, if_pos rfl, hs]
    rfl
  have hs' : ({ w with agenda := rest } : World κ ν).sessions[s]? = some session := hs
  have hturn := turn_step client hagenda
  rw [hmilestone]
  generalize hw' : w.step client = w' at hturn ⊢
  -- an event that does not end the line leaves the request live
  have hevent : ∀ {v : World κ ν} {entry c event decoder handled} {phase : Phase κ},
      ({ w with agenda := rest } : World κ ν).Handles s session entry c event decoder →
        entry.handle session.functions session.history session.continuation event = handled →
          phase.entry? = some handled.entry →
            v.sessions =
              (({ w with agenda := rest } : World κ ν).afterEvent s c handled decoder
                phase).sessions →
              ∃ after, v.sessions[s]? = some after ∧ Marks client w s session after none := by
    intro v entry c event decoder handled phase hh hhandled hentry hv
    rw [hv, afterEvent_sessions, getElem?_sessions_changeSession, hs']
    refine ⟨_, congrArg some (if_pos rfl), .nothing ?_ rfl⟩
    rw [Session.live?_of_editing hh.phase, Session.live?, hentry, ← hhandled]
    exact congrArg some (congrArg₂ Prod.mk (Entry.id_handle ..) (Entry.request_handle ..))
  cases hturn with
  | stop _ h =>
    rw [delivery?_of_stops (h session hs')]
    exact ⟨session, hs, .nothing rfl rfl⟩
  | forward _ hs₁ hidle =>
    obtain rfl := Option.some_inj.1 (hs'.symm.trans hs₁)
    rw [delivery?_of_idle hidle]
    refine ⟨{ session with decoder := session.decoder.takeAll.2 }, ?_, .nothing rfl rfl⟩
    simp [getElem?_sessions_changeSession, hs]
  | edit _ hh hhandled hgoes =>
    obtain rfl := Option.some_inj.1 (hs'.symm.trans hh.lookup)
    rw [hh.delivery? hhandled, hgoes]
    exact hevent hh hhandled rfl rfl
  | ask _ hh hhandled hasked =>
    obtain rfl := Option.some_inj.1 (hs'.symm.trans hh.lookup)
    rw [hh.delivery? hhandled, hasked]
    exact hevent hh hhandled rfl rfl
  | submit _ hh hhandled hsubmitted =>
    obtain rfl := Option.some_inj.1 (hs'.symm.trans hh.lookup)
    rename_i entry c event decoder handled line
    rw [hh.delivery? hhandled, hsubmitted]
    refine ⟨{ session with phase := .idle, decoder, history := handled.history }, ?_,
      .delivered hagenda hh (by rw [hhandled, hsubmitted]) rfl rfl rfl ?_⟩
    · simp [getElem?_sessions_changeSession, hs]
    · rw [hw', push_agenda, log_agenda, afterEvent_agenda]

/-- **Step lemma.** The live request of a session changes by the milestone, if one comes. -/
theorem step_marks (client : Client κ ν) (hs : w.sessions[s]? = some session) :
    ∃ after, (w.step client).sessions[s]? = some after ∧
      Marks client w s session after (w.milestone? s) := by
  by_cases hrequest : ∃ r next rest, w.agenda = .run (.call (.request s r) next) :: rest
  · obtain ⟨r, next, rest, hagenda⟩ := hrequest
    exact marks_request hagenda hs
  by_cases huninstall : ∃ next rest, w.agenda = .run (.call (.uninstall s) next) :: rest
  · obtain ⟨next, rest, hagenda⟩ := huninstall
    exact marks_uninstall hagenda hs
  by_cases hdeliver : ∃ rest, w.agenda = .deliver s :: rest
  · obtain ⟨rest, hagenda⟩ := hdeliver
    exact marks_deliver hagenda hs
  push Not at hrequest huninstall hdeliver
  rw [milestone?_eq_none hrequest huninstall hdeliver]
  cases hagenda : w.agenda with
  | nil =>
    rw [step_of_agenda_nil client hagenda]
    exact ⟨session, hs, .nothing rfl rfl⟩
  | cons job rest =>
    obtain ⟨after, hafter, hlive, hnext⟩ := (turn_step client hagenda).live?_eq
      (fun r next h => hrequest r next rest (h ▸ hagenda))
      (fun next h => huninstall next rest (h ▸ hagenda))
      (fun h => hdeliver rest (h ▸ hagenda)) hs
    exact ⟨after, hafter, .nothing hlive hnext⟩

/-! ### What handlers of lines have got -/

/-- What is handed to a handler of lines is told of handlers. -/
theorem ofHandlers_deliveredTo? (s : SessionId) :
    OfHandlers (·.deliveredTo? s : Occurrence ν → Option (Nat × List Char)) where
  wrote _ _ := rfl
  aside o ho := by cases o <;> first | rfl | cases ho
  resized _ _ := rfl

/-- What dealing with its input hands to a handler of lines is the line of the milestone. -/
theorem deliveries_deliver {t : SessionId} {rest : List (Job κ ν)}
    (hagenda : w.agenda = .deliver t :: rest) (s : SessionId) :
    (w.step client).deliveries s =
      w.deliveries s ++ ((w.milestone? s).bind Milestone.delivery?).toList := by
  have hblind := ofHandlers_deliveredTo? (ν := ν) s
  have hturn := turn_step client hagenda
  -- what session `t` delivers counts if it is session `s`
  have hmilestone : ∀ {other : Session κ}, w.sessions[t]? = some other →
      w.milestone? s = if t = s then other.delivery? else none := by
    intro other ht
    rw [milestone?_of_deliver hagenda]
    split
    next h => rw [← h, ht]; rfl
    next => rfl
  have hsame : ∀ {v : World κ ν}, v.deliveries s = w.deliveries s → w.milestone? s = none →
      v.deliveries s = w.deliveries s ++ ((w.milestone? s).bind Milestone.delivery?).toList := by
    intro v hv hnone
    rw [hv, hnone]
    exact (List.append_nil _).symm
  generalize w.step client = w' at hturn ⊢
  cases hturn with
  | stop _ h =>
    refine hsame rfl ?_
    cases ht : w.sessions[t]? with
    | none =>
      rw [milestone?_of_deliver hagenda]
      split
      next hts => rw [← hts, ht]; rfl
      next => rfl
    | some other => rw [hmilestone ht, delivery?_of_stops (h other ht), ite_self]
  | forward _ ht hidle =>
    refine hsame (told_log_of_none rfl) ?_
    rw [hmilestone ht, delivery?_of_idle hidle, ite_self]
  | edit _ hh hhandled hgoes =>
    refine hsame (told_afterEvent hblind ..) ?_
    rw [hmilestone hh.lookup, hh.delivery? hhandled, hgoes]
    exact ite_self _
  | ask _ hh hhandled hasked =>
    refine hsame ((told_log_of_none rfl).trans (told_afterEvent hblind ..)) ?_
    rw [hmilestone hh.lookup, hh.delivery? hhandled, hasked]
    exact ite_self _
  | submit _ hh hhandled hsubmitted =>
    rename_i entry c event decoder handled line
    refine (told_log _ (.delivered t entry.id line)).trans ?_
    rw [told_afterEvent hblind, hmilestone hh.lookup, hh.delivery? hhandled, hsubmitted]
    refine congrArg (w.deliveries s ++ ·) ?_
    simp only [Occurrence.deliveredTo?]
    split <;> rfl

/-- Client code that goes on delivers nothing. -/
theorem bind_milestone?_of_ne_deliver (h : ∀ t rest, w.agenda ≠ .deliver t :: rest) :
    (w.milestone? s).bind Milestone.delivery? = none := by
  unfold milestone?
  split
  next t r next rest _ =>
    split
    · cases w.session? s with
      | none => rfl
      | some session =>
        dsimp only [Option.bind_some]
        split <;> rfl
    · rfl
  next t next rest _ =>
    split
    · cases w.session? s with
      | none => rfl
      | some session =>
        dsimp only [Option.bind_some]
        split
        · cases session.live? <;> rfl
        · rfl
    · rfl
  next t rest hagenda => exact absurd hagenda (h t rest)
  next => rfl

/-- **Step lemma.** What a step hands to a handler of lines is the line of the milestone. -/
theorem step_deliveries (client : Client κ ν) (w : World κ ν) (s : SessionId) :
    (w.step client).deliveries s =
      w.deliveries s ++ ((w.milestone? s).bind Milestone.delivery?).toList := by
  by_cases hdeliver : ∃ t rest, w.agenda = .deliver t :: rest
  · obtain ⟨t, rest, hagenda⟩ := hdeliver
    exact deliveries_deliver hagenda s
  · push Not at hdeliver
    rw [bind_milestone?_of_ne_deliver hdeliver]
    refine Eq.trans ?_ (List.append_nil _).symm
    cases hagenda : w.agenda with
    | nil => rw [step_of_agenda_nil client hagenda]
    | cons job rest =>
      refine (turn_step client hagenda).told_eq (ofHandlers_deliveredTo? s) fun t h => ?_
      exact hdeliver t rest (h ▸ hagenda)

end World

/-! ### Milestones in a row -/

/-- How milestones follow one another: which request is live before and after them, and which number
is the next. -/
inductive Succession :
    Option (Nat × Request κ) → Nat → List (Milestone κ) → Option (Nat × Request κ) → Nat → Prop where
  | nil (live next) : Succession live next [] live next
  | accepted {r next rest live' next'}
      (h : Succession (some (next, r)) (next + 1) rest live' next') :
      Succession none next (.accepted next r :: rest) live' next'
  | delivered {id r line next rest live' next'} (h : Succession none next rest live' next') :
      Succession (some (id, r)) next (.delivered id r line :: rest) live' next'
  | dropped {id r next rest live' next'} (h : Succession none next rest live' next') :
      Succession (some (id, r)) next (.dropped id r :: rest) live' next'

namespace Succession

variable {live live' live'' : Option (Nat × Request κ)} {next next' next'' : Nat}
  {milestones earlier later : List (Milestone κ)} {m : Milestone κ} {id : Nat} {r : Request κ}

theorem append (h : Succession live next earlier live' next')
    (h' : Succession live' next' later live'' next'') :
    Succession live next (earlier ++ later) live'' next'' := by
  induction h with
  | nil => exact h'
  | accepted _ ih => exact .accepted (ih h')
  | delivered _ ih => exact .delivered (ih h')
  | dropped _ ih => exact .dropped (ih h')

theorem split (h : Succession live next (earlier ++ later) live'' next'') :
    ∃ live' next', Succession live next earlier live' next' ∧
      Succession live' next' later live'' next'' := by
  induction earlier generalizing live next with
  | nil => exact ⟨live, next, .nil .., h⟩
  | cons m earlier ih =>
    cases h with
    | accepted h =>
      obtain ⟨live', next', h₁, h₂⟩ := ih h
      exact ⟨live', next', .accepted h₁, h₂⟩
    | delivered h =>
      obtain ⟨live', next', h₁, h₂⟩ := ih h
      exact ⟨live', next', .delivered h₁, h₂⟩
    | dropped h =>
      obtain ⟨live', next', h₁, h₂⟩ := ih h
      exact ⟨live', next', .dropped h₁, h₂⟩

/-- A number of a milestone is that of the request that was live at first, or a later one. -/
theorem id_of_mem (h : Succession live next milestones live' next') {m : Milestone κ}
    (hm : m ∈ milestones) : next ≤ m.id ∨ ∃ r, live = some (m.id, r) := by
  induction h with
  | nil => cases hm
  | accepted _ ih =>
    rcases List.mem_cons.1 hm with rfl | hm
    · exact .inl (Nat.le_refl _)
    · obtain hle | ⟨r, hr⟩ := ih hm
      · exact .inl (Nat.le_of_succ_le hle)
      · cases hr
        exact .inl (Nat.le_refl _)
  | delivered _ ih | dropped _ ih =>
    rcases List.mem_cons.1 hm with rfl | hm
    · exact .inr ⟨_, rfl⟩
    · exact .inl ((ih hm).resolve_right nofun)

/-- A number of a milestone is below the number that is next afterwards, and so is that of the
request that is then live. -/
theorem id_lt (h : Succession live next milestones live' next')
    (hlive : ∀ id r, live = some (id, r) → id < next) :
    next ≤ next' ∧ (∀ m ∈ milestones, m.id < next') ∧ ∀ id r, live' = some (id, r) → id < next' := by
  induction h with
  | nil => exact ⟨Nat.le_refl _, nofun, hlive⟩
  | accepted _ ih =>
    obtain ⟨hle, hmem, hlast⟩ := ih (by rintro id r ⟨⟩; exact Nat.lt_succ_self _)
    exact ⟨Nat.le_of_succ_le hle, List.forall_mem_cons.2 ⟨hle, hmem⟩, hlast⟩
  | delivered _ ih | dropped _ ih =>
    obtain ⟨hle, hmem, hlast⟩ := ih nofun
    have hid := hlive _ _ rfl
    exact ⟨hle, List.forall_mem_cons.2 ⟨Nat.lt_of_lt_of_le hid hle, hmem⟩, hlast⟩

/-- The request that is live is the one that was accepted last. -/
theorem live_eq (h : Succession live next milestones live' next') :
    live' = milestones.getLast?.elim live Milestone.accepted? := by
  induction h with
  | nil => rfl
  | @accepted r next rest live' next' _ ih | @delivered id r line next rest live' next' _ ih
  | @dropped id r next rest live' next' _ ih =>
    rw [ih]
    cases rest with
    | nil => rfl
    | cons m rest => rw [List.getLast?_cons_cons]; rfl

/-- Before the end of a request stands its acceptance. -/
theorem accepted_last (h : Succession none next milestones (some (id, r)) next') :
    ∃ before, milestones = before ++ [.accepted id r] := by
  have hlive := h.live_eq
  rcases List.eq_nil_or_concat milestones with rfl | ⟨before, m, rfl⟩
  · cases hlive
  · rw [List.concat_eq_append, List.getLast?_concat] at hlive
    cases m <;> cases hlive
    exact ⟨before, List.concat_eq_append⟩

/-- What has been accepted last is the first to be ended. -/
theorem concluded (h : Succession none next (earlier ++ .accepted id r :: later) live' next') :
    (later = [] ∧ live' = some (id, r)) ∨
      ∃ m rest, later = m :: rest ∧ m.Concludes id r ∧ ∀ other ∈ earlier ++ rest, other.id ≠ id := by
  obtain ⟨live₁, next₁, hearlier, hlater⟩ := h.split
  cases hlater with
  | accepted hlater =>
    obtain ⟨-, hbefore, -⟩ := hearlier.id_lt nofun
    have hother : ∀ {rest : List (Milestone κ)}, Succession none (id + 1) rest live' next' →
        ∀ other ∈ earlier ++ rest, other.id ≠ id := by
      intro rest hrest other hmem
      rcases List.mem_append.1 hmem with hmem | hmem
      · exact Nat.ne_of_lt (hbefore other hmem)
      · have hle := (hrest.id_of_mem hmem).resolve_right nofun
        exact Nat.ne_of_gt hle
    cases hlater with
    | nil => exact .inl ⟨rfl, rfl⟩
    | delivered hrest => exact .inr ⟨_, _, rfl, .inl ⟨_, rfl⟩, hother hrest⟩
    | dropped hrest => exact .inr ⟨_, _, rfl, .inr rfl, hother hrest⟩

/-- After its end a request is not live, and has no milestones. -/
theorem past (h : Succession none next (earlier ++ m :: later) live' next')
    (hm : m.Concludes id r) :
    (∀ live, live' = some live → live.1 ≠ id) ∧ ∀ other ∈ later, other.id ≠ id := by
  obtain ⟨live₁, next₁, hearlier, hlater⟩ := h.split
  obtain ⟨-, -, hlt⟩ := hearlier.id_lt nofun
  -- all that comes has later numbers
  have hrest : live₁ = some (id, r) ∧ Succession none next₁ later live' next' := by
    obtain ⟨line, rfl⟩ | rfl := hm <;> cases hlater <;> exact ⟨rfl, ‹_›⟩
  have hid : id < next₁ := hlt id r hrest.1
  have hother : ∀ other ∈ later, other.id ≠ id := by
    intro other hmem
    have hle : next₁ ≤ other.id := (hrest.2.id_of_mem hmem).resolve_right nofun
    exact Nat.ne_of_gt (Nat.lt_of_lt_of_le hid hle)
  refine ⟨?_, hother⟩
  rintro ⟨id', r'⟩ rfl
  obtain ⟨before, rfl⟩ := hrest.2.accepted_last
  exact hother _ (List.mem_append_right _ (List.mem_singleton_self _))

/-- What is accepted gets the next number or a later one. -/
theorem le_of_accepted (h : Succession live next milestones live' next') {a : Nat × Request κ}
    (ha : a ∈ milestones.filterMap Milestone.accepted?) : next ≤ a.1 := by
  induction h with
  | nil => cases ha
  | accepted _ ih =>
    rcases List.mem_cons.1 ha with rfl | ha
    · exact Nat.le_refl _
    · exact Nat.le_of_succ_le (ih ha)
  | delivered _ ih | dropped _ ih => exact ih ha

/-- No number is accepted twice: they ascend. -/
theorem ascending (h : Succession live next milestones live' next') :
    (milestones.filterMap Milestone.accepted?).Pairwise fun a b => a.1 < b.1 := by
  induction h with
  | nil => exact .nil
  | accepted h ih => exact List.pairwise_cons.2 ⟨fun a ha => h.le_of_accepted ha, ih⟩
  | delivered _ ih | dropped _ ih => exact ih

/-- The lines that are delivered are those of accepted requests, in the same order. -/
theorem ordered (h : Succession live next milestones live' next') :
    (milestones.filterMap Milestone.delivered?).Sublist
      (live.toList ++ milestones.filterMap Milestone.accepted?) := by
  induction h with
  | nil => exact List.nil_sublist _
  | accepted _ ih => exact ih
  | delivered _ ih => exact ih.cons_cons _
  | dropped _ ih => exact ih.cons _

end Succession

namespace World

variable {client : Client κ ν} {w w' : World κ ν} {s : SessionId} {session : Session κ}

/-! ### Runs -/

/-- A milestone follows on what was live before it. -/
theorem Marks.succession {before after : Session κ} {milestone? : Option (Milestone κ)}
    (h : Marks client w s before after milestone?) :
    Succession before.live? before.nextId milestone?.toList after.live? after.nextId := by
  cases h with
  | nothing hlive hnext =>
    rw [hlive, hnext]
    exact .nil ..
  | accepted _ hidle hlive hnext =>
    rw [Session.live?_of_idle hidle, hlive, hnext]
    exact .accepted (.nil ..)
  | delivered _ hhandles _ hidle _ hnext =>
    rw [Session.live?_of_editing hhandles.phase, Session.live?_of_idle hidle, hnext]
    exact .delivered (.nil ..)
  | dropped _ hlive hidle _ hnext =>
    rw [hlive, Session.live?_of_idle hidle, hnext]
    exact .dropped (.nil ..)

theorem milestones_append (w : World κ ν) (s : SessionId) (earlier later : List (Choice κ ν)) :
    w.milestones s (earlier ++ later) =
      w.milestones s earlier ++ (w.play earlier).milestones s later := by
  rw [milestones, stepped_append, List.filterMap_append]
  rfl

@[simp]
theorem milestones_step (w : World κ ν) (s : SessionId) (client : Client κ ν)
    (choices : List (Choice κ ν)) :
    w.milestones s (.step client :: choices) =
      (w.milestone? s).toList ++ (w.step client).milestones s choices := by
  rw [milestones, stepped, List.filterMap_cons]
  cases w.milestone? s <;> rfl

/-- **Run lemma.** The milestones of a session follow one another from what is live at first. -/
theorem succession_play (hs : w.sessions[s]? = some session) (choices : List (Choice κ ν)) :
    ∃ last, (w.play choices).sessions[s]? = some last ∧
      Succession session.live? session.nextId (w.milestones s choices) last.live? last.nextId := by
  induction choices generalizing w session with
  | nil => exact ⟨session, hs, .nil ..⟩
  | cons choice choices ih =>
    cases choice with
    | run p => exact ih (w := w.push (.run p)) hs
    | step client =>
      obtain ⟨after, hafter, hmarks⟩ := step_marks client hs
      obtain ⟨last, hlast, hrest⟩ := ih hafter
      rw [milestones_step]
      exact ⟨last, hlast, hmarks.succession.append hrest⟩

/-- **Run lemma.** The handlers of lines get the lines of the milestones, in their order. -/
theorem deliveries_play (w : World κ ν) (s : SessionId) (choices : List (Choice κ ν)) :
    (w.play choices).deliveries s =
      w.deliveries s ++ (w.milestones s choices).filterMap Milestone.delivery? := by
  induction choices generalizing w with
  | nil => exact (List.append_nil _).symm
  | cons choice choices ih =>
    cases choice with
    | run p => exact ih (w.push (.run p))
    | step client =>
      have htoList : (w.milestone? s).toList.filterMap Milestone.delivery? =
          ((w.milestone? s).bind Milestone.delivery?).toList := by
        cases w.milestone? s with
        | none => rfl
        | some milestone => cases h : milestone.delivery? <;> simp [h]
      rw [milestones_step, List.filterMap_append, htoList, ← List.append_assoc, ← step_deliveries]
      exact ih (w.step client)

/-! ### The life cycle -/

/-- The step from `w` hands `line`, which completes request `r` with number `id`, to its handler. -/
structure HandsOver (client : Client κ ν) (w : World κ ν) (s : SessionId) (id : Nat)
    (r : Request κ) (line : List Char) : Prop where
  /-- An event is handled that completes the line. -/
  submits : ∃ before entry c event decoder rest, w.agenda = .deliver s :: rest ∧
    ({ w with agenda := rest } : World κ ν).Handles s before entry c event decoder ∧
      (entry.id = id ∧ entry.request = r) ∧
        (entry.handle before.functions before.history before.continuation event).outcome =
          .submitted line
  /-- The handler of this very request is the next to run. -/
  runs : ∃ rest, (w.step client).agenda =
    .run (client.onLine r.onLine line) :: .deliver s :: rest
  /-- The session is idle then. -/
  idle : ∃ after, (w.step client).sessions[s]? = some after ∧ after.phase = .idle
  /-- So the next request can be made. -/
  ready : ∀ r', ((w.step client).request s r').2 = .ok ()

theorem Marks.handsOver {before after : Session κ} {id : Nat} {r : Request κ} {line : List Char}
    (h : Marks client w s before after (some (.delivered id r line)))
    (hafter : (w.step client).sessions[s]? = some after) : HandsOver client w s id r line := by
  cases h with
  | delivered hagenda hhandles hline hidle hconnection hnext hrun =>
    refine ⟨⟨before, _, _, _, _, _, hagenda, hhandles, ⟨rfl, rfl⟩, hline⟩, ⟨_, hrun⟩,
      ⟨after, hafter, hidle⟩, fun r' => ?_⟩
    have hconnected : after.connection? ≠ none := by
      rw [hconnection, hhandles.connection]
      exact nofun
    obtain ⟨-, c, -, hok, -⟩ | ⟨why, hrefused, -⟩ := request_cases hafter r'
    · exact hok
    · unfold World.request at hrefused
      obtain ⟨c, hc⟩ := Option.ne_none_iff_exists'.1 hconnected
      simp [hafter, hc, hidle, Phase.isIdle] at hrefused

/-- **The life cycle of the requests** of session `s` along a run. -/
structure LifeCycle (w : World κ ν) (s : SessionId) (choices : List (Choice κ ν)) : Prop where
  /-- An accepted request is live up to the end of the run, or it is ended by the next milestone, in
  one of the two ways, and has no other milestones. -/
  concluded : ∀ earlier id r later,
    w.milestones s choices = earlier ++ .accepted id r :: later →
      (later = [] ∧ (w.play choices).live? s = some (id, r)) ∨
        ∃ m rest, later = m :: rest ∧ m.Concludes id r ∧
          ∀ other ∈ earlier ++ rest, other.id ≠ id
  /-- What ends has been accepted just before. -/
  begun : ∀ earlier m later id r, w.milestones s choices = earlier ++ m :: later →
    m.Concludes id r → ∃ before, earlier = before ++ [.accepted id r]
  /-- Exactly the request that was accepted last is live, unless it has been ended. -/
  live : ∀ earlier later, choices = earlier ++ later →
    (w.play earlier).live? s = (w.milestones s earlier).getLast?.elim none Milestone.accepted?
  /-- No number is given twice. -/
  ascending : ((w.milestones s choices).filterMap Milestone.accepted?).Pairwise fun a b =>
    a.1 < b.1
  /-- Lines are delivered for accepted requests, in the order in which these were accepted. -/
  ordered : ((w.milestones s choices).filterMap Milestone.delivered?).Sublist
    ((w.milestones s choices).filterMap Milestone.accepted?)
  /-- The handlers that run are those of the lines that are delivered, once each. -/
  called : (w.play choices).deliveries s =
    w.deliveries s ++ (w.milestones s choices).filterMap Milestone.delivery?
  /-- A line that is delivered has just been completed, and its handler finds the session idle. -/
  handsOver : ∀ earlier client later id r line, choices = earlier ++ .step client :: later →
    (w.play earlier).milestone? s = some (.delivered id r line) →
      HandsOver client (w.play earlier) s id r line
  /-- While a request is live any other is refused, whoever makes it, and has no effect. -/
  refused : ∀ earlier client later live r next rest, choices = earlier ++ .step client :: later →
    (w.play earlier).live? s = some live →
      (w.play earlier).agenda = .run (.call (.request s r) next) :: rest →
        ((w.play earlier).session? s).isSome →
          (w.play earlier).step client =
            ({ w.play earlier with agenda := rest } : World κ ν).reply next
              (.refused .alreadyReading)
  /-- A request that has ended never comes back. -/
  gone : ∀ earlier later m id r, choices = earlier ++ later → m ∈ w.milestones s earlier →
    m.Concludes id r → (∀ live, (w.play choices).live? s = some live → live.1 ≠ id) ∧
      ∀ other ∈ (w.play earlier).milestones s later, other.id ≠ id

/-- While a request is live any other is refused and has no effect. -/
theorem step_request_of_live (howned : Owned w) (hs : w.sessions[s]? = some session)
    {live : Nat × Request κ} (hlive : session.live? = some live) {r : Request κ}
    {next : Answer → Program κ ν} {rest : List (Job κ ν)}
    (hagenda : w.agenda = .run (.call (.request s r) next) :: rest)
    (hkept : (w.session? s).isSome) :
    w.step client =
      ({ w with agenda := rest } : World κ ν).reply next (.refused .alreadyReading) := by
  have hphase : session.phase ≠ .idle := by
    intro hidle
    rw [Session.live?_of_idle hidle] at hlive
    cases hlive
  have hconnected : session.connection? ≠ none := by
    refine (howned s session hs).connected fun hstage => hphase ?_
    rwa [Phase.stage_eq_idle] at hstage
  have hfound : ({ w with agenda := rest } : World κ ν).session? s = some session := by
    obtain hgone | hfound := session?_eq_or hs
    · simp [hgone] at hkept
    · exact hfound
  have hrefused : ({ w with agenda := rest } : World κ ν).request s r =
      ({ w with agenda := rest }, .error .alreadyReading) := by
    have hs' : ({ w with agenda := rest } : World κ ν).sessions[s]? = some session := hs
    obtain ⟨hidle, -⟩ | ⟨why, hwhy, halready⟩ := request_cases hs' r
    · exact absurd hidle hphase
    · rw [hwhy, halready hphase hconnected]
  rw [step, hagenda]
  dsimp only [perform]
  rw [onSession, hfound]
  dsimp only
  rw [hrefused]
  rfl

/-- **The life cycle of requests**, along every run from a pristine world. -/
theorem Pristine.life_cycle (h : Pristine w) (hs : w.sessions[s]? = some session)
    (choices : List (Choice κ ν)) : LifeCycle w s choices := by
  have hnone : session.live? = none :=
    Session.live?_of_idle (h.idle session (List.mem_of_getElem? hs)).2
  have hplay : ∀ choices, ∃ last, (w.play choices).sessions[s]? = some last ∧
      (w.play choices).live? s = last.live? ∧
        Succession none session.nextId (w.milestones s choices) last.live? last.nextId := by
    intro choices
    obtain ⟨last, hlast, hsuccession⟩ := succession_play hs choices
    rw [hnone] at hsuccession
    exact ⟨last, hlast, by rw [live?, hlast]; rfl, hsuccession⟩
  obtain ⟨last, hlast, hlive, hsuccession⟩ := hplay choices
  constructor
  case concluded =>
    intro earlier id r later hmilestones
    rw [hmilestones] at hsuccession
    rw [hlive]
    exact hsuccession.concluded
  case begun =>
    intro earlier m later id r hmilestones hm
    rw [hmilestones] at hsuccession
    obtain ⟨live', next', hearlier, hlater⟩ := hsuccession.split
    obtain ⟨line, rfl⟩ | rfl := hm <;> cases hlater <;> exact hearlier.accepted_last
  case live =>
    intro earlier later _
    obtain ⟨last, -, hlive, hsuccession⟩ := hplay earlier
    rw [hlive]
    exact hsuccession.live_eq
  case ascending => exact hsuccession.ascending
  case ordered => exact hsuccession.ordered
  case called => exact deliveries_play w s choices
  case handsOver =>
    intro earlier client later id r line _ hmilestone
    obtain ⟨before, hbefore, -⟩ := hplay earlier
    obtain ⟨after, hafter, hmarks⟩ := step_marks client hbefore
    rw [hmilestone] at hmarks
    exact hmarks.handsOver hafter
  case refused =>
    intro earlier client later live r next rest _ hlive hagenda hkept
    obtain ⟨before, hbefore, hsame, -⟩ := hplay earlier
    rw [hsame] at hlive
    exact step_request_of_live (h.reachable_play earlier).owned hbefore hlive hagenda hkept
  case gone =>
    intro earlier later m id r hchoices hm hconcludes
    subst hchoices
    obtain ⟨before, after, hsplit⟩ := List.append_of_mem hm
    rw [milestones_append, hsplit, List.append_assoc, List.cons_append] at hsuccession
    obtain ⟨hgone, hnever⟩ := hsuccession.past hconcludes
    rw [hlive]
    exact ⟨hgone, fun other hother => hnever other (List.mem_append_right _ hother)⟩

/-- A request that has a handler of completions. -/
private def anyLine : Request Unit := { prompt := [], onLine := (), onComplete? := some () }

/-- A client that asks for another line while it completes a word. -/
private def hastyClient : Client Unit Unit where
  onLine _ _ := .done
  onComplete _ k _ := .andThen (.request 0 anyLine) (.ofCall (.finish (some k)))
  onRead _ _ := .done
  onResize _ _ := .done

/-- A session that has been nowhere. -/
private def blankSession : Session Unit := {}

/-- That session, and a connection. -/
private def newWorld : World Unit Unit := { sessions := [blankSession], connections := [{}] }

/-- A line is entered, with a Tab in it, and the next is asked for and never entered. -/
private def enteredOnce : List (Choice Unit Unit) :=
  .run (.andThen (.install 0 0) <|
    .andThen (.request 0 anyLine) <|
      .andThen (.type 0 ['a', Keys.tab, Keys.enter]) <|
        .andThen (.request 0 anyLine) <|
          .andThen (.uninstall 0) <|
            .ofCall (.type 0 ['b', Keys.enter])) ::
    List.replicate 20 (.step hastyClient)

/-- The first request is delivered, and the second is dropped. The one from within the completion is
refused. -/
theorem life_cycle_enteredOnce :
    (Pristine newWorld ∧ newWorld.sessions[0]? = some blankSession) ∧
      ((newWorld.milestones 0 enteredOnce).map Milestone.id = [0, 0, 1, 1] ∧
        (newWorld.milestones 0 enteredOnce).filterMap Milestone.delivery? = [(0, ['a'])] ∧
          (newWorld.play enteredOnce).agenda.isEmpty) ∧
      LifeCycle newWorld 0 enteredOnce := by
  have hpristine : Pristine newWorld := by constructor <;> simp [newWorld, blankSession]
  exact ⟨⟨hpristine, rfl⟩, ⟨by decide, by decide, by decide⟩,
    hpristine.life_cycle rfl enteredOnce⟩

end World

end LineEditor
