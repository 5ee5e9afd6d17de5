import LineEditor.Proofs.Keys.Extension
import LineEditor.Proofs.Session.Journal
import LineEditor.Proofs.Session.Ownership

/-!
# Input is conserved

Characters come to a session when they are typed on a connection that hands them to it. They go
when an event takes them that an entry handles, and when a handler gets all that wait. Which of
these a step does, if any, stands in the innermost job (`World.passage?`), and nothing else touches
what waits (`step_passes`). So along every run all that came is all that went, in the same order,
and what still waits (`Pristine.conserves_input`).
-/

namespace LineEditor

variable {κ ν : Type}

namespace Keys.Decoder

/-- The characters that an event takes are the first that waited. -/
theorem take_append_of_next {d d' : Decoder} {event : KeyEvent}
    (h : d.next? = some (event, d')) :
    d.pending.take (d.pending.length - d'.pending.length) ≠ [] ∧
      d.pending = d.pending.take (d.pending.length - d'.pending.length) ++ d'.pending := by
  have hlt := length_lt_of_next h
  have hsuffix : d'.pending <:+ d.pending := by
    unfold next? at h
    split at h <;> cases h <;> exact List.drop_suffix ..
  refine ⟨List.ne_nil_of_length_pos ?_, (List.suffix_iff_eq_append.1 hsuffix).symm⟩
  rw [List.length_take]
  omega

end Keys.Decoder

/-! ### Passages -/

/-- Characters that come to a session or go. -/
inductive Passage (κ : Type) where
  /-- They are typed. -/
  | typed (text : List Char)
  /-- An event takes them, which is handled on the entry that is edited. -/
  | handled (event : KeyEvent) (taken : List Char)
  /-- They are handed to a handler, since no request asks for them. -/
  | forwarded (handler : κ) (text : List Char)

namespace Passage

/-- The characters that come. -/
def arriving : Passage κ → List Char
  | .typed text => text
  | .handled _ _ | .forwarded _ _ => []

/-- The characters that go. -/
def leaving : Passage κ → List Char
  | .typed _ => []
  | .handled _ taken => taken
  | .forwarded _ text => text

/-- What a handler gets. -/
def forwarded? : Passage κ → Option (List Char)
  | .typed _ | .handled _ _ => none
  | .forwarded _ text => some text

end Passage

/-- What goes when a session deals with the next piece of its input. -/
def Session.passage? (session : Session κ) : Option (Passage κ) :=
  match session.decoder.next? with
  | none => none
  | some (event, decoder) =>
    match session.phase with
    | .completing _ => none
    | .idle => session.onRead?.map (.forwarded · session.decoder.pending)
    | .editing _ =>
      session.connection?.map fun _ =>
        .handled event
          (session.decoder.pending.take
            (session.decoder.pending.length - decoder.pending.length))

/-- What an occurrence hands to a handler of session `s`. -/
def Occurrence.forwardedTo? (s : SessionId) : Occurrence ν → Option (List Char)
  | .forwarded t text => if t = s then some text else none
  | _ => none

namespace World

variable {client : Client κ ν} {w w' : World κ ν} {s : SessionId} {session : Session κ}

/-- What passes session `s` when the innermost job is taken up. -/
def passage? (w : World κ ν) (s : SessionId) : Option (Passage κ) :=
  match w.agenda with
  | .run (.call (.type c text) _) :: _ =>
    if w.connections[c]?.bind Connection.input? = some (.session s) ∧ (w.session? s).isSome then
      some (.typed text)
    else none
  | .deliver t :: _ => if t = s then w.sessions[s]?.bind Session.passage? else none
  | _ => none

theorem passage?_eq_none
    (htype : ∀ c text next rest, w.agenda ≠ .run (.call (.type c text) next) :: rest)
    (hdeliver : ∀ rest, w.agenda ≠ .deliver s :: rest) : w.passage? s = none := by
  unfold passage?
  split
  next hagenda => exact absurd hagenda (htype _ _ _ _)
  next t rest hagenda => exact if_neg fun h : t = s => hdeliver rest (h ▸ hagenda)
  next => rfl

theorem passage?_of_deliver {rest : List (Job κ ν)} (hagenda : w.agenda = .deliver s :: rest)
    (hs : w.sessions[s]? = some session) : w.passage? s = session.passage? := by
  rw [passage?, hagenda]
  simp only [hs, if_pos, Option.bind_some]

/-- What passes session `s` along a run. -/
def passages (w : World κ ν) (s : SessionId) (choices : List (Choice κ ν)) : List (Passage κ) :=
  (w.stepped choices).filterMap (·.passage? s)

/-- What was handed to handlers of session `s`, the earliest first. -/
def forwards (w : World κ ν) (s : SessionId) : List (List Char) :=
  w.record.reverse.filterMap (·.forwardedTo? s)

/-- What a passage is in the step from `w`, with session `s` before and after it. -/
inductive Passes (client : Client κ ν) (w : World κ ν) (s : SessionId)
    (before after : Session κ) : Option (Passage κ) → Prop where
  /-- What waits stays as it is. -/
  | nothing (h : after.decoder = before.decoder) : Passes client w s before after none
  /-- What is typed waits behind what waited. -/
  | typed {c text next rest} (hagenda : w.agenda = .run (.call (.type c text) next) :: rest)
    (hinput : w.connections[c]?.bind Connection.input? = some (.session s))
    (h : after.decoder = before.decoder.append text) :
    Passes client w s before after (some (.typed text))
  /-- An entry handles the event that takes the first characters that waited. -/
  | handled {entry c event decoder taken rest} (hagenda : w.agenda = .deliver s :: rest)
    (hhandles : ({ w with agenda := rest } : World κ ν).Handles s before entry c event decoder)
    (hstep : w.step client =
      ({ w with agenda := rest } : World κ ν).handleEvent client s before entry c event decoder)
    (htaken : taken ≠ []) (hpending : before.decoder.pending = taken ++ decoder.pending)
    (h : after.decoder = decoder) : Passes client w s before after (some (.handled event taken))
  /-- A handler gets all that waited. -/
  | forwarded {handler rest} (hagenda : w.agenda = .deliver s :: rest)
    (hidle : before.phase = .idle) (hread : before.onRead? = some handler)
    (hpending : before.decoder.pending ≠ [])
    (hrun : (w.step client).agenda =
      .run (client.onRead handler before.decoder.pending) :: .deliver s :: rest)
    (h : after.decoder = before.decoder.takeAll.2) :
    Passes client w s before after (some (.forwarded handler before.decoder.pending))

/-! ### One step -/

/-- A session after a change of one. -/
theorem exists_changeSession {P : Session κ → Prop} {t : SessionId} {f : Session κ → Session κ}
    (hsessions : w'.sessions = (w.changeSession t f).sessions) (hs : w.sessions[s]? = some session)
    (hkept : P session) (hf : t = s → P (f session)) :
    ∃ after, w'.sessions[s]? = some after ∧ P after := by
  rw [hsessions, getElem?_sessions_changeSession, hs]
  refine ⟨_, rfl, ?_⟩
  split
  next h => exact hf h
  next => exact hkept

/-- Nothing but typing and dealing with input changes what waits. -/
theorem Turn.decoder_eq {job : Job κ ν} (hturn : Turn client w job w')
    (htype : ∀ c text next, job ≠ .run (.call (.type c text) next)) (hdeliver : job ≠ .deliver s)
    (hs : w.sessions[s]? = some session) :
    ∃ after, w'.sessions[s]? = some after ∧ after.decoder = session.decoder := by
  cases hturn with
  | rest | answer | aside | write | listen | schedule | deliver | runTasks | stop | tasksOver
  | nextTask | move | suggest => exact ⟨session, by simpa using hs, rfl⟩
  | adjust call next a t hf => exact exists_changeSession rfl hs rfl fun _ => hf.decoder session
  | type c text next => exact absurd rfl (htype c text next)
  | resize | install | uninstall => exact exists_changeSession rfl hs rfl fun _ => rfl
  | request =>
    refine exists_changeSession (by
      simp only [reply_sessions, schedule_sessions, write_sessions]
      rfl) hs rfl ?_
    exact fun _ => rfl
  | insert =>
    refine exists_changeSession (by simp only [reply_sessions, write_sessions]; rfl) hs rfl ?_
    exact fun _ => rfl
  | resume =>
    refine exists_changeSession (by
      simp only [reply_sessions, schedule_sessions, changeSession, write_sessions,
        setStatus_sessions]
      rfl) hs rfl ?_
    exact fun _ => rfl
  | forward t => exact exists_changeSession rfl hs rfl fun h => absurd (h ▸ rfl) hdeliver
  | edit t | submit t | ask t =>
    refine exists_changeSession (by
      simp only [push_sessions, log_sessions, afterEvent_sessions]
      rfl) hs rfl ?_
    exact fun h => absurd (h ▸ rfl) hdeliver

/-- The session after an event. -/
theorem sessions_handleEvent (client : Client κ ν) (hs : w.sessions[s]? = some session)
    (entry : Entry κ) (c : ConnectionId) (event : KeyEvent) (decoder : Keys.Decoder) :
    ∃ after, (w.handleEvent client s session entry c event decoder).sessions[s]? = some after ∧
      after.decoder = decoder := by
  generalize hhandled :
    entry.handle session.functions session.history session.continuation event = handled
  have hafter : ∀ phase, ∃ after,
      (w.afterEvent s c handled decoder phase).sessions[s]? = some after ∧
        after.decoder = decoder := by
    intro phase
    rw [afterEvent_sessions, getElem?_sessions_changeSession, hs]
    exact ⟨_, congrArg some (if_pos rfl), rfl⟩
  cases houtcome : handled.outcome with
  | goesOn =>
    rw [handleEvent_goesOn hhandled houtcome]
    exact hafter _
  | submitted line =>
    rw [handleEvent_submitted hhandled houtcome]
    exact hafter _
  | asked handler snapshot =>
    rw [handleEvent_asked hhandled houtcome rfl]
    exact hafter _

/-- What is typed comes to the session that the connection hands it to. -/
theorem passes_type {c : ConnectionId} {text : List Char} {next : Answer → Program κ ν}
    {rest : List (Job κ ν)} (hagenda : w.agenda = .run (.call (.type c text) next) :: rest)
    (hs : w.sessions[s]? = some session) :
    ∃ after, (w.step client).sessions[s]? = some after ∧
      Passes client w s session after (w.passage? s) := by
  have hstep : w.step client = ({ w with agenda := rest } : World κ ν).type c text next := by
    rw [step, hagenda]
    rfl
  have hpassage : w.passage? s =
      if w.connections[c]?.bind Connection.input? = some (.session s) ∧ (w.session? s).isSome then
        some (.typed text) else none := by
    rw [passage?, hagenda]
  rw [hstep, hpassage]
  split
  next hcomes =>
    obtain ⟨hinput, hlive⟩ := hcomes
    obtain ⟨live, hlive⟩ := Option.isSome_iff_exists.1 hlive
    have hlive : ({ w with agenda := rest } : World κ ν).session? s = some live := hlive
    refine ⟨{ session with decoder := session.decoder.append text }, ?_, .typed hagenda hinput rfl⟩
    simp [type, hinput, hlive, getElem?_sessions_changeSession, hs]
  next hcomes =>
    have hafter : ∃ after, (({ w with agenda := rest } : World κ ν).type c text next).sessions[s]? =
        some after ∧ after.decoder = session.decoder := by
      unfold type
      split
      next => exact ⟨session, hs, rfl⟩
      next => exact ⟨session, hs, rfl⟩
      next t hinput =>
        split
        next => exact ⟨session, hs, rfl⟩
        next live hlive =>
          -- it is another session that gets the text
          refine exists_changeSession rfl hs rfl fun hts => absurd ⟨hts ▸ hinput, ?_⟩ hcomes
          exact Option.isSome_iff_exists.2 ⟨live, hts ▸ hlive⟩
    exact hafter.imp fun after h => ⟨h.1, .nothing h.2⟩

/-- What dealing with input comes to, and what goes then. -/
theorem deliver_cases (client : Client κ ν) (hs : w.sessions[s]? = some session) :
    (session.passage? = none ∧ w.deliver client s = w) ∨
      (∃ handler, session.passage? = some (.forwarded handler session.decoder.pending) ∧
        session.phase = .idle ∧ session.onRead? = some handler ∧ session.decoder.pending ≠ [] ∧
          w.deliver client s = w.forward client s session handler) ∨
      ∃ entry c event decoder taken, session.passage? = some (.handled event taken) ∧
        w.Handles s session entry c event decoder ∧ taken ≠ [] ∧
          session.decoder.pending = taken ++ decoder.pending ∧
            w.deliver client s = w.handleEvent client s session entry c event decoder := by
  rw [deliver, Session.passage?, hs]
  dsimp only
  cases hnext : session.decoder.next? with
  | none => exact .inl ⟨rfl, rfl⟩
  | some pair =>
    obtain ⟨event, decoder⟩ := pair
    obtain ⟨htaken, hpending⟩ := Keys.Decoder.take_append_of_next hnext
    cases hphase : session.phase with
    | completing entry => exact .inl ⟨rfl, rfl⟩
    | idle =>
      cases hread : session.onRead? with
      | none => exact .inl ⟨rfl, rfl⟩
      | some handler =>
        refine .inr (.inl ⟨handler, rfl, rfl, rfl, fun hnil => htaken ?_, rfl⟩)
        rw [hnil, List.take_nil]
    | editing entry =>
      cases hc : session.connection? with
      | none => exact .inl ⟨rfl, rfl⟩
      | some c =>
        exact .inr (.inr ⟨entry, c, event, decoder, _, rfl, ⟨hs, hphase, hc, hnext⟩, htaken,
          hpending, rfl⟩)

/-- What goes when a session deals with its input. -/
theorem passes_deliver {rest : List (Job κ ν)} (hagenda : w.agenda = .deliver s :: rest)
    (hs : w.sessions[s]? = some session) :
    ∃ after, (w.step client).sessions[s]? = some after ∧
      Passes client w s session after (w.passage? s) := by
  have hs' : ({ w with agenda := rest } : World κ ν).sessions[s]? = some session := hs
  have hstep : w.step client = ({ w with agenda := rest } : World κ ν).deliver client s := by
    rw [step, hagenda]
  rw [passage?_of_deliver hagenda hs]
  obtain ⟨hnone, hdeliver⟩ | ⟨handler, hforwarded, hidle, hread, hpending, hdeliver⟩ |
    ⟨entry, c, event, decoder, taken, hhandled, hhandles, htaken, hpending, hdeliver⟩ :=
      deliver_cases client hs'
  · rw [hnone, hstep, hdeliver]
    exact ⟨session, hs, .nothing rfl⟩
  · rw [hforwarded]
    refine ⟨{ session with decoder := session.decoder.takeAll.2 }, ?_,
      .forwarded hagenda hidle hread hpending ?_ rfl⟩ <;> rw [hstep, hdeliver]
    · simp [forward, getElem?_sessions_changeSession, hs]
    · rfl
  · rw [hhandled]
    obtain ⟨after, hafter, hdecoder⟩ := sessions_handleEvent client hs' entry c event decoder
    refine ⟨after, ?_, .handled hagenda hhandles ?_ htaken hpending hdecoder⟩ <;>
      rw [hstep, hdeliver]
    exact hafter

/-- **Step lemma.** What waits in a session changes by what passes it. -/
theorem step_passes (client : Client κ ν) (hs : w.sessions[s]? = some session) :
    ∃ after, (w.step client).sessions[s]? = some after ∧
      Passes client w s session after (w.passage? s) := by
  by_cases htype : ∃ c text next rest, w.agenda = .run (.call (.type c text) next) :: rest
  · obtain ⟨c, text, next, rest, hagenda⟩ := htype
    exact passes_type hagenda hs
  by_cases hdeliver : ∃ rest, w.agenda = .deliver s :: rest
  · obtain ⟨rest, hagenda⟩ := hdeliver
    exact passes_deliver hagenda hs
  push Not at htype hdeliver
  rw [passage?_eq_none htype hdeliver]
  cases hagenda : w.agenda with
  | nil =>
    rw [step_of_agenda_nil client hagenda]
    exact ⟨session, hs, .nothing rfl⟩
  | cons job rest =>
    obtain ⟨after, hafter, hdecoder⟩ := (turn_step client hagenda).decoder_eq
      (fun c text next h => htype c text next rest (h ▸ hagenda))
      (fun h => hdeliver rest (h ▸ hagenda)) hs
    exact ⟨after, hafter, .nothing hdecoder⟩

/-! ### What handlers have got -/

/-- What is handed to a handler of input is told of handlers. -/
theorem ofHandlers_forwardedTo? (s : SessionId) :
    OfHandlers (·.forwardedTo? s : Occurrence ν → Option (List Char)) where
  wrote _ _ := rfl
  aside o ho := by cases o <;> first | rfl | cases ho
  resized _ _ := rfl

/-- Client code that goes on hands nothing to a handler. -/
theorem bind_passage?_of_run {p : Program κ ν} {rest : List (Job κ ν)}
    (hagenda : w.agenda = .run p :: rest) :
    (w.passage? s).bind Passage.forwarded? = none := by
  rw [passage?, hagenda]
  split
  next => split <;> rfl
  next h => cases h
  next => rfl

theorem forwards_handleEvent {entry : Entry κ} {c : ConnectionId} {event : KeyEvent}
    {decoder : Keys.Decoder} (t : SessionId) :
    (w.handleEvent client s session entry c event decoder).forwards t = w.forwards t := by
  have hafter : ∀ (handled : Handled κ) (phase : Phase κ),
      (w.afterEvent s c handled decoder phase).forwards t = w.forwards t := fun handled phase =>
    told_afterEvent (ofHandlers_forwardedTo? t) ..
  generalize hhandled :
    entry.handle session.functions session.history session.continuation event = handled
  cases houtcome : handled.outcome with
  | goesOn =>
    rw [handleEvent_goesOn hhandled houtcome]
    exact hafter ..
  | submitted line =>
    rw [handleEvent_submitted hhandled houtcome]
    exact (told_log_of_none rfl).trans (hafter handled .idle)
  | asked handler snapshot =>
    rw [handleEvent_asked hhandled houtcome rfl]
    exact (told_log_of_none rfl).trans (hafter handled (.completing handled.entry))

/-- Dealing with its input, a session hands what goes to a handler to this handler. -/
theorem forwards_deliver (client : Client κ ν) (w : World κ ν) (t s : SessionId) :
    (w.deliver client t).forwards s = w.forwards s ++
      ((if t = s then w.sessions[s]?.bind Session.passage? else none).bind
        Passage.forwarded?).toList := by
  cases ht : w.sessions[t]? with
  | none =>
    have hnone : (if t = s then w.sessions[s]?.bind Session.passage? else none) = none := by
      split
      next h => rw [← h, ht]; rfl
      next => rfl
    rw [deliver, ht, hnone]
    exact (List.append_nil _).symm
  | some session =>
    have hpassage : (if t = s then w.sessions[s]?.bind Session.passage? else none) =
        if t = s then session.passage? else none := by
      split
      next h => rw [← h, ht]; rfl
      next => rfl
    rw [hpassage]
    obtain ⟨hnone, hdeliver⟩ | ⟨handler, hforwarded, -, -, -, hdeliver⟩ |
      ⟨entry, c, event, decoder, taken, hhandled, -, -, -, hdeliver⟩ := deliver_cases client ht <;>
        rw [hdeliver]
    · simp [hnone]
    · rw [hforwarded]
      refine (told_log _ (.forwarded t session.decoder.pending)).trans ?_
      simp only [Occurrence.forwardedTo?]
      split <;> rfl
    · rw [forwards_handleEvent, hhandled]
      split <;> exact (List.append_nil _).symm

/-- **Step lemma.** What a step hands to a handler is what goes to it. -/
theorem step_forwards (client : Client κ ν) (w : World κ ν) (s : SessionId) :
    (w.step client).forwards s =
      w.forwards s ++ ((w.passage? s).bind Passage.forwarded?).toList := by
  cases hagenda : w.agenda with
  | nil =>
    rw [step_of_agenda_nil client hagenda, passage?, hagenda]
    exact (List.append_nil _).symm
  | cons job rest =>
    have hturn := turn_step client hagenda
    have htold := hturn.told_eq (ofHandlers_forwardedTo? s)
    cases job with
    | run p =>
      rw [bind_passage?_of_run hagenda]
      exact (htold fun t h => by cases h).trans (List.append_nil _).symm
    | deliver t =>
      rw [step, hagenda]
      dsimp only
      rw [forwards_deliver, passage?, hagenda]
      rfl
    | tasks c limit? count next =>
      rw [passage?, hagenda]
      exact (htold fun t h => by cases h).trans (List.append_nil _).symm

/-! ### Runs -/

/-- What passes does not get lost or out of order on the way. -/
theorem Passes.balance {before after : Session κ} {passage? : Option (Passage κ)}
    (h : Passes client w s before after passage?) :
    before.decoder.pending ++ passage?.elim [] Passage.arriving =
      passage?.elim [] Passage.leaving ++ after.decoder.pending := by
  cases h with
  | nothing h => rw [h]; exact List.append_nil _
  | typed _ _ h => rw [h]; rfl
  | handled _ _ _ _ hpending h => rw [h, hpending]; exact List.append_nil _
  | forwarded _ _ _ _ _ h => rw [h]; rfl

@[simp] theorem passages_nil (w : World κ ν) (s : SessionId) : w.passages s [] = [] := rfl

@[simp]
theorem passages_step (w : World κ ν) (s : SessionId) (client : Client κ ν)
    (choices : List (Choice κ ν)) :
    w.passages s (.step client :: choices) =
      (w.passage? s).toList ++ (w.step client).passages s choices := by
  rw [passages, stepped, List.filterMap_cons]
  cases w.passage? s <;> rfl

/-- **Run lemma.** What waits at first and what comes is what goes and what waits at last. -/
theorem balance_play (hs : w.sessions[s]? = some session) (choices : List (Choice κ ν)) :
    ∃ last, (w.play choices).sessions[s]? = some last ∧
      session.decoder.pending ++ (w.passages s choices).flatMap Passage.arriving =
        (w.passages s choices).flatMap Passage.leaving ++ last.decoder.pending := by
  induction choices generalizing w session with
  | nil => exact ⟨session, hs, List.append_nil _⟩
  | cons choice choices ih =>
    cases choice with
    | run p => exact ih (w := w.push (.run p)) hs
    | step client =>
      obtain ⟨after, hafter, hpasses⟩ := step_passes client hs
      obtain ⟨last, hlast, hbalance⟩ := ih hafter
      have hone := hpasses.balance
      refine ⟨last, hlast, ?_⟩
      rw [passages_step, List.flatMap_append, List.flatMap_append, flatMap_toList, flatMap_toList,
        ← List.append_assoc, hone, List.append_assoc, hbalance, List.append_assoc]

/-- **Run lemma.** What is handed to handlers on the way is on record in its order. -/
theorem forwards_play (w : World κ ν) (s : SessionId) (choices : List (Choice κ ν)) :
    (w.play choices).forwards s =
      w.forwards s ++ (w.passages s choices).filterMap Passage.forwarded? := by
  induction choices generalizing w with
  | nil => exact (List.append_nil _).symm
  | cons choice choices ih =>
    cases choice with
    | run p => exact ih (w.push (.run p))
    | step client =>
      have htoList : (w.passage? s).toList.filterMap Passage.forwarded? =
          ((w.passage? s).bind Passage.forwarded?).toList := by
        cases w.passage? s with
        | none => rfl
        | some passage => cases h : passage.forwarded? <;> simp [h]
      rw [passages_step, List.filterMap_append, htoList, ← List.append_assoc, ← step_forwards]
      exact ih (w.step client)

/-- **Conservation of input** of session `s`, which is `session` at first. -/
structure ConservesInput (w : World κ ν) (s : SessionId) (session : Session κ)
    (choices : List (Choice κ ν)) : Prop where
  /-- All that comes is all that goes, in its order, and what still waits. -/
  balance : ∃ last, (w.play choices).sessions[s]? = some last ∧
    session.decoder.pending ++ (w.passages s choices).flatMap Passage.arriving =
      (w.passages s choices).flatMap Passage.leaving ++ last.decoder.pending
  /-- At every step, what waits changes by what passes, if anything does. -/
  passes : ∀ earlier client later, choices = earlier ++ .step client :: later →
    ∃ before after, (w.play earlier).sessions[s]? = some before ∧
      ((w.play earlier).step client).sessions[s]? = some after ∧
        Passes client (w.play earlier) s before after ((w.play earlier).passage? s)
  /-- What passes to handlers is what they are on record to have got. -/
  forwards : (w.play choices).forwards s =
    w.forwards s ++ (w.passages s choices).filterMap Passage.forwarded?
  /-- While an entry is edited, it handles every event that its session takes from what waits. -/
  edits : ∀ before entry rest, (w.play choices).sessions[s]? = some before →
    before.phase = .editing entry → (w.play choices).agenda = .deliver s :: rest →
      before.decoder.hasNext = true → ∃ event taken,
        (w.play choices).passage? s = some (.handled event taken)

/-- **Input is conserved** along every run from a pristine world. -/
theorem Pristine.conserves_input (h : Pristine w) (hs : w.sessions[s]? = some session)
    (choices : List (Choice κ ν)) : ConservesInput w s session choices where
  balance := balance_play hs choices
  passes earlier client later _ := by
    obtain ⟨before, hbefore, -⟩ := balance_play hs earlier
    obtain ⟨after, hafter, hpasses⟩ := step_passes client hbefore
    exact ⟨before, after, hbefore, hafter, hpasses⟩
  forwards := forwards_play w s choices
  edits before entry rest hbefore hphase hagenda hnext := by
    have howned := (h.reachable_play choices).owned s before hbefore
    obtain ⟨c, hc⟩ := Option.ne_none_iff_exists'.1 (howned.connected (by simp [hphase]))
    rw [← Keys.Decoder.isSome_next, Option.isSome_iff_exists] at hnext
    obtain ⟨⟨event, decoder⟩, hnext⟩ := hnext
    rw [passage?_of_deliver hagenda hbefore, Session.passage?]
    simp [hnext, hphase, hc]

/-- A client that does nothing with what it is handed. -/
private def idleReader : Client Unit Unit where
  onLine _ _ := .done
  onComplete _ _ _ := .done
  onRead _ _ := .done
  onResize _ _ := .done

/-- A session in which nothing has happened. -/
private def quietSession : Session Unit := {}

/-- One session and one connection. -/
private def quietWorld : World Unit Unit := { sessions := [quietSession], connections := [{}] }

/-- More is typed than the line that was asked for, and there is a handler for the rest. -/
private def typedBeyond : List (Choice Unit Unit) :=
  .run (.andThen (.install 0 0) <|
    .andThen (.setOnRead 0 (some ())) <|
      .andThen (.request 0 { prompt := [], onLine := (), onComplete? := none }) <|
        .ofCall (.type 0 ['a', Keys.enter, 'b'])) ::
    List.replicate 12 (.step idleReader)

/-- The line takes what is typed up to Enter, and the handler gets what is left. -/
theorem conserves_input_typedBeyond :
    (Pristine quietWorld ∧ quietWorld.sessions[0]? = some quietSession) ∧
      ((quietWorld.passages 0 typedBeyond).map Passage.leaving = [[], ['a'], [Keys.enter], ['b']] ∧
        (quietWorld.play typedBeyond).forwards 0 = [['b']]) ∧
      ConservesInput quietWorld 0 quietSession typedBeyond := by
  have hpristine : Pristine quietWorld := by constructor <;> simp [quietWorld, quietSession]
  exact ⟨⟨hpristine, rfl⟩, ⟨by decide, by decide⟩, hpristine.conserves_input rfl typedBeyond⟩

end World

end LineEditor
