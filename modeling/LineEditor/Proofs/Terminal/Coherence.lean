import LineEditor.Proofs.Session.Ownership
import LineEditor.Proofs.Terminal.Screen

/-!
# The screen shows the line

While a request is edited, the terminal shows its line behind the last prompt, with the cursor in
its place, although no part of the program ever looks at the screen: each writer sends what takes
the terminal from the line before to the line after.

`Watched s c w mark` is a run in which nobody but session `s` writes to connection `c` while a
request of the session is live there, and in which all characters of its line are visible. `mark`
counts what was written to the connection up to the end of the last prompt: a request, an Enter that
goes on, and the end of a completion below suggestions each write one (`lead?`).
`Watched.screen_coherent` says that what was written since displays the line, whenever the session
edits an entry, or waits for a completion that has not listed suggestions.

`Turn.coherent` is the step lemma. Most turns are frames: they leave alone what session `s` is doing
and what is written (`Coherent.frame`).
-/

namespace LineEditor

open Text (charWidth width)
open Terminal (Screen)

variable {κ ν : Type}

section Lines

variable [Text.Widths]

/-! ### What an event writes -/

/-- An event that goes on edits the line and redraws it, or begins another line behind the prompt of
further lines. -/
theorem Entry.handle_goesOn {e : Entry κ} {functions : FunctionTable} {history : History}
    {continuation : List Char} {event : KeyEvent} {handled : Handled κ}
    (hhandled : e.handle functions history continuation event = handled)
    (hgoes : handled.outcome = .goesOn) :
    (∃ line, handled.entry = { e with line } ∧ handled.written = e.line.redraw line) ∨
      handled.entry.lines ≠ e.lines ∧ handled.entry.line = .empty ∧
        handled.written = newRow ++ continuation := by
  subst hhandled
  obtain ⟨-, hhandle⟩ | ⟨-, hhandle⟩ | ⟨-, -, history', line, hhandle⟩ :=
    e.handle_cases functions history continuation event
  · rw [hhandle] at hgoes ⊢
    rw [enter] at hgoes ⊢
    split at hgoes
    · rename_i hpending
      rw [if_pos hpending]
      exact .inr ⟨by simp, rfl, rfl⟩
    · cases hgoes
  · rw [hhandle]
    exact .inl ⟨e.line, rfl, e.line.redraw_self.symm⟩
  · rw [hhandle]
    exact .inl ⟨line, rfl, rfl⟩

/-! ### What a line looks like -/

/-- What was written displays a line behind the cursor: with nothing to be seen behind it, the row
comes to show the line from there on, with the cursor in its place. -/
def Displays (output : List Char) (line : Line) : Prop :=
  ∀ screen : Screen, screen.BlankFrom screen.column →
    (screen.replay output).Shows screen.column line.text ∧
      (screen.replay output).column = screen.column + width line.before

theorem displays_nil : Displays [] .empty := by
  intro screen hblank
  exact ⟨Terminal.Screen.shows_nil hblank, rfl⟩

/-- What displays one line, and takes the terminal to another, displays the other. -/
theorem Displays.redraw {output : List Char} {old new : Line} (h : Displays output old)
    (hold : ∀ ch ∈ old.text, 0 < charWidth ch) (hnew : ∀ ch ∈ new.text, 0 < charWidth ch) :
    Displays (output ++ old.redraw new) new := by
  intro screen hblank
  obtain ⟨hshows, hcolumn⟩ := h screen hblank
  rw [Screen.replay_append]
  exact hshows.replay_redraw hcolumn hold hnew

end Lines

/-! ### What was written -/

/-- What an occurrence writes to a connection. -/
def Occurrence.writtenTo (c : ConnectionId) : Occurrence ν → List Char
  | .wrote d text => if d = c then text else []
  | _ => []

theorem Occurrence.IsAside.writtenTo {o : Occurrence ν} (h : o.IsAside) (c : ConnectionId) :
    o.writtenTo c = [] := by
  cases o <;> first | rfl | exact absurd h id

namespace World

variable {client : Client κ ν} {w w' : World κ ν} {s : SessionId} {c : ConnectionId} {mark : Nat}

/-- Everything that was written to a connection. -/
def written (w : World κ ν) (c : ConnectionId) : List Char :=
  w.record.reverse.flatMap (·.writtenTo c)

theorem written_congr (h : w'.record = w.record) (c : ConnectionId) :
    w'.written c = w.written c := by
  unfold written
  rw [h]

section Written

variable (w : World κ ν) (c : ConnectionId)

@[simp] theorem written_push (job : Job κ ν) : (w.push job).written c = w.written c := rfl

@[simp]
theorem written_reply (next : Answer → Program κ ν) (a : Answer) :
    (w.reply next a).written c = w.written c := rfl

@[simp]
theorem written_changeSession (t : SessionId) (f : Session κ → Session κ) :
    (w.changeSession t f).written c = w.written c := rfl

@[simp]
theorem written_changeConnection (d : ConnectionId) (g : Connection → Connection) :
    (w.changeConnection d g).written c = w.written c := rfl

@[simp]
theorem written_setStatus (k : CompletionId) (status : Status) :
    (w.setStatus k status).written c = w.written c := rfl

@[simp]
theorem written_schedule (t : SessionId) : (w.schedule t).written c = w.written c :=
  written_congr (schedule_record w t) c

@[simp]
theorem written_log (o : Occurrence ν) :
    (w.log o).written c = w.written c ++ o.writtenTo c := by
  simp [written]

@[simp]
theorem written_write (d : ConnectionId) (text : List Char) :
    (w.write d text).written c = w.written c ++ if d = c then text else [] := by
  unfold write
  split
  · rename_i hnil
    rw [List.isEmpty_iff.1 hnil]
    simp
  · rw [written_log]
    rfl

@[simp]
theorem written_afterEvent (s : SessionId) (d : ConnectionId) (handled : Handled κ)
    (decoder : Keys.Decoder) (phase : Phase κ) :
    (w.afterEvent s d handled decoder phase).written c =
      w.written c ++ if d = c then handled.written else [] := by
  simp [afterEvent]

end Written

section Watching

variable [Text.Widths]

/-! ### Watching a session -/

/-- A completion of a request has listed suggestions and is not over. -/
def Suggested (w : World κ ν) (s : SessionId) (id : Nat) : Prop :=
  ∃ completion ∈ w.completions,
    completion.session = s ∧ completion.entryId = id ∧ completion.status = .completing

instance (w : World κ ν) (s : SessionId) (id : Nat) : Decidable (w.Suggested s id) :=
  inferInstanceAs (Decidable (∃ completion ∈ w.completions, _))

/-- A request of session `s` is live on connection `c`. -/
def Live (w : World κ ν) (s : SessionId) (c : ConnectionId) : Prop :=
  ∃ session, w.sessions[s]? = some session ∧ session.connection? = some c ∧ session.phase ≠ .idle

/-- Session `s` edits `entry` on connection `c`, or waits there for a completion that has not listed
suggestions. -/
def Shown (w : World κ ν) (s : SessionId) (c : ConnectionId) (entry : Entry κ) : Prop :=
  ∃ session, w.sessions[s]? = some session ∧ session.connection? = some c ∧
    (session.phase = .editing entry ∨ session.phase = .completing entry ∧ ¬ w.Suggested s entry.id)

/-- All characters of the line of session `s` are visible. -/
def Visible (w : World κ ν) (s : SessionId) : Prop :=
  ∀ (session : Session κ) (entry : Entry κ), w.sessions[s]? = some session →
    session.phase.entry? = some entry → ∀ ch ∈ entry.line.text, 0 < charWidth ch

/-- The session for which a job acts. -/
def actor? (w : World κ ν) : Job κ ν → Option SessionId
  | .deliver s | .run (.call (.request s _) _) => some s
  | .run (.call (.complete k? _ _) _) | .run (.call (.suggest k? _) _)
  | .run (.call (.finish k?) _) => w.completions[w.completionId k?]?.map (·.session)
  | _ => none

/-- Nobody but session `s` writes to connection `c` in a step, while a request of the session is
live there. -/
def Quiet (client : Client κ ν) (w : World κ ν) (s : SessionId) (c : ConnectionId) : Prop :=
  w.Live s c → ∀ job ∈ w.agenda.head?, w.actor? job ≠ some s →
    (w.step client).written c = w.written c

/-- The beginning of what is written from one world to the next, up to the end of a prompt of
session `s`, if a prompt is written: that of a request, or of the next line behind a new row, or of
the line once more below suggestions. -/
def lead? (w w' : World κ ν) (s : SessionId) : Option (List Char) :=
  match w.sessions[s]?, w'.sessions[s]?.map (·.phase) with
  | some session, some phase' =>
    match session.phase, phase' with
    | .idle, .editing entry' => some entry'.request.prompt
    | .editing entry, .editing entry' =>
      if entry'.lines = entry.lines then none else some (newRow ++ session.continuation)
    | .completing entry, .editing _ =>
      if w.Suggested s entry.id then some (entry.prompt session.continuation) else none
    | _, _ => none
  | _, _ => none

/-- How much was written up to the end of the last prompt. -/
def marked (w w' : World κ ν) (s : SessionId) (c : ConnectionId) (mark : Nat) : Nat :=
  match w.lead? w' s with
  | some lead => (w.written c).length + lead.length
  | none => mark

/-- A run that watches session `s` on connection `c`. -/
inductive Watched (s : SessionId) (c : ConnectionId) : World κ ν → Nat → Prop where
  | start {w : World κ ν} (h : Pristine w) : Watched s c w 0
  | run {w : World κ ν} {mark : Nat} (p : Program κ ν) (h : Watched s c w mark) :
      Watched s c (w.push (.run p)) mark
  | step {w : World κ ν} {mark : Nat} (client : Client κ ν) (h : Watched s c w mark)
      (hquiet : Quiet client w s c) (hvisible : (w.step client).Visible s) :
      Watched s c (w.step client) (w.marked (w.step client) s c mark)

theorem Watched.reachable (h : Watched s c w mark) : Reachable w := by
  induction h with
  | start h => exact h.reachable
  | run p _ ih => exact ih.run p
  | step client _ _ _ ih => exact ih.step client

theorem Watched.visible (h : Watched s c w mark) : w.Visible s := by
  induction h with
  | start h =>
    intro session entry hs hentry
    rw [(h.idle session (List.mem_of_getElem? hs)).2] at hentry
    cases hentry
  | run p _ ih => exact ih
  | step client _ _ hvisible _ => exact hvisible

/-- What was written since the mark displays the line. -/
def Coherent (w : World κ ν) (s : SessionId) (c : ConnectionId) (mark : Nat) : Prop :=
  ∀ entry, w.Shown s c entry →
    mark ≤ (w.written c).length ∧ Displays ((w.written c).drop mark) entry.line

/-- When a prompt of session `s` is written on connection `c`, it comes first. -/
def Prompts (w w' : World κ ν) (s : SessionId) (c : ConnectionId) : Prop :=
  ∀ lead, w.lead? w' s = some lead → w'.Live s c → w.written c ++ lead <+: w'.written c

/-! ### Turns that leave the session alone -/

omit [Text.Widths] in
theorem Shown.live {entry : Entry κ} (h : w.Shown s c entry) : w.Live s c := by
  obtain ⟨session, hs, hc, hphase⟩ := h
  refine ⟨session, hs, hc, fun hidle => ?_⟩
  rcases hphase with hphase | ⟨hphase, -⟩ <;> simp [hidle] at hphase

omit [Text.Widths] in
/-- Without a change of its phase, a session writes no prompt. -/
theorem lead?_eq_none (h : ∀ session', w'.sessions[s]? = some session' →
      session'.phase = .idle ∨
        ∃ session, w.sessions[s]? = some session ∧ session'.phase = session.phase) :
    w.lead? w' s = none := by
  unfold lead?
  cases hs' : w'.sessions[s]? with
  | none => split <;> simp_all
  | some session' =>
    obtain hidle | ⟨session, hs, hphase⟩ := h session' hs'
    · rw [Option.map_some, hidle]
      split <;> try rfl
      rename_i hphase'
      cases hphase'
      split <;> simp_all
    · rw [Option.map_some, hs, hphase]
      simp only
      split <;> simp_all

/-- **Frame.** Session `s` does as before, or is idle, and nothing is written to its connection. -/
theorem Coherent.frame (h : w.Coherent s c mark)
    (hsession : ∀ session', w'.sessions[s]? = some session' → session'.phase = .idle ∨
      ∃ session, w.sessions[s]? = some session ∧ session'.phase = session.phase ∧
        session'.connection? = session.connection?)
    (hsuggested : ∀ session entry, w.sessions[s]? = some session →
      session.connection? = some c → session.phase = .completing entry →
        w.Suggested s entry.id → w'.Suggested s entry.id)
    (hwritten : w.Live s c → w'.written c = w.written c) :
    w'.Coherent s c (w.marked w' s c mark) ∧ w.Prompts w' s c := by
  have hlead : w.lead? w' s = none := by
    refine lead?_eq_none fun session' hs' => (hsession session' hs').imp_right ?_
    rintro ⟨session, hs, hphase, -⟩
    exact ⟨session, hs, hphase⟩
  refine ⟨fun entry hshown => ?_, fun lead hlead' => ?_⟩
  · obtain ⟨session', hs', hc, hphase⟩ := hshown
    obtain hidle | ⟨session, hs, hphase', hc'⟩ := hsession session' hs'
    · rcases hphase with hphase | ⟨hphase, -⟩ <;> simp [hidle] at hphase
    · rw [hc'] at hc
      rw [hphase'] at hphase
      have hshown : w.Shown s c entry := by
        refine ⟨session, hs, hc, hphase.imp_right fun ⟨hphase, hnot⟩ => ⟨hphase, ?_⟩⟩
        exact fun hsuggests => hnot (hsuggested session entry hs hc hphase hsuggests)
      rw [marked, hlead, hwritten hshown.live]
      exact h entry hshown
  · rw [hlead] at hlead'
    cases hlead'

/-- The frame of a turn for another session. -/
theorem Coherent.other (h : w.Coherent s c mark) (hs : w'.sessions[s]? = w.sessions[s]?)
    (hsuggested : ∀ id, w.Suggested s id → w'.Suggested s id)
    (hwritten : w.Live s c → w'.written c = w.written c) :
    w'.Coherent s c (w.marked w' s c mark) ∧ w.Prompts w' s c := by
  refine h.frame (fun session hs' => ?_) (fun _ entry _ _ _ => hsuggested entry.id) hwritten
  rw [hs] at hs'
  exact .inr ⟨session, hs', rfl, rfl⟩

/-- The frame of a change of some session that leaves alone what it does, and where. -/
theorem Coherent.adjusted (h : w.Coherent s c mark) {t : SessionId} {f : Session κ → Session κ}
    (hsessions : w'.sessions = (w.changeSession t f).sessions)
    (hphase : ∀ session, (f session).phase = session.phase)
    (hconnection : ∀ session, (f session).connection? = session.connection?)
    (hcompletions : w'.completions = w.completions) (hwritten : w'.written c = w.written c) :
    w'.Coherent s c (w.marked w' s c mark) ∧ w.Prompts w' s c := by
  refine h.frame (fun session' hs' => ?_) (fun _ _ _ _ _ => ?_) fun _ => hwritten
  · rw [hsessions, getElem?_sessions_changeSession] at hs'
    obtain ⟨session, hs, rfl⟩ := Option.map_eq_some_iff.1 hs'
    refine .inr ⟨session, hs, ?_⟩
    split
    · exact ⟨hphase session, hconnection session⟩
    · exact ⟨rfl, rfl⟩
  · unfold Suggested
    rw [hcompletions]
    exact id

omit [Text.Widths] in
/-- A session that another one's change leaves alone. -/
theorem getElem?_sessions_changeSession_of_ne {t : SessionId} (f : Session κ → Session κ)
    (hts : t ≠ s) : (w.changeSession t f).sessions[s]? = w.sessions[s]? := by
  simp [getElem?_sessions_changeSession, hts]

/-- A session that becomes idle shows no line and gets no prompt. -/
theorem coherent_of_idle {t : SessionId} {f : Session κ → Session κ}
    (h : t ≠ s → w'.Coherent s c (w.marked w' s c mark) ∧ w.Prompts w' s c)
    (hsessions : w'.sessions = (w.changeSession t f).sessions)
    (hidle : ∀ session, (f session).phase = .idle) :
    w'.Coherent s c (w.marked w' s c mark) ∧ w.Prompts w' s c := by
  by_cases hts : t = s
  · subst hts
    have hphase : ∀ session', w'.sessions[t]? = some session' → session'.phase = .idle := by
      intro session' hs'
      rw [hsessions, getElem?_sessions_changeSession] at hs'
      obtain ⟨session, -, rfl⟩ := Option.map_eq_some_iff.1 hs'
      rw [if_pos rfl, hidle]
    refine ⟨fun entry hshown => ?_, fun lead hlead => ?_⟩
    · obtain ⟨session', hs', -, hlive⟩ := hshown
      rcases hlive with hlive | ⟨hlive, -⟩ <;> simp [hphase session' hs'] at hlive
    · rw [lead?_eq_none fun session' hs' => .inl (hphase session' hs')] at hlead
      cases hlead
  · exact h hts

/-! ### Turns that write for the session -/

theorem Visible.of_shown (h : w.Visible s) {entry : Entry κ} (hshown : w.Shown s c entry) :
    ∀ ch ∈ entry.line.text, 0 < charWidth ch := by
  obtain ⟨session, hs, -, hphase | ⟨hphase, -⟩⟩ := hshown
  · exact h session entry hs (by rw [hphase]; rfl)
  · exact h session entry hs (by rw [hphase]; rfl)

/-- Without a prompt, a line is redrawn that was shown before. -/
theorem Coherent.redrawn (h : w.Coherent s c mark) (hlead : w.lead? w' s = none)
    (hvisible : w.Visible s) (hvisible' : w'.Visible s)
    (hshown : ∀ entry', w'.Shown s c entry' → ∃ entry, w.Shown s c entry ∧
      w'.written c = w.written c ++ entry.line.redraw entry'.line) :
    w'.Coherent s c (w.marked w' s c mark) ∧ w.Prompts w' s c := by
  have hmark : w.marked w' s c mark = mark := by rw [marked, hlead]
  refine ⟨fun entry' hafter => ?_, fun lead hlead' => ?_⟩
  · obtain ⟨entry, hbefore, hwritten⟩ := hshown entry' hafter
    obtain ⟨hle, hdisplays⟩ := h entry hbefore
    rw [hmark, hwritten, List.drop_append_of_le_length hle, List.length_append]
    refine ⟨by omega, ?_⟩
    exact hdisplays.redraw (hvisible.of_shown hbefore) (hvisible'.of_shown hafter)
  · rw [hlead] at hlead'
    cases hlead'

/-- A prompt is written, and then what displays the line behind it. -/
theorem coherent_of_prompt {lead : List Char} (hlead : w.lead? w' s = some lead)
    (hlive : w'.Live s c → ∃ shown line, w'.written c = w.written c ++ (lead ++ shown) ∧
      Displays shown line ∧ ∀ entry, w'.Shown s c entry → entry.line = line) :
    w'.Coherent s c (w.marked w' s c mark) ∧ w.Prompts w' s c := by
  have hmark : w.marked w' s c mark = (w.written c ++ lead).length := by
    rw [marked, hlead, List.length_append]
  refine ⟨fun entry hshown => ?_, fun lead' hlead' hlive' => ?_⟩
  · obtain ⟨shown, line, hwritten, hdisplays, hline⟩ := hlive hshown.live
    rw [hmark, hwritten, ← List.append_assoc, List.drop_left, hline entry hshown]
    refine ⟨?_, hdisplays⟩
    simp only [List.length_append]
    omega
  · obtain ⟨shown, line, hwritten, -⟩ := hlive hlive'
    rw [hlead] at hlead'
    cases hlead'
    rw [hwritten, ← List.append_assoc]
    exact List.prefix_append _ _

/-! ### Completions and suggestions -/

omit [Text.Widths] in
/-- While a request waits for a completion that has not listed suggestions, no other one has. -/
theorem Owned.not_suggested_of_completing (h : Owned w) {session : Session κ} {k : CompletionId}
    {completion : Completion} (hk : w.completions[k]? = some completion)
    (hs : w.sessions[completion.session]? = some session)
    (hstage : session.phase.stage = .completing completion.entryId)
    (hopen : completion.status ≠ .completed) (hstatus : completion.status ≠ .completing) :
    ¬ w.Suggested completion.session completion.entryId := by
  rintro ⟨other, hmem, hsession, hid, hother⟩
  obtain ⟨j, hj⟩ := List.getElem?_of_mem hmem
  have hjk : j = k := by
    refine (h _ session hs).eq_of_open hstage hk ⟨rfl, rfl⟩ hopen hj ⟨hsession, hid⟩ ?_
    rw [hother]
    exact nofun
  subst hjk
  rw [hk] at hj
  cases hj
  exact hstatus hother

omit [Text.Widths] in
/-- A move of a status leaves alone what is suggested elsewhere. -/
theorem Suggested.setStatus {id : Nat} (h : w.Suggested s id) {k : CompletionId}
    {completion : Completion} {status : Status} (hk : w.completions[k]? = some completion)
    (hother : completion.session = s → completion.entryId = id → completion.status = .completing →
      status = .completing) :
    (w.setStatus k status).Suggested s id := by
  obtain ⟨listed, hmem, hsession, hid, hstatus⟩ := h
  obtain ⟨j, hj⟩ := List.getElem?_of_mem hmem
  by_cases hkj : k = j
  · subst hkj
    rw [hk] at hj
    cases hj
    refine ⟨{ completion with status }, List.mem_of_getElem? (i := k) ?_, hsession, hid,
      hother hsession hid hstatus⟩
    rw [getElem?_completions_setStatus, hk]
    simp
  · refine ⟨listed, List.mem_of_getElem? (i := j) ?_, hsession, hid, hstatus⟩
    rw [getElem?_completions_setStatus, hj]
    simp [hkj]

/-! ### What every turn keeps -/

/-- A request writes its prompt, behind which its line is empty. -/
theorem coherent_of_request {session : Session κ} {r : Request κ} {d : ConnectionId}
    (hs : w.sessions[s]? = some session) (hd : session.connection? = some d)
    (hidle : session.phase = .idle)
    (hs' : w'.sessions[s]? = some { session with
      phase := .editing { id := session.nextId, request := r }
      nextId := session.nextId + 1 })
    (hwritten : w'.written d = w.written d ++ r.prompt) :
    w'.Coherent s c (w.marked w' s c mark) ∧ w.Prompts w' s c := by
  have hlead : w.lead? w' s = some r.prompt := by simp [lead?, hs, hs', hidle]
  refine coherent_of_prompt hlead fun hlive => ⟨[], .empty, ?_, displays_nil, ?_⟩
  · obtain ⟨session', hs'', hc, -⟩ := hlive
    rw [hs'] at hs''
    cases hs''
    cases hd.symm.trans hc
    rw [hwritten, List.append_nil]
  · rintro entry ⟨session', hs'', -, hphase⟩
    rw [hs'] at hs''
    cases hs''
    rcases hphase with hphase | ⟨hphase, -⟩ <;> cases hphase
    rfl

/-- While a session waits for a completion that has listed suggestions, its line is not shown. -/
theorem coherent_of_suggested {session : Session κ} {entry : Entry κ}
    (hs : w.sessions[s]? = some session) (hphase : session.phase = .completing entry)
    (hs' : w'.sessions[s]? = some session) (hsuggested : w'.Suggested s entry.id) :
    w'.Coherent s c (w.marked w' s c mark) ∧ w.Prompts w' s c := by
  refine ⟨fun entry' hshown => ?_, fun lead hlead => ?_⟩
  · obtain ⟨session', hs'', -, hphase'⟩ := hshown
    rw [hs'] at hs''
    cases hs''
    rcases hphase' with hphase' | ⟨hphase', hnot⟩
    · rw [hphase] at hphase'
      cases hphase'
    · rw [hphase] at hphase'
      cases hphase'
      exact absurd hsuggested hnot
  · rw [lead?_eq_none fun session' hs'' => .inr ⟨session', by rw [hs, ← hs', hs''], rfl⟩] at hlead
    cases hlead

/-- An event that goes on redraws the line, or begins another one behind a prompt. -/
theorem Coherent.edit (h : w.Coherent s c mark) {session : Session κ} {entry : Entry κ}
    {d : ConnectionId} {event : KeyEvent} {decoder : Keys.Decoder} {handled : Handled κ}
    (hh : w.Handles s session entry d event decoder)
    (hhandled : entry.handle session.functions session.history session.continuation event =
      handled) (hgoes : handled.outcome = .goesOn)
    (hw' : w.afterEvent s d handled decoder (.editing handled.entry) = w')
    (hvisible : w.Visible s) (hvisible' : w'.Visible s) :
    w'.Coherent s c (w.marked w' s c mark) ∧ w.Prompts w' s c := by
  have hs' : w'.sessions[s]? = some { session with
      phase := .editing handled.entry, decoder, history := handled.history } := by
    rw [← hw', afterEvent_sessions, getElem?_sessions_changeSession, hh.lookup]
    simp
  have hwritten : w'.Live s c → w'.written c = w.written c ++ handled.written := by
    rintro ⟨session', hs'', hc, -⟩
    rw [hs'] at hs''
    cases hs''
    cases hh.connection.symm.trans hc
    rw [← hw']
    simp [afterEvent]
  have hentry : ∀ entry', w'.Shown s c entry' → entry' = handled.entry := by
    rintro entry' ⟨session', hs'', -, hphase⟩
    rw [hs'] at hs''
    cases hs''
    rcases hphase with hphase | ⟨hphase, -⟩ <;> cases hphase
    rfl
  have hbefore : w'.Live s c → w.Shown s c entry := by
    rintro ⟨session', hs'', hc, -⟩
    rw [hs'] at hs''
    cases hs''
    exact ⟨session, hh.lookup, hc, .inl hh.phase⟩
  obtain ⟨line, hedited, hredraw⟩ | ⟨hlines, hline, hprompt⟩ := Entry.handle_goesOn hhandled hgoes
  · refine h.redrawn ?_ hvisible hvisible' fun entry' hshown => ?_
    · simp [lead?, hh.lookup, hs', hh.phase, hedited]
    · refine ⟨entry, hbefore hshown.live, ?_⟩
      rw [hwritten hshown.live, hentry entry' hshown, hredraw, hedited]
  · have hlead : w.lead? w' s = some (newRow ++ session.continuation) := by
      simp [lead?, hh.lookup, hs', hh.phase, hlines]
    refine coherent_of_prompt hlead fun hlive => ⟨[], .empty, ?_, displays_nil, ?_⟩
    · rw [hwritten hlive, hprompt, List.append_nil]
    · intro entry' hshown
      rw [hentry entry' hshown, hline]

/-- A Tab key that begins a completion shows the line on. -/
theorem Coherent.ask (h : w.Coherent s c mark) {session : Session κ} {entry : Entry κ}
    {d : ConnectionId} {event : KeyEvent} {decoder : Keys.Decoder} {handled : Handled κ}
    (hh : w.Handles s session entry d event decoder) (hentry : handled.entry = entry)
    (hs' : w'.sessions[s]? = some { session with
      phase := .completing handled.entry, decoder, history := handled.history })
    (hwritten : w'.written c = w.written c) (hvisible : w.Visible s) (hvisible' : w'.Visible s) :
    w'.Coherent s c (w.marked w' s c mark) ∧ w.Prompts w' s c := by
  refine h.redrawn ?_ hvisible hvisible' ?_
  · simp [lead?, hh.lookup, hs', hh.phase]
  · rintro entry' ⟨session', hs'', hc, hphase⟩
    rw [hs'] at hs''
    cases hs''
    have hsame : entry' = entry := by
      rcases hphase with hphase | ⟨hphase, -⟩ <;> cases hphase
      exact hentry
    refine ⟨entry, ⟨session, hh.lookup, hc, .inl hh.phase⟩, ?_⟩
    rw [hsame, Line.redraw_self, List.append_nil, hwritten]

/-- Text that is put into the line that waits for a completion is shown. -/
theorem Coherent.insert (h : w.Coherent s c mark) (howned : Owned w) {k : CompletionId}
    {completion : Completion} {d : ConnectionId} {entry : Entry κ} (line : Line)
    (hk : w.completions[k]? = some completion) (hpending : completion.status = .pending)
    (hwait : w.waiting? completion = some (d, entry)) (hsession : completion.session = s)
    (hsessions : w'.sessions =
      (w.changeSession s ({ · with phase := .completing { entry with line } })).sessions)
    (hwritten : w'.written d = w.written d ++ entry.line.redraw line)
    (hvisible : w.Visible s) (hvisible' : w'.Visible s) :
    w'.Coherent s c (w.marked w' s c mark) ∧ w.Prompts w' s c := by
  obtain ⟨session, hs, hd, hphase, hid⟩ := waiting?_eq_some_iff.1 hwait
  rw [hsession] at hs
  have hs' : w'.sessions[s]? = some { session with phase := .completing { entry with line } } := by
    rw [hsessions, getElem?_sessions_changeSession, hs]
    simp
  have hnot : ¬ w.Suggested s entry.id := by
    have hstage : session.phase.stage = .completing completion.entryId := by simp [hphase, hid]
    rw [← hsession] at hs ⊢
    rw [hid]
    refine howned.not_suggested_of_completing hk hs hstage ?_ ?_ <;> rw [hpending] <;> exact nofun
  refine h.redrawn ?_ hvisible hvisible' ?_
  · simp [lead?, hs, hs', hphase]
  · rintro entry' ⟨session', hs'', hc, hphase'⟩
    rw [hs'] at hs''
    cases hs''
    cases hd.symm.trans hc
    obtain rfl : entry' = { entry with line } := by
      rcases hphase' with hphase' | ⟨hphase', -⟩ <;> cases hphase'
      rfl
    exact ⟨entry, ⟨session, hs, hc, .inr ⟨hphase, hnot⟩⟩, hwritten⟩

/-- Below suggestions, the end of a completion shows the line behind another prompt. Otherwise it is
shown on. -/
theorem Coherent.resume (h : w.Coherent s c mark) (howned : Owned w) {k : CompletionId}
    {completion : Completion} {session : Session κ} {entry : Entry κ} {d : ConnectionId}
    (hk : w.completions[k]? = some completion) (hopen : completion.status ≠ .completed)
    (hs : w.sessions[completion.session]? = some session)
    (hphase : session.phase = .completing entry) (hid : entry.id = completion.entryId)
    (hd : ∀ d', session.connection? = some d' → d' = d) (hsession : completion.session = s)
    (hsessions : w'.sessions = (w.changeSession s ({ · with phase := .editing entry })).sessions)
    (hwritten : w'.written d = w.written d ++ completion.redrawing session entry)
    (hvisible : w.Visible s) (hvisible' : w'.Visible s) :
    w'.Coherent s c (w.marked w' s c mark) ∧ w.Prompts w' s c := by
  have hstage : session.phase.stage = .completing completion.entryId := by simp [hphase, hid]
  obtain ⟨d', hd'⟩ := Option.ne_none_iff_exists'.1
    ((howned _ session hs).connected (by simp [hstage]))
  obtain rfl := hd d' hd'
  rw [hsession] at hs
  have hs' : w'.sessions[s]? = some { session with phase := .editing entry } := by
    rw [hsessions, getElem?_sessions_changeSession, hs]
    simp
  have hconnection : w'.Live s c → c = d' := by
    rintro ⟨session', hs'', hc, -⟩
    rw [hs'] at hs''
    cases hs''
    cases hd'.symm.trans hc
    rfl
  have hentry : ∀ entry', w'.Shown s c entry' → entry' = entry := by
    rintro entry' ⟨session', hs'', -, hphase'⟩
    rw [hs'] at hs''
    cases hs''
    rcases hphase' with hphase' | ⟨hphase', -⟩ <;> cases hphase'
    rfl
  by_cases hstatus : completion.status = .completing
  · have hsuggested : w.Suggested s entry.id :=
      ⟨completion, List.mem_of_getElem? hk, hsession, hid.symm, hstatus⟩
    have hlead : w.lead? w' s = some (entry.prompt session.continuation) := by
      simp [lead?, hs, hs', hphase, hsuggested]
    refine coherent_of_prompt hlead fun hlive =>
      ⟨Line.empty.redraw entry.line, entry.line, ?_, ?_, ?_⟩
    · cases hconnection hlive
      rw [hwritten, Completion.redrawing, if_pos ⟨hstatus, by rw [hd']; rfl⟩]
    · refine displays_nil.redraw (fun ch hch => ?_) ?_
      · cases hch
      · exact hvisible session entry hs (by rw [hphase]; rfl)
    · intro entry' hshown
      rw [hentry entry' hshown]
  · have hnot : ¬ w.Suggested s entry.id := by
      rw [hid, ← hsession]
      rw [← hsession] at hs
      exact howned.not_suggested_of_completing hk hs hstage hopen hstatus
    refine h.redrawn ?_ hvisible hvisible' fun entry' hshown => ?_
    · simp [lead?, hs, hs', hphase, hnot]
    · cases hconnection hshown.live
      refine ⟨entry, ⟨session, hs, hd', .inr ⟨hphase, hnot⟩⟩, ?_⟩
      rw [hentry entry' hshown, Line.redraw_self, hwritten, Completion.redrawing,
        if_neg fun hboth => hstatus hboth.1]

/-- **Step lemma.** When nobody else writes, every turn keeps the line displayed, and writes a
prompt first where it writes one. -/
theorem Turn.coherent {job : Job κ ν} (hturn : Turn client w job w') (howned : Owned w)
    (hvisible : w.Visible s) (hvisible' : w'.Visible s)
    (hquiet : w.Live s c → w.actor? job ≠ some s → w'.written c = w.written c)
    (h : w.Coherent s c mark) :
    w'.Coherent s c (w.marked w' s c mark) ∧ w.Prompts w' s c := by
  -- what another session's job does, or a client's own write, is a frame
  have hother : w.actor? job ≠ some s → w'.sessions[s]? = w.sessions[s]? →
      (∀ id, w.Suggested s id → w'.Suggested s id) →
        w'.Coherent s c (w.marked w' s c mark) ∧ w.Prompts w' s c := by
    intro hactor hs hsuggested
    exact h.other hs hsuggested fun hlive => hquiet hlive hactor
  cases hturn with
  | rest => exact h.other rfl (fun _ => id) fun _ => rfl
  | answer call next a => exact h.other rfl (fun _ => id) fun _ => rfl
  | aside call next a ho =>
    refine h.other rfl (fun _ => id) fun _ => ?_
    rw [written_reply, written_log, ho.writtenTo, List.append_nil]
  | write d text next =>
    refine hother nofun (by simp) fun id hid => ?_
    simpa [Suggested] using hid
  | listen d label next => exact h.other rfl (fun _ => id) fun _ => rfl
  | adjust call next a t hf => exact h.adjusted rfl hf.phase hf.connection rfl rfl
  | resize d size next t handler =>
    refine h.adjusted rfl (fun _ => rfl) (fun _ => rfl) rfl ?_
    simp [Occurrence.writtenTo]
  | type d text next t => exact h.adjusted rfl (fun _ => rfl) (fun _ => rfl) rfl rfl
  | schedule t next =>
    refine h.other (by simp) (fun id hid => ?_) fun _ => by simp
    simpa [Suggested] using hid
  | deliver t next => exact h.other rfl (fun _ => id) fun _ => rfl
  | runTasks d limit? next => exact h.other rfl (fun _ => id) fun _ => rfl
  | install t d next hs hfree hd =>
    refine h.frame (fun session' hs' => ?_) (fun _ _ _ _ _ => id) fun _ => rfl
    rw [reply_sessions, changeConnection_sessions, getElem?_sessions_changeSession] at hs'
    obtain ⟨session₀, hs₀, rfl⟩ := Option.map_eq_some_iff.1 hs'
    by_cases hts : t = s
    · subst hts
      rw [hs] at hs₀
      cases hs₀
      rw [if_pos rfl]
      exact .inl (Phase.stage_eq_idle.1 ((howned t _ hs).stage_eq_idle hfree))
    · rw [if_neg hts]
      exact .inr ⟨session₀, hs₀, rfl, rfl⟩
  | uninstall t next hs hd =>
    refine coherent_of_idle (fun hts => ?_) rfl fun _ => rfl
    refine h.other ?_ (fun _ => id) fun _ => rfl
    exact getElem?_sessions_changeSession_of_ne _ hts
  | request t r next hs hd hidle =>
    rename_i session d
    by_cases hts : t = s
    · subst hts
      refine coherent_of_request hs hd hidle ?_ ?_ (r := r)
      · rw [reply_sessions, schedule_sessions, write_sessions, getElem?_sessions_changeSession, hs]
        simp
      · simp
    · refine hother (by simpa [actor?] using hts) ?_ fun id hid => ?_
      · rw [reply_sessions, schedule_sessions, write_sessions]
        exact getElem?_sessions_changeSession_of_ne _ hts
      · simpa [Suggested] using hid
  | move call next a k status hk hmove hwait =>
    rename_i completion
    refine h.frame ?_ (fun session entry hs hc hphase hsuggested => ?_) fun _ => rfl
    · exact fun session hs => .inr ⟨session, hs, rfl, rfl⟩
    · -- suggestions are over only where nobody waits for them
      refine hsuggested.setStatus hk fun hsession hid hstatus => ?_
      have hwaits : w.waiting? completion = some (c, entry) := by
        refine waiting?_eq_some_iff.2 ⟨session, ?_, hc, hphase, hid.symm⟩
        rw [hsession, hs]
      rcases hwait with rfl | hnone
      · rw [hstatus] at hmove
        exact absurd hmove id
      · rw [hnone] at hwaits
        cases hwaits
  | insert k? text terminal next hk? hk hpending hwait hline =>
    rename_i k completion d entry line
    by_cases hts : completion.session = s
    · refine h.insert howned line hk hpending hwait hts ?_ ?_ hvisible hvisible'
      · rw [reply_sessions, write_sessions, hts]
        rfl
      · simp
    · refine hother (by simpa [actor?, hk?, hk] using hts) ?_ fun id hid => ?_
      · rw [reply_sessions, write_sessions]
        exact getElem?_sessions_changeSession_of_ne _ hts
      · have hmoved : (w.setStatus k .inlining).Suggested s id :=
          hid.setStatus hk fun heq => absurd heq hts
        simpa [Suggested] using hmoved
  | suggest k? text next hk? hk hstatus hwait =>
    rename_i k completion d entry
    have hkept : ∀ id, w.Suggested s id → (w.setStatus k .completing).Suggested s id :=
      fun id hid => hid.setStatus hk fun _ _ _ => rfl
    by_cases hts : completion.session = s
    · -- from now on the session waits for a completion that has listed suggestions
      obtain ⟨session, hs, -, hphase, hid⟩ := waiting?_eq_some_iff.1 hwait
      rw [hts] at hs
      refine coherent_of_suggested hs hphase ?_ ?_
      · rw [reply_sessions, write_sessions, setStatus_sessions, hs]
      · refine ⟨{ completion with status := .completing }, List.mem_of_getElem? (i := k) ?_, hts,
          hid.symm, rfl⟩
        rw [reply_completions, write_completions, getElem?_completions_setStatus, hk]
        simp
    · refine hother (by simpa [actor?, hk?, hk] using hts) (by simp) fun id hid => ?_
      simpa [Suggested] using hkept id hid
  | resume k? next hk? hk hopen hs hphase hid hd =>
    rename_i k completion session entry d
    by_cases hts : completion.session = s
    · refine h.resume howned hk hopen hs hphase hid hd hts ?_ (by simp) hvisible hvisible'
      rw [reply_sessions, schedule_sessions, hts]
      simp only [changeSession, write_sessions, setStatus_sessions]
    · refine hother (by simpa [actor?, hk?, hk] using hts) ?_ fun id hsuggested => ?_
      · rw [reply_sessions, schedule_sessions, getElem?_sessions_changeSession_of_ne _ hts,
          write_sessions, setStatus_sessions]
      · have hmoved : (w.setStatus k .completed).Suggested s id :=
          hsuggested.setStatus hk fun heq => absurd heq hts
        simpa [Suggested] using hmoved
  | stop t hstop => exact h.other rfl (fun _ => id) fun _ => rfl
  | forward t hs hidle hread hnext =>
    refine h.adjusted rfl (fun _ => rfl) (fun _ => rfl) rfl ?_
    simp [Occurrence.writtenTo]
  | edit t hh hhandled hgoes =>
    by_cases hts : t = s
    · subst hts
      exact h.edit hh hhandled hgoes rfl hvisible hvisible'
    · refine hother (by simpa [actor?] using hts) ?_ fun id hid => ?_
      · rw [afterEvent_sessions]
        exact getElem?_sessions_changeSession_of_ne _ hts
      · simpa [Suggested, afterEvent] using hid
  | submit t hh hhandled hsubmitted =>
    rename_i session entry d event decoder handled line
    refine coherent_of_idle (t := t)
      (f := ({ · with phase := .idle, decoder, history := handled.history })) (fun hts => ?_) ?_
      fun _ => rfl
    · refine hother (by simpa [actor?] using hts) ?_ fun id hid => ?_
      · rw [push_sessions, log_sessions, afterEvent_sessions]
        exact getElem?_sessions_changeSession_of_ne _ hts
      · simpa [Suggested, afterEvent] using hid
    · rw [push_sessions, log_sessions, afterEvent_sessions]
  | ask t hh hhandled hasked hcompletion =>
    rename_i session entry d event decoder handled handler snapshot completion
    obtain ⟨hentry, hnil, -⟩ := Entry.handle_asked hhandled hasked
    by_cases hts : t = s
    · subst hts
      refine h.ask hh hentry ?_ ?_ hvisible hvisible'
      · rw [push_sessions, log_sessions]
        show (w.afterEvent t d handled decoder (.completing handled.entry)).sessions[t]? = _
        rw [afterEvent_sessions, getElem?_sessions_changeSession, hh.lookup]
        simp
      · rw [written_push, written_log]
        show (w.afterEvent t d handled decoder (.completing handled.entry)).written c ++ [] = _
        simp [hnil]
    · refine hother (by simpa [actor?] using hts) ?_ fun id hid => ?_
      · show (w.afterEvent t d handled decoder (.completing handled.entry)).sessions[s]? = _
        rw [afterEvent_sessions]
        exact getElem?_sessions_changeSession_of_ne _ hts
      · obtain ⟨listed, hmem, hlisted⟩ := hid
        exact ⟨listed, List.mem_append_left _ hmem, hlisted⟩
  | tasksOver d limit? count next hover => exact h.other rfl (fun _ => id) fun _ => rfl
  | nextTask d limit? count next hlimit hd htasks => exact h.other rfl (fun _ => id) fun _ => rfl

/-- A step of a watched run keeps the line displayed. -/
theorem Coherent.step (h : w.Coherent s c mark) (howned : Owned w) (hvisible : w.Visible s)
    (hquiet : Quiet client w s c) (hvisible' : (w.step client).Visible s) :
    (w.step client).Coherent s c (w.marked (w.step client) s c mark) ∧
      w.Prompts (w.step client) s c := by
  cases hagenda : w.agenda with
  | nil =>
    rw [step_of_agenda_nil client hagenda]
    exact h.other rfl (fun _ => id) fun _ => rfl
  | cons job rest =>
    refine (turn_step client hagenda).coherent howned hvisible hvisible' (fun hlive hactor => ?_) h
    exact hquiet hlive job (by rw [hagenda]; rfl) hactor

/-- **Run lemma.** In a watched run the line is displayed. -/
theorem Watched.coherent_mark (h : Watched s c w mark) : w.Coherent s c mark := by
  induction h with
  | start h =>
    rintro entry ⟨session, hs, -, hphase⟩
    rw [(h.idle session (List.mem_of_getElem? hs)).2] at hphase
    rcases hphase with hphase | ⟨hphase, -⟩ <;> cases hphase
  | run p _ ih => exact ih
  | step client h hquiet hvisible' ih =>
    exact (ih.step h.reachable.owned h.visible hquiet hvisible').1

/-- **The screen shows the line.** In a watched run, what was written since the last prompt displays
the line of the session, while it edits an entry or waits for a completion that has not listed
suggestions; and a step that goes on with the run and writes a prompt writes it first. -/
theorem Watched.screen_coherent (h : Watched s c w mark) :
    (∀ entry, w.Shown s c entry →
      mark ≤ (w.written c).length ∧ Displays ((w.written c).drop mark) entry.line) ∧
    ∀ client, Quiet client w s c → (w.step client).Visible s →
      w.Prompts (w.step client) s c := by
  refine ⟨h.coherent_mark, fun client hquiet hvisible' => ?_⟩
  exact (h.coherent_mark.step h.reachable.owned h.visible hquiet hvisible').2

end Watching

/-- A client that does nothing. -/
private def silent : Client Unit Unit where
  onLine _ _ := .done
  onComplete _ _ _ := .done
  onRead _ _ := .done
  onResize _ _ := .done

/-- A session is installed, a request is made, and a letter is typed. -/
private def lettered (steps : Nat) : World Unit Unit :=
  exec silent steps { sessions := [{}], connections := [{}] } <|
    .andThen (.install 0 0) <|
      .andThen (.request 0 { prompt := ['>'], onLine := (), onComplete? := none }) <|
        .ofCall (.type 0 ['a'])

private theorem watched_lettered : Watched 0 0 (lettered 4) 1 := by
  have hstart : Watched 0 0 (lettered 0) 0 := .run _ (.start (by constructor <;> simp))
  have hinstall : Watched 0 0 (lettered 1) 0 := by
    refine hstart.step silent (fun _ _ _ _ => rfl) ?_
    rintro session entry ⟨⟩ ⟨⟩
  have hrequest : Watched 0 0 (lettered 2) 1 := by
    refine hinstall.step silent ?_ ?_
    · rintro - job ⟨⟩ hactor
      exact absurd rfl hactor
    · rintro session entry ⟨⟩ ⟨⟩ ch ⟨⟩
  have htype : Watched 0 0 (lettered 3) 1 := by
    refine hrequest.step silent (fun _ _ _ _ => rfl) ?_
    rintro session entry ⟨⟩ ⟨⟩ ch ⟨⟩
  refine htype.step silent ?_ ?_
  · rintro - job ⟨⟩ hactor
    exact absurd rfl hactor
  · rintro session entry ⟨⟩ ⟨⟩ ch hch
    rw [List.mem_singleton.1 hch]
    decide

/-- A letter that was typed is displayed behind the prompt. -/
theorem screen_coherent_lettered :
    ∃ entry, (lettered 4).Shown 0 0 entry ∧ entry.line.text = ['a'] ∧
      Displays (((lettered 4).written 0).drop 1) entry.line := by
  have hshown : ∃ entry, (lettered 4).Shown 0 0 entry ∧ entry.line.text = ['a'] :=
    ⟨_, ⟨_, rfl, rfl, .inl rfl⟩, rfl⟩
  obtain ⟨entry, hshown, htext⟩ := hshown
  exact ⟨entry, hshown, htext, ((Watched.screen_coherent watched_lettered).1 entry hshown).2⟩

end World

end LineEditor
