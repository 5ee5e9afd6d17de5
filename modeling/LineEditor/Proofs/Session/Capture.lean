import LineEditor.Proofs.Session.Ownership
import LineEditor.Text.Width.Table

/-!
# What a completion was asked for

A completion is handed a snapshot of the entry at the Tab key, and nothing brings it up to date
later. Nothing needs to: while a request waits, its line changes only when text is put in for the
completion that it waits for, and no other completion of the request is left then. So until that
happens the snapshot is one of the entry as it stands (`Session.Keeps`). That its reader is in step
with its lines is an invariant of the same kind.

`Turn.captured` is the step lemma and `Reachable.captured` the run lemma.
-/

namespace LineEditor

variable {κ ν : Type}

/-- Nothing has been put into the line for a completion, and it is not over. -/
def Status.Intact : Status → Prop
  | .pending | .completing => True
  | .inlining | .completed => False

/-- No status leads back. -/
theorem Status.Leads.intact {status status' : Status} (h : status.Leads status')
    (h' : status'.Intact) : status.Intact := by
  cases status <;> cases status' <;> simp_all [Leads, Intact]

theorem Status.Intact.ne_completed {status : Status} (h : status.Intact) :
    status ≠ .completed := by
  rintro rfl
  exact h

/-- The live entry of a session is in step with its lines, and the snapshots of it are up to date. -/
structure Session.Keeps (session : Session κ) (s : SessionId) (completions : List Completion) :
    Prop where
  inStep : ∀ entry, session.phase.entry? = some entry → entry.InStep
  snapshot : ∀ entry, session.phase = .completing entry →
    ∀ (k : CompletionId) (completion : Completion), completions[k]? = some completion →
      completion.IsFor s entry.id → completion.status.Intact → completion.snapshot = entry.snapshot

namespace Session.Keeps

variable {session session' : Session κ} {s : SessionId} {completions completions' : List Completion}

/-- Only the phase matters. -/
theorem congr (h : session.Keeps s completions) (hphase : session'.phase = session.phase) :
    session'.Keeps s completions where
  inStep := by
    rw [hphase]
    exact h.inStep
  snapshot := by
    rw [hphase]
    exact h.snapshot

theorem idle (hphase : session.phase = .idle) : session.Keeps s completions where
  inStep entry hentry := by
    rw [hphase] at hentry
    cases hentry
  snapshot entry hentry := by
    rw [hphase] at hentry
    cases hentry

/-- An entry that is edited has no snapshots that matter. -/
theorem editing {entry : Entry κ} (hphase : session.phase = .editing entry)
    (hstep : entry.InStep) : session.Keeps s completions where
  inStep entry' hentry := by
    rw [hphase] at hentry
    cases hentry
    exact hstep
  snapshot entry' hentry := by
    rw [hphase] at hentry
    cases hentry

/-- A status has moved. -/
theorem setStatus (h : session.Keeps s completions) {k : CompletionId} {completion : Completion}
    {status : Status} (hk : completions[k]? = some completion)
    (hmove : completion.status.Leads status) :
    session.Keeps s (completions.modify k ({ · with status })) where
  inStep := h.inStep
  snapshot entry hphase j moved hj hfor hintact := by
    rw [List.getElem?_modify] at hj
    obtain ⟨before, hbefore, rfl⟩ := Option.map_eq_some_iff.1 hj
    by_cases hkj : k = j
    · subst hkj
      obtain rfl := Option.some.inj (hk.symm.trans hbefore)
      rw [if_pos rfl] at hfor hintact ⊢
      exact h.snapshot entry hphase k completion hk hfor (hmove.intact hintact)
    · rw [if_neg hkj] at hfor hintact ⊢
      exact h.snapshot entry hphase j before hbefore hfor hintact

/-- A completion is begun for another session. -/
theorem append (h : session.Keeps s completions) {completion : Completion}
    (hother : completion.session ≠ s) : session.Keeps s (completions ++ [completion]) where
  inStep := h.inStep
  snapshot entry hphase j c hj hfor hintact := by
    obtain ⟨-, hj⟩ | ⟨-, rfl⟩ := lt_or_eq_of_getElem?_concat hj
    · exact h.snapshot entry hphase j c hj hfor hintact
    · exact absurd hfor.1 hother

end Session.Keeps

namespace World

variable {client : Client κ ν} {w w' : World κ ν}

/-- Every session keeps its snapshots up to date. -/
def Captured (w : World κ ν) : Prop :=
  ∀ (s : SessionId) (session : Session κ), w.sessions[s]? = some session →
    session.Keeps s w.completions

/-- The sessions stay as they are. -/
theorem Captured.frame (h : Captured w) (hsessions : w'.sessions = w.sessions)
    (hkeeps : ∀ (s : SessionId) (session : Session κ), session.Keeps s w.completions →
      session.Keeps s w'.completions) : Captured w' := by
  intro s session hs
  rw [hsessions] at hs
  exact hkeeps s session (h s session hs)

/-- One session changes. -/
theorem Captured.change (h : Captured w) {s : SessionId} {f : Session κ → Session κ}
    (hsessions : w'.sessions = (w.changeSession s f).sessions)
    (hothers : ∀ (t : SessionId) (session : Session κ), s ≠ t → session.Keeps t w.completions →
      session.Keeps t w'.completions)
    (hf : ∀ session, w.sessions[s]? = some session → session.Keeps s w.completions →
      (f session).Keeps s w'.completions) : Captured w' := by
  intro t session ht
  rw [hsessions, getElem?_sessions_changeSession] at ht
  obtain ⟨session₀, ht₀, rfl⟩ := Option.map_eq_some_iff.1 ht
  by_cases hst : s = t
  · subst hst
    rw [if_pos rfl]
    exact hf session₀ ht₀ (h s session₀ ht₀)
  · rw [if_neg hst]
    exact hothers t session₀ hst (h t session₀ ht₀)

/-- Text is put in for a completion: no other one of the request is open. -/
theorem Captured.insert (h : Captured w) (howned : Owned w) {k : CompletionId}
    {completion : Completion} {c : ConnectionId} {entry : Entry κ} (line : Line)
    (hk : w.completions[k]? = some completion) (hpending : completion.status = .pending)
    (hwait : w.waiting? completion = some (c, entry))
    (hsessions : w'.sessions = (w.changeSession completion.session
      ({ · with phase := .completing { entry with line } })).sessions)
    (hcompletions : w'.completions = w.completions.modify k ({ · with status := .inlining })) :
    Captured w' := by
  have hmove : completion.status.Leads .inlining := by
    rw [hpending]
    trivial
  obtain ⟨session, hs, -, hphase, hid⟩ := waiting?_eq_some_iff.1 hwait
  refine h.change hsessions (fun t other _ hkeeps => ?_) fun session' hs' hkeeps => ?_
  · rw [hcompletions]
    exact hkeeps.setStatus hk hmove
  · obtain rfl := Option.some.inj (hs.symm.trans hs')
    rw [hcompletions]
    refine ⟨fun entry' hentry => ?_, fun entry' hentry j other hj hfor hintact => ?_⟩
    · cases hentry
      exact (hkeeps.inStep entry (by rw [hphase]; rfl)).line line
    · -- another completion of the request that is open would be the one that was waited for
      cases hentry
      exfalso
      rw [List.getElem?_modify] at hj
      obtain ⟨before, hbefore, rfl⟩ := Option.map_eq_some_iff.1 hj
      by_cases hkj : k = j
      · rw [if_pos hkj] at hintact
        exact hintact
      · rw [if_neg hkj] at hfor hintact
        have hstage : session.phase.stage = .completing entry.id := by
          rw [hphase, Phase.stage_completing]
        have hopen : completion.status ≠ .completed := by
          rw [hpending]
          exact nofun
        exact hkj ((howned _ session hs).eq_of_open hstage hk ⟨rfl, hid.symm⟩ hopen hbefore hfor
          hintact.ne_completed).symm

/-- A completion is begun: its snapshot is the only one that matters. -/
theorem Captured.ask (h : Captured w) (howned : Owned w) {s : SessionId} {session : Session κ}
    {entry : Entry κ} {c : ConnectionId} {event : KeyEvent} {decoder : Keys.Decoder}
    {handled : Handled κ} {handler : κ} {snapshot : Snapshot} {completion : Completion}
    (hh : w.Handles s session entry c event decoder)
    (hhandled : entry.handle session.functions session.history session.continuation event =
      handled)
    (hasked : handled.outcome = .asked handler snapshot)
    (hcompletion : completion =
      { session := s, entryId := entry.id, snapshot, size? := session.size? })
    (hsessions : w'.sessions =
      (w.afterEvent s c handled decoder (.completing handled.entry)).sessions)
    (hcompletions : w'.completions = w.completions ++ [completion]) : Captured w' := by
  obtain ⟨hentry, -, rfl⟩ := Entry.handle_asked hhandled hasked
  rw [afterEvent_sessions, hentry] at hsessions
  refine h.change hsessions (fun t other hst hkeeps => ?_) fun session' hs hkeeps => ?_
  · rw [hcompletions]
    exact hkeeps.append (by rw [hcompletion]; exact hst)
  · obtain rfl := Option.some.inj (hh.lookup.symm.trans hs)
    rw [hcompletions]
    refine ⟨fun entry' hentry' => ?_, fun entry' hentry' j other hj hfor hintact => ?_⟩
    · cases hentry'
      exact hkeeps.inStep entry (by rw [hh.phase]; rfl)
    · cases hentry'
      obtain ⟨-, hj⟩ | ⟨-, rfl⟩ := lt_or_eq_of_getElem?_concat hj
      · -- those before it were over while the request was edited
        have hstage : session.phase.stage = .editing entry.id := by
          rw [hh.phase, Phase.stage_editing]
        exact absurd ((howned s session hs).editing _ hstage j other hj hfor) hintact.ne_completed
      · rw [hcompletion]

/-- **Step lemma.** Every turn keeps the snapshots up to date. -/
theorem Turn.captured {job : Job κ ν} (hturn : Turn client w job w') (howned : Owned w)
    (h : Captured w) : Captured w' := by
  -- a session changes, but not the completions
  have hchange : ∀ {v : World κ ν} {s : SessionId} {f : Session κ → Session κ},
      v.sessions = (w.changeSession s f).sessions → v.completions = w.completions →
        (∀ session, w.sessions[s]? = some session → session.Keeps s w.completions →
          (f session).Keeps s w.completions) → Captured v := by
    intro v s f hsessions hcompletions hf
    refine h.change hsessions (fun t session _ => ?_) ?_
    · rw [hcompletions]
      exact id
    · rwa [hcompletions]
  cases hturn with
  | rest | answer | aside | write | listen | schedule | deliver | runTasks | stop | tasksOver
  | nextTask => exact h.frame (by simp) fun s session => by simp
  | adjust call next a s hf =>
    exact hchange rfl rfl fun session _ hkeeps => hkeeps.congr (hf.phase session)
  | resize | type | forward | install => exact hchange rfl rfl fun _ _ hkeeps => hkeeps.congr rfl
  | uninstall => exact hchange rfl rfl fun _ _ _ => .idle rfl
  | request s r next =>
    refine hchange (by simp only [reply_sessions, schedule_sessions, write_sessions]; rfl)
      (by simp) fun session _ _ => ?_
    exact .editing rfl (Entry.inStep_fresh session.nextId r)
  | move call next a k status hk hmove =>
    exact h.frame rfl fun _ _ hkeeps => hkeeps.setStatus hk hmove
  | suggest k? text next hk? hk hstatus =>
    refine h.frame (by simp) fun _ _ hkeeps => ?_
    rw [reply_completions, write_completions]
    refine hkeeps.setStatus hk ?_
    rcases hstatus with hstatus | hstatus <;> rw [hstatus] <;> trivial
  | insert k? text terminal next hk? hk hpending hwait hline =>
    rename_i line
    refine h.insert howned line hk hpending hwait ?_ ?_
    · simp only [reply_sessions, write_sessions]
      rfl
    · simp only [reply_completions, write_completions]
      rfl
  | resume k? next hk? hk hopen hs hphase hid hc =>
    refine h.change (by
      simp only [reply_sessions, schedule_sessions, changeSession, write_sessions,
        setStatus_sessions]
      rfl) (fun t session _ hkeeps => ?_) fun session hs' hkeeps => ?_
    · simp only [reply_completions, schedule_completions, changeSession_completions,
        write_completions]
      exact hkeeps.setStatus hk (Status.leads_completed hopen)
    · obtain rfl := Option.some.inj (hs.symm.trans hs')
      exact .editing rfl (hkeeps.inStep _ (by rw [hphase]; rfl))
  | edit s hh hhandled hgoes =>
    refine hchange (afterEvent_sessions ..) (afterEvent_completions ..) fun session hs hkeeps => ?_
    obtain rfl := Option.some.inj (hh.lookup.symm.trans hs)
    subst hhandled
    exact .editing rfl ((hkeeps.inStep _ (by rw [hh.phase]; rfl)).handle ..)
  | submit s hh hhandled hsubmitted =>
    refine hchange (by simp only [push_sessions, log_sessions, afterEvent_sessions]; rfl)
      (by simp) fun _ _ _ => .idle rfl
  | ask s hh hhandled hasked hcompletion =>
    exact h.ask howned hh hhandled hasked hcompletion rfl rfl

theorem Pristine.captured (h : Pristine w) : Captured w := by
  intro s session hs
  exact .idle (h.idle session (List.mem_of_getElem? hs)).2

/-- **Run lemma.** In every reachable world the snapshots are up to date. -/
theorem Reachable.captured (h : Reachable w) : Captured w := by
  refine (h.induction (P := fun w => Owned w ∧ Captured w) (fun v hv => ⟨hv.owned, hv.captured⟩)
    (fun _ _ => id) fun client v job rest v' _ hturn hv => ?_).2
  exact ⟨hturn.owned hv.1, hturn.captured hv.1 hv.2⟩

/-- What a pending completion of a waiting request was asked for is what has been entered. -/
theorem Reachable.snapshot_eq (h : Reachable w) {k : CompletionId} {completion : Completion}
    {session : Session κ} {entry : Entry κ} (hk : w.completions[k]? = some completion)
    (hpending : completion.status = .pending)
    (hs : w.sessions[completion.session]? = some session)
    (hphase : session.phase = .completing entry) (hid : entry.id = completion.entryId) :
    completion.snapshot = entry.snapshot := by
  refine (h.captured _ session hs).snapshot entry hphase k completion hk ⟨rfl, hid.symm⟩ ?_
  rw [hpending]
  trivial

end World

end LineEditor
