import LineEditor.Proofs.Session.Entering
import LineEditor.Proofs.Session.Reachable

/-!
# Who owns a completion

A completion names the request that it was begun for, and nothing else: one request can have many
completions over its life, one for each Tab key. That the number of the request is enough to tell
an old completion from the one that is waited for is an invariant of all worlds. For each session,
`Session.Fits` says how what it is doing fits with the completions that were begun for it:

* while a request is edited, all its completions are over;
* while a request waits, the latest completion of the session is its only one that is not over;
* the numbers of requests, live or past, lie below the number of the next.

`Turn.owned` is the step lemma and `Reachable.owned` the run lemma. `Reachable.ownership` draws the
consequences: calls on any completion but the latest of a waiting session touch no session, no
connection and no output, and a session that edits an entry always handles the next event.
-/

namespace LineEditor

variable {κ ν : Type}

/-- What a session is doing, and for which request. -/
inductive Stage where
  | idle
  | editing (id : Nat)
  | completing (id : Nat)
  deriving DecidableEq, Repr

/-- The number of the live request. -/
def Stage.id? : Stage → Option Nat
  | .idle => none
  | .editing id | .completing id => some id

/-- What a session in a phase is doing. -/
def Phase.stage : Phase κ → Stage
  | .idle => .idle
  | .editing entry => .editing entry.id
  | .completing entry => .completing entry.id

@[simp] theorem Phase.stage_idle : (.idle : Phase κ).stage = .idle := rfl
@[simp] theorem Phase.stage_editing (e : Entry κ) : (Phase.editing e).stage = .editing e.id := rfl
@[simp]
theorem Phase.stage_completing (e : Entry κ) : (Phase.completing e).stage = .completing e.id := rfl

theorem Phase.stage_eq_idle {phase : Phase κ} : phase.stage = .idle ↔ phase = .idle := by
  cases phase <;> simp

/-- A completion was begun for a request of a session. -/
def Completion.IsFor (completion : Completion) (s : SessionId) (id : Nat) : Prop :=
  completion.session = s ∧ completion.entryId = id

/-- How a session fits with the completions, of which some were begun for it. -/
structure Session.Fits (session : Session κ) (s : SessionId) (completions : List Completion) :
    Prop where
  connected : session.phase.stage ≠ .idle → session.connection? ≠ none
  live_lt : ∀ id, session.phase.stage.id? = some id → id < session.nextId
  past_lt : ∀ (k : CompletionId) (completion : Completion),
    completions[k]? = some completion → completion.session = s →
      completion.entryId < session.nextId
  editing : ∀ id, session.phase.stage = .editing id →
    ∀ (k : CompletionId) (completion : Completion), completions[k]? = some completion →
      completion.IsFor s id → completion.status = .completed
  completing : ∀ id, session.phase.stage = .completing id →
    ∃ (k : CompletionId) (completion : Completion), completions[k]? = some completion ∧
      completion.IsFor s id ∧ completion.status ≠ .completed ∧
        ∀ (j : CompletionId) (other : Completion), completions[j]? = some other →
          other.session = s → j ≤ k ∧ (j ≠ k → other.IsFor s id → other.status = .completed)

namespace Session.Fits

variable {session session' : Session κ} {s : SessionId} {completions : List Completion}

/-- Fitting depends on the connection, the stage and the next number only. -/
theorem congr (h : session.Fits s completions)
    (hconnection : session'.connection? = session.connection?)
    (hstage : session'.phase.stage = session.phase.stage)
    (hnext : session'.nextId = session.nextId) : session'.Fits s completions := by
  obtain ⟨h1, h2, h3, h4, h5⟩ := h
  constructor
  · rwa [hstage, hconnection]
  · rwa [hstage, hnext]
  · rwa [hnext]
  · rwa [hstage]
  · rwa [hstage]

/-- A session that becomes idle fits. -/
theorem idle (h : session.Fits s completions) (hstage : session'.phase.stage = .idle)
    (hnext : session'.nextId = session.nextId) : session'.Fits s completions := by
  constructor
  · exact fun hne => absurd hstage hne
  · simp [hstage, Stage.id?]
  · rw [hnext]
    exact h.past_lt
  · simp [hstage]
  · simp [hstage]

/-- A session that is on no connection is idle. -/
theorem stage_eq_idle (h : session.Fits s completions) (hfree : session.connection? = none) :
    session.phase.stage = .idle := by
  by_contra hne
  exact h.connected hne hfree

/-- A new request gets a number that no completion knows. -/
theorem request (h : session.Fits s completions)
    (hconnection : session'.connection? ≠ none)
    (hstage : session'.phase.stage = .editing session.nextId)
    (hnext : session'.nextId = session.nextId + 1) : session'.Fits s completions := by
  constructor
  · exact fun _ => hconnection
  · intro id hid
    rw [hstage] at hid
    cases hid
    omega
  · intro k completion hk hs
    have := h.past_lt k completion hk hs
    omega
  · intro id hid k completion hk hfor
    rw [hstage] at hid
    cases hid
    exact absurd (h.past_lt k completion hk hfor.1) (by rw [hfor.2]; omega)
  · simp [hstage]

/-- The completion that is not over, while a request waits. -/
theorem eq_of_open (h : session.Fits s completions) {id k k' : Nat} {completion other : Completion}
    (hstage : session.phase.stage = .completing id)
    (hk : completions[k]? = some completion) (hfor : completion.IsFor s id)
    (hopen : completion.status ≠ .completed)
    (hk' : completions[k']? = some other) (hfor' : other.IsFor s id)
    (hopen' : other.status ≠ .completed) : k' = k := by
  obtain ⟨l, awaited, -, -, -, hlatest⟩ := h.completing id hstage
  have hl : ∀ {j : Nat} {c : Completion}, completions[j]? = some c → c.IsFor s id →
      c.status ≠ .completed → j = l := by
    intro j c hj hjfor hjopen
    by_contra hne
    exact hjopen ((hlatest j c hj hjfor.1).2 hne hjfor)
  rw [hl hk hfor hopen, hl hk' hfor' hopen']

/-- The completions after the status of one of them has moved, when that is not the end of the one
that is waited for. -/
theorem setStatus (h : session.Fits s completions) {k : CompletionId} {completion : Completion}
    {status : Status} (hk : completions[k]? = some completion)
    (hmove : completion.status.Leads status)
    (hwait : status = .completed → session.phase.stage = .completing completion.entryId →
      completion.session ≠ s) :
    session.Fits s (completions.modify k ({ · with status })) := by
  have hopen : completion.status ≠ .completed := fun h => by
    rw [h] at hmove
    cases status <;> simp [Status.Leads] at hmove
  -- what is found after the move was there before it, and only the status of `k` differs
  have hback : ∀ {j : CompletionId} {c : Completion},
      (completions.modify k ({ · with status }))[j]? = some c →
        ∃ c₀, completions[j]? = some c₀ ∧ c.session = c₀.session ∧ c.entryId = c₀.entryId ∧
          (j ≠ k → c.status = c₀.status) ∧ (j = k → c.status = status) := by
    intro j c hj
    rw [List.getElem?_modify] at hj
    obtain ⟨c₀, hc₀, rfl⟩ := Option.map_eq_some_iff.1 hj
    refine ⟨c₀, hc₀, ?_⟩
    by_cases hjk : k = j
    · subst hjk
      simp
    · simp [hjk, Ne.symm hjk]
  constructor
  · exact h.connected
  · exact h.live_lt
  · intro j c hj hs
    obtain ⟨c₀, hc₀, hsession, hid, -⟩ := hback hj
    rw [hid]
    exact h.past_lt j c₀ hc₀ (hsession ▸ hs)
  · intro id hstage j c hj hfor
    obtain ⟨c₀, hc₀, hsession, hid, hother, -⟩ := hback hj
    have hfor₀ : c₀.IsFor s id := ⟨hsession ▸ hfor.1, hid ▸ hfor.2⟩
    have hover := h.editing id hstage j c₀ hc₀ hfor₀
    have hne : j ≠ k := by
      rintro rfl
      rw [hk] at hc₀
      cases hc₀
      exact hopen hover
    rw [hother hne, hover]
  · intro id hstage
    obtain ⟨l, awaited, hl, hfor, hawaited, hlatest⟩ := h.completing id hstage
    refine ⟨l, if k = l then { awaited with status } else awaited, ?_, ?_, ?_, ?_⟩
    · rw [List.getElem?_modify, hl]
      rfl
    · split <;> exact hfor
    · split
      · rename_i hkl
        subst hkl
        rw [hk] at hl
        cases hl
        exact fun hcompleted => hwait hcompleted (hfor.2 ▸ hstage) hfor.1
      · exact hawaited
    · intro j c hj hs
      obtain ⟨c₀, hc₀, hsession, hid, hother, hself⟩ := hback hj
      obtain ⟨hle, hover⟩ := hlatest j c₀ hc₀ (hsession ▸ hs)
      refine ⟨hle, fun hjl hfor' => ?_⟩
      have hover := hover hjl ⟨hsession ▸ hfor'.1, hid ▸ hfor'.2⟩
      have hne : j ≠ k := by
        rintro rfl
        rw [hk] at hc₀
        cases hc₀
        exact hopen hover
      rw [hother hne, hover]

/-- A request is edited again once its completion is over. -/
theorem resume (h : session.Fits s completions) {k : CompletionId} {completion : Completion}
    (hk : completions[k]? = some completion) (hopen : completion.status ≠ .completed)
    (hs : completion.session = s) (hwait : session.phase.stage = .completing completion.entryId)
    (hconnection : session'.connection? = session.connection?)
    (hstage : session'.phase.stage = .editing completion.entryId)
    (hnext : session'.nextId = session.nextId) :
    session'.Fits s (completions.modify k ({ · with status := .completed })) := by
  have hfor : completion.IsFor s completion.entryId := ⟨hs, rfl⟩
  constructor
  · rw [hconnection]
    exact fun _ => h.connected (by simp [hwait])
  · rw [hstage, hnext]
    intro id hid
    exact h.live_lt id (by rw [hwait]; exact hid)
  · intro j c hj hc
    rw [List.getElem?_modify] at hj
    obtain ⟨c₀, hc₀, rfl⟩ := Option.map_eq_some_iff.1 hj
    rw [hnext]
    have := h.past_lt j c₀ hc₀ (by split at hc <;> exact hc)
    split <;> exact this
  · intro id hid j c hj hjfor
    rw [hstage] at hid
    cases hid
    rw [List.getElem?_modify] at hj
    obtain ⟨c₀, hc₀, rfl⟩ := Option.map_eq_some_iff.1 hj
    split
    · rfl
    · -- another one that is open would be the one that was waited for
      rename_i hne
      by_contra hc₀open
      rw [if_neg hne] at hjfor
      exact hne (h.eq_of_open hwait hk hfor hopen hc₀ hjfor hc₀open).symm
  · simp [hstage]

/-- A completion that is begun is the latest of its session, and is waited for. -/
theorem ask (h : session.Fits s completions) {id : Nat} {completion : Completion}
    (hediting : session.phase.stage = .editing id) (hfor : completion.IsFor s id)
    (hpending : completion.status ≠ .completed)
    (hconnection : session'.connection? = session.connection?)
    (hstage : session'.phase.stage = .completing id) (hnext : session'.nextId = session.nextId) :
    session'.Fits s (completions ++ [completion]) := by
  have hlt : id < session.nextId := h.live_lt id (by simp [hediting, Stage.id?])
  constructor
  · rw [hconnection]
    exact fun _ => h.connected (by simp [hediting])
  · intro id' hid'
    rw [hstage] at hid'
    cases hid'
    rwa [hnext]
  · intro j c hj hs
    rw [hnext]
    obtain ⟨-, hj⟩ | ⟨-, rfl⟩ := lt_or_eq_of_getElem?_concat hj
    · exact h.past_lt j c hj hs
    · rwa [hfor.2]
  · simp [hstage]
  · intro id' hid'
    rw [hstage] at hid'
    cases hid'
    refine ⟨completions.length, completion, by simp, hfor, hpending, fun j c hj hs => ?_⟩
    -- those before it were over while the request was edited
    obtain ⟨hlt, hj⟩ | ⟨rfl, rfl⟩ := lt_or_eq_of_getElem?_concat hj
    · exact ⟨Nat.le_of_lt hlt, fun _ hfor' => h.editing id hediting j c hj hfor'⟩
    · exact ⟨Nat.le_refl _, fun hne => absurd rfl hne⟩

/-- A completion that is begun for another session does not matter. -/
theorem append (h : session.Fits s completions) {completion : Completion}
    (hother : completion.session ≠ s) : session.Fits s (completions ++ [completion]) := by
  have hback : ∀ {j : CompletionId} {c : Completion},
      (completions ++ [completion])[j]? = some c → c.session = s → completions[j]? = some c := by
    intro j c hj hs
    obtain ⟨-, hj⟩ | ⟨-, rfl⟩ := lt_or_eq_of_getElem?_concat hj
    · exact hj
    · exact absurd hs hother
  constructor
  · exact h.connected
  · exact h.live_lt
  · exact fun j c hj hs => h.past_lt j c (hback hj hs) hs
  · exact fun id hstage j c hj hfor => h.editing id hstage j c (hback hj hfor.1) hfor
  · intro id hstage
    obtain ⟨l, awaited, hl, hfor, hawaited, hlatest⟩ := h.completing id hstage
    refine ⟨l, awaited, ?_, hfor, hawaited, fun j c hj hs => hlatest j c (hback hj hs) hs⟩
    rw [List.getElem?_append_left (List.getElem?_eq_some_iff.1 hl).1, hl]

end Session.Fits

/-! ### All sessions at once -/

namespace World

variable {client : Client κ ν} {w w' : World κ ν}

/-- Every session fits with the completions. -/
def Owned (w : World κ ν) : Prop :=
  ∀ (s : SessionId) (session : Session κ), w.sessions[s]? = some session →
    session.Fits s w.completions

section Frame

variable (w) (c : ConnectionId) (text : List Char)

@[simp] theorem owned_push (job : Job κ ν) : Owned (w.push job) ↔ Owned w := Iff.rfl

@[simp]
theorem owned_reply (next : Answer → Program κ ν) (a : Answer) :
    Owned (w.reply next a) ↔ Owned w := Iff.rfl

@[simp] theorem owned_log (o : Occurrence ν) : Owned (w.log o) ↔ Owned w := Iff.rfl

@[simp]
theorem owned_changeConnection (g : Connection → Connection) :
    Owned (w.changeConnection c g) ↔ Owned w := Iff.rfl

@[simp]
theorem owned_write : Owned (w.write c text) ↔ Owned w := by
  simp only [Owned, write_sessions, write_completions]

@[simp]
theorem owned_schedule (s : SessionId) : Owned (w.schedule s) ↔ Owned w := by
  simp only [Owned, schedule_sessions, schedule_completions]

@[simp]
theorem owned_afterEvent (s : SessionId) (handled : Handled κ) (decoder : Keys.Decoder)
    (phase : Phase κ) :
    Owned (w.afterEvent s c handled decoder phase) ↔
      Owned (w.changeSession s ({ · with phase, decoder, history := handled.history })) := by
  simp only [afterEvent, owned_push, owned_write]

end Frame

/-- A change of one session. -/
theorem Owned.changeSession (h : Owned w) {s : SessionId} {f : Session κ → Session κ}
    (hf : ∀ session, w.sessions[s]? = some session → session.Fits s w.completions →
      (f session).Fits s w.completions) : Owned (w.changeSession s f) := by
  intro t session ht
  rw [getElem?_sessions_changeSession] at ht
  obtain ⟨session₀, ht₀, rfl⟩ := Option.map_eq_some_iff.1 ht
  by_cases hst : s = t
  · subst hst
    simpa using hf session₀ ht₀ (h s session₀ ht₀)
  · simpa [hst] using h t session₀ ht₀

/-- A completion that nobody waits for is not the one that a session waits for. -/
theorem Owned.ne_of_waiting?_eq_none (h : Owned w) {completion : Completion}
    (hwait : w.waiting? completion = none) {s : SessionId} {session : Session κ}
    (hs : w.sessions[s]? = some session)
    (hstage : session.phase.stage = .completing completion.entryId) :
    completion.session ≠ s := by
  rintro rfl
  obtain ⟨c, hc⟩ := Option.ne_none_iff_exists'.1
    ((h _ session hs).connected (by simp [hstage]))
  cases hphase : session.phase with
  | idle | editing e => simp [hphase] at hstage
  | completing e =>
    have hid : e.id = completion.entryId := by simpa [hphase] using hstage
    have := waiting?_eq_some_iff.2 ⟨session, hs, hc, hphase, hid⟩
    simp [hwait] at this

/-- A move of a status, when that is not the end of a completion that is waited for. -/
theorem Owned.setStatus (h : Owned w) {k : CompletionId} {completion : Completion}
    {status : Status} (hk : w.completions[k]? = some completion)
    (hmove : completion.status.Leads status)
    (hwait : status ≠ .completed ∨ w.waiting? completion = none) :
    Owned (w.setStatus k status) := by
  intro s session hs
  refine (h s session hs).setStatus hk hmove fun hover hstage => ?_
  -- only the end could leave a session waiting for nothing, and nobody waits for this one
  rcases hwait with hne | hwait
  · exact absurd hover hne
  · exact h.ne_of_waiting?_eq_none hwait hs hstage

/-- The end of a completion that is waited for. -/
theorem Owned.resume (h : Owned w) {k : CompletionId} {completion : Completion}
    {session : Session κ} {entry : Entry κ} (hk : w.completions[k]? = some completion)
    (hopen : completion.status ≠ .completed) (hs : w.sessions[completion.session]? = some session)
    (hphase : session.phase = .completing entry) (hid : entry.id = completion.entryId)
    (c : ConnectionId) (text : List Char) :
    Owned (((w.setStatus k .completed).write c text).changeSession completion.session
      ({ · with phase := .editing entry })) := by
  intro t session₁ ht
  rw [getElem?_sessions_changeSession, write_sessions, setStatus_sessions] at ht
  obtain ⟨session₀, ht₀, rfl⟩ := Option.map_eq_some_iff.1 ht
  simp only [changeSession_completions, write_completions]
  have hstage : session.phase.stage = .completing completion.entryId := by simp [hphase, hid]
  by_cases hst : completion.session = t
  · subst hst
    rw [hs] at ht₀
    cases ht₀
    rw [if_pos rfl]
    exact (h _ session hs).resume hk hopen rfl hstage rfl (by simp [hid]) rfl
  · rw [if_neg hst]
    exact (h t session₀ ht₀).setStatus hk (Status.leads_completed hopen) fun _ _ => hst

section Widths

variable [Text.Widths]

/-- The beginning of a completion. -/
theorem Owned.ask (h : Owned w) {s : SessionId} {session : Session κ} {entry : Entry κ}
    {c : ConnectionId} {event : KeyEvent} {decoder : Keys.Decoder} {handled : Handled κ}
    {snapshot : Snapshot} {completion : Completion}
    (hh : w.Handles s session entry c event decoder)
    (hhandled : entry.handle session.functions session.history session.continuation event =
      handled)
    (hcompletion : completion =
      { session := s, entryId := entry.id, snapshot, size? := session.size? }) :
    Owned { w.afterEvent s c handled decoder (.completing handled.entry) with
      completions := w.completions ++ [completion] } := by
  intro t session₁ ht
  simp only [afterEvent_sessions, getElem?_sessions_changeSession] at ht
  obtain ⟨session₀, ht₀, rfl⟩ := Option.map_eq_some_iff.1 ht
  by_cases hst : s = t
  · subst hst
    rw [hh.lookup] at ht₀
    cases ht₀
    rw [if_pos rfl]
    have hstage : session.phase.stage = .editing entry.id := by rw [hh.phase, Phase.stage_editing]
    refine (h s session hh.lookup).ask hstage ?_ ?_ rfl ?_ rfl
    · rw [hcompletion]
      exact ⟨rfl, rfl⟩
    · rw [hcompletion]
      exact nofun
    · rw [← hhandled]
      exact congrArg Stage.completing (Entry.id_handle ..)
  · rw [if_neg hst]
    exact (h t session₀ ht₀).append (by rw [hcompletion]; exact hst)

/-- **Step lemma.** Every turn keeps the fit. -/
theorem Turn.owned {job : Job κ ν} (hturn : Turn client w job w') (h : Owned w) : Owned w' := by
  cases hturn with
  | rest | answer | aside | write | listen | schedule | deliver | runTasks | stop | tasksOver
  | nextTask => simpa using h
  | adjust call next a s hf =>
    refine (owned_reply ..).2 <| h.changeSession fun session _ hfits => ?_
    exact hfits.congr (hf.connection session) (by rw [hf.phase session]) (hf.nextId session)
  | resize c size next s handler =>
    simp only [owned_push, owned_log, owned_reply]
    exact h.changeSession fun _ _ hfits => hfits.congr rfl rfl rfl
  | type c text next s =>
    simp only [owned_push, owned_reply]
    exact h.changeSession fun _ _ hfits => hfits.congr rfl rfl rfl
  | forward s =>
    simp only [owned_push, owned_log]
    exact h.changeSession fun _ _ hfits => hfits.congr rfl rfl rfl
  | install s c next hs hfree hc =>
    simp only [owned_reply, owned_changeConnection]
    refine h.changeSession fun session hs' hfits => hfits.idle ?_ rfl
    rw [hs] at hs'
    cases hs'
    exact hfits.stage_eq_idle hfree
  | uninstall s next hs hc =>
    rw [owned_reply]
    refine Owned.changeSession ((owned_changeConnection ..).2 h) fun session _ hfits => ?_
    exact hfits.idle rfl rfl
  | request s r next hs hc hidle =>
    simp only [owned_reply, owned_schedule, owned_write]
    refine h.changeSession fun session hs' hfits => ?_
    rw [hs] at hs'
    cases hs'
    exact hfits.request (by simp [hc]) rfl rfl
  | move call next a k status hk hmove hwait =>
    refine (owned_reply ..).2 <| h.setStatus hk hmove (hwait.imp ?_ id)
    rintro rfl
    exact nofun
  | insert k? text terminal next hk? hk hpending hwait hline =>
    rename_i completion _ _ _
    simp only [owned_reply, owned_write]
    have hmove : completion.status.Leads .inlining := by rw [hpending]; trivial
    refine (h.setStatus hk hmove (.inl nofun)).changeSession fun session hs hfits => ?_
    obtain ⟨session', hs', hc, hphase, hid⟩ := waiting?_eq_some_iff.1 hwait
    rw [setStatus_sessions, hs'] at hs
    cases hs
    exact hfits.congr rfl (by simp [hphase]) rfl
  | suggest k? text next hk? hk hstatus hwait =>
    simp only [owned_reply, owned_write]
    refine h.setStatus hk ?_ (.inl nofun)
    rcases hstatus with hstatus | hstatus <;> rw [hstatus] <;> trivial
  | resume k? next hk? hk hopen hs hphase hid hc =>
    simp only [owned_reply, owned_schedule]
    exact h.resume hk hopen hs hphase hid _ _
  | edit s hh hhandled hgoes =>
    rw [owned_afterEvent]
    refine h.changeSession fun session hs hfits => ?_
    rw [hh.lookup] at hs
    cases hs
    refine hfits.congr rfl ?_ rfl
    rw [hh.phase, ← hhandled]
    exact congrArg Stage.editing (Entry.id_handle ..)
  | submit s hh hhandled hsubmitted =>
    simp only [owned_push, owned_log, owned_afterEvent]
    exact h.changeSession fun session hs hfits => hfits.idle rfl rfl
  | ask s hh hhandled hasked hcompletion =>
    simp only [owned_push, owned_log]
    exact h.ask hh hhandled hcompletion

omit [Text.Widths] in
theorem Pristine.owned (h : Pristine w) : Owned w := by
  intro s session hs
  obtain ⟨-, hidle⟩ := h.idle session (List.mem_of_getElem? hs)
  constructor <;> simp [hidle, h.completions, Stage.id?]

/-- **Run lemma.** In every reachable world every session fits with the completions. -/
theorem Reachable.owned (h : Reachable w) : Owned w :=
  h.induction (fun _ => Pristine.owned) (fun _ _ => id) fun _ _ _ _ _ _ => Turn.owned

/-! ### Numbers of requests -/

/-- The number of the request that is live in a session. -/
def liveId? (w : World κ ν) (s : SessionId) : Option Nat :=
  w.sessions[s]?.bind (·.phase.stage.id?)

/-- The next number of session `s` is `n` or above. -/
private def NextFrom (n : Nat) (s : SessionId) (w : World κ ν) : Prop :=
  ∃ session, w.sessions[s]? = some session ∧ n ≤ session.nextId

omit [Text.Widths] in
private theorem NextFrom.changeSession {n : Nat} {s t : SessionId} {f : Session κ → Session κ}
    (hf : ∀ session, session.nextId ≤ (f session).nextId) (h : NextFrom n s w) :
    NextFrom n s (w.changeSession t f) := by
  obtain ⟨session, hs, hn⟩ := h
  refine ⟨if t = s then f session else session, ?_, ?_⟩
  · rw [getElem?_sessions_changeSession, hs]
    rfl
  · split
    · exact Nat.le_trans hn (hf session)
    · exact hn

private theorem Turn.nextFrom {n : Nat} {s : SessionId} {job : Job κ ν}
    (hturn : Turn client w job w') (h : NextFrom n s w) : NextFrom n s w' := by
  have hsame : ∀ {v : World κ ν}, v.sessions = w.sessions → NextFrom n s v := by
    intro v hv
    unfold NextFrom
    rwa [hv]
  have hchange : ∀ {v : World κ ν} {t : SessionId} {f : Session κ → Session κ},
      v.sessions = (w.changeSession t f).sessions →
        (∀ session, session.nextId ≤ (f session).nextId) → NextFrom n s v := by
    intro v t f hv hf
    unfold NextFrom
    rw [hv]
    exact h.changeSession hf
  cases hturn with
  | rest | answer | aside | write | listen | schedule | deliver | runTasks | stop | tasksOver
  | nextTask | move | suggest => exact hsame (by simp)
  | adjust _ _ _ _ hf =>
    exact hchange rfl fun session => Nat.le_of_eq (hf.nextId session).symm
  | resize | type | install | uninstall | forward =>
    refine hchange rfl ?_
    exact fun _ => Nat.le_refl _
  | request =>
    refine hchange (by simp only [reply_sessions, schedule_sessions, write_sessions]; rfl) ?_
    exact fun _ => Nat.le_succ _
  | insert =>
    refine hchange (by simp only [reply_sessions, write_sessions]; rfl) ?_
    exact fun _ => Nat.le_refl _
  | resume =>
    refine hchange (by
      simp only [reply_sessions, schedule_sessions, changeSession, write_sessions,
        setStatus_sessions]
      rfl) ?_
    exact fun _ => Nat.le_refl _
  | edit | submit | ask =>
    refine hchange (by simp only [push_sessions, log_sessions, afterEvent_sessions]; rfl) ?_
    exact fun _ => Nat.le_refl _

omit [Text.Widths] in
/-- A request that is accepted has the next number of its session. -/
private theorem exists_of_request_eq_ok {s : SessionId} {r : Request κ}
    (h : w.request s r = (w', .ok ())) :
    ∃ session, w.sessions[s]? = some session ∧ w'.liveId? s = some session.nextId ∧
      NextFrom (session.nextId + 1) s w' := by
  unfold request at h
  split at h
  · cases h
  · rename_i session hs
    split at h
    · cases h
    · split at h
      · cases h
        refine ⟨session, hs, ?_, ?_⟩
        · simp [liveId?, getElem?_sessions_changeSession, hs, Stage.id?]
        · simp [NextFrom, getElem?_sessions_changeSession, hs]
      · cases h

/-- Requests of one session that are accepted one after the other have ascending numbers. -/
theorem liveId?_lt_of_request {w₁ w₂ w₃ : World κ ν} {s : SessionId} {r r' : Request κ}
    {agenda : List (Job κ ν)} (h₁ : w.request s r = (w₁, .ok ())) (hrun : Run w₁ w₂)
    (h₃ : ({ w₂ with agenda } : World κ ν).request s r' = (w₃, .ok ())) :
    ∃ i j, w₁.liveId? s = some i ∧ w₃.liveId? s = some j ∧ i < j := by
  obtain ⟨session, -, hi, hnext⟩ := exists_of_request_eq_ok h₁
  obtain ⟨session₂, hs₂, hj, -⟩ := exists_of_request_eq_ok h₃
  obtain ⟨session', hs', hlt⟩ := hrun.induction (P := NextFrom (session.nextId + 1) s)
    (fun _ _ => id) (fun _ _ _ _ _ _ => Turn.nextFrom) hnext
  rw [hs₂] at hs'
  cases hs'
  exact ⟨_, _, hi, hj, hlt⟩

/-! ### What follows -/

/-- A session waits for a completion: its request waits, and no Tab key has come after the one that
the completion was begun for. -/
structure Awaits (w : World κ ν) (k : CompletionId) (completion : Completion) : Prop where
  waits : ∃ session, w.sessions[completion.session]? = some session ∧
    session.phase.stage = .completing completion.entryId
  latest : ∀ (j : CompletionId) (other : Completion), w.completions[j]? = some other →
    other.session = completion.session → j ≤ k

/-- Nothing that a session, a connection, client code or a user can see has changed. -/
structure Untouched (w w' : World κ ν) : Prop where
  sessions : w'.sessions = w.sessions
  connections : w'.connections = w.connections
  agenda : w'.agenda = w.agenda
  record : w'.record = w.record

/-- **Ownership** of requests and completions. -/
structure Ownership (w : World κ ν) : Prop where
  /-- A session with a live request is on a connection. -/
  connected : ∀ (s : SessionId) (session : Session κ), w.sessions[s]? = some session →
    session.phase ≠ .idle → ∃ c, session.connection? = some c
  /-- The number of a live request is below the next number. -/
  live_lt : ∀ (s : SessionId) (session : Session κ) (id : Nat), w.sessions[s]? = some session →
    w.liveId? s = some id → id < session.nextId
  /-- No number is used again, however the run goes on. -/
  fresh : ∀ (s : SessionId) (r r' : Request κ) (w₁ w₂ w₃ : World κ ν) (agenda : List (Job κ ν)),
    w.request s r = (w₁, .ok ()) → Run w₁ w₂ →
      ({ w₂ with agenda } : World κ ν).request s r' = (w₃, .ok ()) →
        ∃ i j, w₁.liveId? s = some i ∧ w₃.liveId? s = some j ∧ i < j
  /-- While a request waits, exactly one of its completions is not over. -/
  completing : ∀ (s : SessionId) (session : Session κ) (entry : Entry κ),
    w.sessions[s]? = some session → session.phase = .completing entry →
      ∃! k : CompletionId, ∃ completion, w.completions[k]? = some completion ∧
        completion.IsFor s entry.id ∧ completion.status ≠ .completed
  /-- While a request is edited, all its completions are over. -/
  editing : ∀ (s : SessionId) (session : Session κ) (entry : Entry κ),
    w.sessions[s]? = some session → session.phase = .editing entry →
      ∀ (k : CompletionId) (completion : Completion), w.completions[k]? = some completion →
        completion.IsFor s entry.id → completion.status = .completed
  /-- Calls on a completion that its session does not wait for touch nothing. -/
  harmless : ∀ (k : CompletionId) (completion : Completion),
    w.completions[k]? = some completion → ¬ w.Awaits k completion →
      (∀ text terminal, Untouched w (w.complete k completion text terminal).1) ∧
      (∀ text, Untouched w (w.suggest k completion text).1) ∧
      Untouched w (w.finish k completion).1
  /-- While a request is edited, a session that deals with its input handles the next event. -/
  handles : ∀ (s : SessionId) (session : Session κ) (entry : Entry κ),
    w.sessions[s]? = some session → session.phase = .editing entry →
      session.decoder.hasNext = true →
        ∃ c event decoder, w.Handles s session entry c event decoder ∧
          ∀ client : Client κ ν,
            w.deliver client s = w.handleEvent client s session entry c event decoder

omit [Text.Widths] in
theorem Untouched.refl (w : World κ ν) : Untouched w w := ⟨rfl, rfl, rfl, rfl⟩

omit [Text.Widths] in
theorem untouched_setStatus (w : World κ ν) (k : CompletionId) (status : Status) :
    Untouched w (w.setStatus k status) := ⟨rfl, rfl, rfl, rfl⟩

theorem untouched_complete {k : CompletionId} {completion : Completion}
    (h : completion.status = .completed ∨ w.waiting? completion = none) (text : List Char)
    (terminal : Bool) : Untouched w (w.complete k completion text terminal).1 := by
  unfold World.complete
  split
  · exact .refl w
  · split
    · exact .refl w
    · rename_i hpending
      have hwait : w.waiting? completion = none := by
        refine h.resolve_left fun hover => hpending ?_
        rw [hover]
        exact nofun
      have hwait : (w.setStatus k .inlining).waiting? completion = none := hwait
      simp only [hwait]
      exact untouched_setStatus w k _

omit [Text.Widths] in
theorem untouched_suggest {k : CompletionId} {completion : Completion}
    (h : completion.status = .completed ∨ w.waiting? completion = none) (text : List Char) :
    Untouched w (w.suggest k completion text).1 := by
  unfold World.suggest
  split
  · rename_i hstatus
    have hwait : w.waiting? completion = none := by
      refine h.resolve_left fun hover => ?_
      simp [hover] at hstatus
    have hwait : (w.setStatus k .completing).waiting? completion = none := hwait
    simp only [hwait]
    exact untouched_setStatus w k _
  · exact .refl w

theorem untouched_finish {k : CompletionId} {completion : Completion}
    (h : completion.status = .completed ∨ ∀ session entry,
      w.sessions[completion.session]? = some session → session.phase = .completing entry →
        entry.id ≠ completion.entryId) :
    Untouched w (w.finish k completion).1 := by
  unfold World.finish
  split
  · exact .refl w
  · rename_i hopen
    simp only [setStatus_sessions]
    split
    · exact untouched_setStatus w k _
    · rename_i session hs
      split
      · rename_i entry hphase
        rw [if_neg (h.resolve_left hopen session entry hs hphase)]
        exact untouched_setStatus w k _
      · exact untouched_setStatus w k _

omit [Text.Widths] in
/-- A completion that is not over, and that its session does not wait for, belongs to a request
that does not wait. -/
theorem Owned.id_ne_of_not_awaits (h : Owned w) {k : CompletionId} {completion : Completion}
    (hk : w.completions[k]? = some completion) (hawaits : ¬ w.Awaits k completion)
    (hopen : completion.status ≠ .completed) {session : Session κ} {entry : Entry κ}
    (hs : w.sessions[completion.session]? = some session)
    (hphase : session.phase = .completing entry) : entry.id ≠ completion.entryId := by
  intro hid
  have hstage : session.phase.stage = .completing completion.entryId := by simp [hphase, hid]
  obtain ⟨l, awaited, -, -, -, hlatest⟩ := (h _ session hs).completing _ hstage
  have hkl : k = l := by
    by_contra hne
    exact hopen ((hlatest k completion hk rfl).2 hne ⟨rfl, rfl⟩)
  subst hkl
  exact hawaits ⟨⟨session, hs, hstage⟩, fun j other hj hother => (hlatest j other hj hother).1⟩

/-- **In every reachable world** requests and completions are owned as they should be, whatever is
running there: so it is also in the middle of a step, when a job has been taken from the agenda. -/
theorem Reachable.ownership (h : Reachable w) (agenda : List (Job κ ν)) :
    Ownership { w with agenda } := by
  have howned : Owned { w with agenda } := h.owned
  constructor
  case connected =>
    intro s session hs hphase
    refine Option.ne_none_iff_exists'.1 ((howned s session hs).connected ?_)
    rwa [Ne, Phase.stage_eq_idle]
  case live_lt =>
    intro s session id hs hid
    refine (howned s session hs).live_lt id ?_
    simpa [liveId?, hs] using hid
  case fresh =>
    intro s r r' w₁ w₂ w₃ agenda
    exact liveId?_lt_of_request
  case completing =>
    intro s session entry hs hphase
    have hstage : session.phase.stage = .completing entry.id := by
      rw [hphase, Phase.stage_completing]
    obtain ⟨k, completion, hk, hfor, hopen, -⟩ := (howned s session hs).completing _ hstage
    refine ⟨k, ⟨completion, hk, hfor, hopen⟩, ?_⟩
    rintro j ⟨other, hj, hotherFor, hotherOpen⟩
    exact (howned s session hs).eq_of_open hstage hk hfor hopen hj hotherFor hotherOpen
  case editing =>
    intro s session entry hs hphase
    refine (howned s session hs).editing entry.id ?_
    rw [hphase, Phase.stage_editing]
  case harmless =>
    intro k completion hk hawaits
    have hwait : completion.status = .completed ∨ ∀ session entry,
        w.sessions[completion.session]? = some session → session.phase = .completing entry →
          entry.id ≠ completion.entryId := by
      by_cases hover : completion.status = .completed
      · exact .inl hover
      · exact .inr fun _ _ => howned.id_ne_of_not_awaits hk hawaits hover
    exact ⟨untouched_complete (hwait.imp_right waiting?_eq_none),
      untouched_suggest (hwait.imp_right waiting?_eq_none), untouched_finish hwait⟩
  case handles =>
    intro s session entry hs hphase hnext
    obtain ⟨c, hc⟩ := Option.ne_none_iff_exists'.1
      ((howned s session hs).connected (by simp [hphase]))
    rw [← Keys.Decoder.isSome_next, Option.isSome_iff_exists] at hnext
    obtain ⟨⟨event, decoder⟩, hnext⟩ := hnext
    refine ⟨c, event, decoder, ⟨hs, hphase, hc, hnext⟩, fun client => ?_⟩
    have hs' : w.sessions[s]? = some session := hs
    simp only [World.deliver, hs', hnext, hphase, hc]

end Widths

/-- A client that leaves every completion waiting. -/
private def idleClient : Client Unit Unit where
  onLine _ _ := .done
  onComplete _ _ _ := .done
  onRead _ _ := .done
  onResize _ _ := .done

/-- A session on a connection, where the Tab key was pressed behind a letter. -/
private def tabbed : World Unit Unit :=
  exec idleClient 20 { sessions := [{}], connections := [{}] } <|
    .andThen (.install 0 0) <|
      .andThen (.request 0 { prompt := ['>'], onLine := (), onComplete? := some () }) <|
        .ofCall (.type 0 ['a', Keys.tab])

private theorem reachable_tabbed : Reachable tabbed := by
  refine Reachable.trans (Pristine.reachable ?_) (run_exec idleClient 20 _ _)
  constructor <;> simp

/-- While the Tab key waits, and with nothing running, its completion is owned. -/
theorem ownership_tabbed :
    (tabbed.sessions.map (·.phase.stage) = [.completing 0] ∧
      tabbed.completions.map (·.status) = [.pending]) ∧ Ownership tabbed :=
  ⟨⟨by decide, by decide⟩, reachable_tabbed.ownership tabbed.agenda⟩

end World

end LineEditor
