import LineEditor.Proofs.Session.Conservation
import LineEditor.Proofs.Session.Protocol
import LineEditor.Proofs.Session.Splicing

/-!
# While a completion runs

From the Tab key to the end of its completion a session holds the entry as it was then
(`World.Holds`): only text that is accepted for this very completion is put into its line, and what
is typed waits behind what waited (`Holds.step`, `Holds.play`). By the protocol of one completion
such text is put in once at most (`Attempts.lineAfter_cases`). The end lets the same entry be edited
again (`Holds.resumes`).

Of calls on other completions the session takes no notice: such a completion is over, or was begun
for another request (`Holds.result_sessions_of_ne`).
-/

namespace LineEditor

variable {κ ν : Type}

/-! ### Calls that put text in -/

namespace Attempt

variable {a : Attempt κ ν} {attempts earlier later : List (Attempt κ ν)} {line : Line}

/-- A call puts in `s`: its text is accepted, and spelled for the quoting that was captured. -/
def Inserts (a : Attempt κ ν) (s : List Char) : Prop :=
  ∃ text terminal, a.act = .complete text terminal ∧ a.result.2 = .ok () ∧
    s = a.completion.snapshot.context.literally terminal text

/-- The line after a call. -/
def lineAfter (a : Attempt κ ν) (line : Line) : Line :=
  match a.act, a.result.2 with
  | .complete text terminal, .ok () =>
    line.insert (a.completion.snapshot.context.literally terminal text)
  | _, _ => line

theorem lineAfter_of_inserts {s : List Char} (h : a.Inserts s) :
    a.lineAfter line = line.insert s := by
  obtain ⟨text, terminal, hact, hok, rfl⟩ := h
  rw [lineAfter, hact, hok]

theorem lineAfter_of_not (h : ∀ s, ¬ a.Inserts s) : a.lineAfter line = line := by
  rw [lineAfter]
  split
  next text terminal hact hok => exact absurd ⟨text, terminal, hact, hok, rfl⟩ (h _)
  next => rfl

theorem Inserts.passed {s : List Char} (h : a.Inserts s) : a.Passed := by
  obtain ⟨-, -, -, hok, -⟩ := h
  exact .inl hok

theorem not_inserts_of_finish (h : a.act = .finish) (s : List Char) : ¬ a.Inserts s := by
  rintro ⟨text, terminal, hact, -⟩
  rw [h] at hact
  cases hact

end Attempt

/-- The line after some calls. -/
def lineAfter (line : Line) (attempts : List (Attempt κ ν)) : Line :=
  attempts.foldl (fun line a => a.lineAfter line) line

theorem lineAfter_append {line : Line} {earlier later : List (Attempt κ ν)} :
    lineAfter line (earlier ++ later) = lineAfter (lineAfter line earlier) later :=
  List.foldl_append

theorem lineAfter_of_not {line : Line} {attempts : List (Attempt κ ν)}
    (h : ∀ a ∈ attempts, ∀ s, ¬ a.Inserts s) : lineAfter line attempts = line := by
  induction attempts with
  | nil => rfl
  | cons a attempts ih =>
    rw [lineAfter, List.foldl_cons, a.lineAfter_of_not (h a List.mem_cons_self)]
    exact ih fun b hb => h b (List.mem_cons_of_mem a hb)

/-- **One insertion at most**: the calls on a completion leave the line, or exactly one of them has
put something in. -/
theorem Attempts.lineAfter_cases {attempts : List (Attempt κ ν)} (h : Attempts .pending attempts)
    (line : Line) :
    ((∀ a ∈ attempts, ∀ s, ¬ a.Inserts s) ∧ lineAfter line attempts = line) ∨
      ∃ earlier a later s, attempts = earlier ++ a :: later ∧ a.Inserts s ∧
        (∀ b ∈ earlier ++ later, ∀ s, ¬ b.Inserts s) ∧
          lineAfter line attempts = line.insert s := by
  by_cases hnone : ∀ a ∈ attempts, ∀ s, ¬ a.Inserts s
  · exact .inl ⟨hnone, lineAfter_of_not hnone⟩
  · push Not at hnone
    obtain ⟨a, ha, s, hs⟩ := hnone
    obtain ⟨earlier, later, rfl⟩ := List.append_of_mem ha
    obtain ⟨text, terminal, hact, -⟩ := id hs
    obtain ⟨hearlier, hlater⟩ := h.obeys.complete text terminal hact hs.passed
    have hbefore : ∀ b ∈ earlier, ∀ s, ¬ b.Inserts s := fun b hb s hbs => hearlier b hb hbs.passed
    have hafter : ∀ b ∈ later, ∀ s, ¬ b.Inserts s := fun b hb s hbs =>
      Attempt.not_inserts_of_finish (hlater b hb hbs.passed) s hbs
    refine .inr ⟨earlier, a, later, s, rfl, hs, fun b hb => ?_, ?_⟩
    · exact (List.mem_append.1 hb).elim (hbefore b) (hafter b)
    · rw [lineAfter_append, lineAfter_of_not hbefore, lineAfter, List.foldl_cons,
        Attempt.lineAfter_of_inserts hs]
      exact lineAfter_of_not hafter

/-! ### Suggestions -/

/-- A call shows suggestions. -/
def Attempt.Suggests (a : Attempt κ ν) : Prop := (∃ text, a.act = .suggest text) ∧ a.Passed

/-- Until its end, a completion is completing exactly when suggestions have been shown. -/
theorem Attempts.statusAfter_eq_completing_iff {status : Status} {attempts : List (Attempt κ ν)}
    (h : Attempts status attempts) (hopen : ∀ a ∈ attempts, a.act ≠ .finish) :
    statusAfter status attempts = .completing ↔
      status = .completing ∨ ∃ a ∈ attempts, a.Suggests := by
  induction attempts generalizing status with
  | nil => simp [statusAfter]
  | cons a attempts ih =>
    have hsuggests : a.Suggests ↔ (∃ text, a.act = .suggest text) ∧ a.act.Passes status := by
      rw [Attempt.Suggests, Attempt.passed_iff, h.1]
    rw [statusAfter_cons, ih h.2 fun b hb => hopen b (List.mem_cons_of_mem a hb),
      Act.after_eq_completing_iff (hopen a List.mem_cons_self), ← hsuggests, or_assoc,
      List.exists_mem_cons_iff]

namespace World

variable {client : Client κ ν} {w w' : World κ ν} {s : SessionId} {k : CompletionId}
  {session : Session κ} {entry : Entry κ} {decoder : Keys.Decoder} {snapshot : Snapshot}
  {a : Attempt κ ν}

/-- A session is taken off its connection when the innermost job is taken up. -/
def Uninstalls (w : World κ ν) (s : SessionId) : Prop :=
  (w.session? s).isSome ∧ ∃ next rest, w.agenda = .run (.call (.uninstall s) next) :: rest

/-- Session `s` holds an entry for completion `k`. -/
structure Holds (w : World κ ν) (s : SessionId) (k : CompletionId) (snapshot : Snapshot)
    (entry : Entry κ) (decoder : Keys.Decoder) : Prop where
  session : ∃ session, w.sessions[s]? = some session ∧ session.phase = .completing entry ∧
    session.decoder = decoder
  completion : ∃ completion, w.completions[k]? = some completion ∧
    completion.IsFor s entry.id ∧ completion.snapshot = snapshot ∧
      completion.status ≠ .completed

/-! ### Steps that are no calls on a completion -/

/-- A session that waits goes on waiting, whatever else happens to it. -/
theorem step_phase (client : Client κ ν) (hnone : w.attempt? = none) (hstay : ¬ w.Uninstalls s)
    (hs : w.sessions[s]? = some session) (hphase : session.phase = .completing entry) :
    ∃ after, (w.step client).sessions[s]? = some after ∧ after.phase = .completing entry := by
  cases hagenda : w.agenda with
  | nil =>
    rw [step_of_agenda_nil client hagenda]
    exact ⟨session, hs, hphase⟩
  | cons job rest =>
    by_cases huninstall : ∃ next, job = .run (.call (.uninstall s) next)
    · -- the session has been given up, so that the call is refused
      obtain ⟨next, rfl⟩ := huninstall
      have hgone : ({ w with agenda := rest } : World κ ν).session? s = none := by
        by_contra hlive
        exact hstay ⟨Option.isSome_iff_ne_none.2 hlive, next, rest, hagenda⟩
      have hstep :
          w.step client = ({ w with agenda := rest } : World κ ν).reply next .noSession := by
        rw [step, hagenda]
        dsimp only
        rw [perform]
        dsimp only
        rw [onSession, hgone]
      rw [hstep]
      exact ⟨session, hs, hphase⟩
    · have hturn := turn_step client hagenda
      generalize w.step client = w' at hturn ⊢
      replace hs : ({ w with agenda := rest } : World κ ν).sessions[s]? = some session := hs
      -- a session that does something else than wait is another one
      have hother : ∀ {t : SessionId} {other : Session κ},
          ({ w with agenda := rest } : World κ ν).sessions[t]? = some other →
            other.phase ≠ .completing entry → t ≠ s := by
        rintro t other ht hne rfl
        obtain rfl := Option.some_inj.1 (hs.symm.trans ht)
        exact hne hphase
      cases hturn with
      | rest | answer | aside | write | listen | schedule | deliver | runTasks | stop | tasksOver
      | nextTask | move | suggest => exact ⟨session, by simpa using hs, hphase⟩
      | adjust call next a t hf =>
        exact exists_changeSession rfl hs hphase fun _ => (hf.phase session).trans hphase
      | resize | type | install =>
        exact exists_changeSession rfl hs hphase fun _ => hphase
      | uninstall t next =>
        refine exists_changeSession rfl hs hphase fun h => absurd ⟨next, h ▸ rfl⟩ huninstall
      | request t r next ht hc hidle =>
        refine exists_changeSession (by
          simp only [reply_sessions, schedule_sessions, write_sessions]
          rfl) hs hphase ?_
        exact fun h => absurd h (hother ht (by simp [hidle]))
      | insert k? text terminal next hk? hk =>
        subst hk?
        exact absurd hnone (attempt?_ne_none hagenda rfl hk)
      | resume k? next hk? hk =>
        subst hk?
        exact absurd hnone (attempt?_ne_none hagenda rfl hk)
      | forward t ht hidle =>
        exact exists_changeSession rfl hs hphase fun h => absurd h (hother ht (by simp [hidle]))
      | edit t hh | submit t hh | ask t hh =>
        refine exists_changeSession (by
          simp only [push_sessions, log_sessions, afterEvent_sessions]
          rfl) hs hphase ?_
        exact fun h => absurd h (hother hh.lookup (by simp [hh.phase]))

/-! ### Calls on completions -/

/-- What a call finds is what was there when it was taken up. -/
theorem Holds.before (h : w.Holds s k snapshot entry decoder) (howned : Owned w)
    (hattempt : w.attempt? = some a) : a.before.Holds s k snapshot entry decoder ∧
      Owned a.before ∧ a.before.completions[a.id]? = some a.completion ∧
        a.before.sessions = w.sessions := by
  obtain ⟨_, _, _, _, -, -, -, hlookup, hbefore⟩ := attempt?_eq_some_iff.1 hattempt
  rw [← hbefore]
  exact ⟨⟨h.session, h.completion⟩, howned, hlookup, rfl⟩

/-- For a call on its completion, a session that holds an entry is there and waits. -/
theorem Holds.waits (h : a.before.Holds s k snapshot entry decoder) (howned : Owned a.before)
    (hlookup : a.before.completions[a.id]? = some a.completion) (hid : a.id = k) :
    ∃ session c, a.completion.session = s ∧ a.completion.status ≠ .completed ∧
      a.before.sessions[a.completion.session]? = some session ∧ session.connection? = some c ∧
        session.phase = .completing entry ∧ entry.id = a.completion.entryId := by
  obtain ⟨session, hs, hphase, -⟩ := h.session
  obtain ⟨completion, hk, ⟨rfl, hentry⟩, -, hopen⟩ := h.completion
  subst hid
  obtain rfl := Option.some_inj.1 (hlookup.symm.trans hk)
  obtain ⟨c, hc⟩ := Option.ne_none_iff_exists'.1
    ((howned _ session hs).connected (by simp [hphase]))
  exact ⟨session, c, rfl, hopen, hs, hc, hphase, hentry.symm⟩

theorem suggest_sessions {completion : Completion} (text : List Char) :
    (w.suggest k completion text).1.sessions = w.sessions := by
  unfold World.suggest
  split
  · dsimp only
    split
    · rfl
    · exact write_sessions ..
  · rfl

theorem resumed_sessions {completion : Completion} :
    (w.resumed k completion session entry).sessions =
      (w.changeSession completion.session ({ · with phase := .editing entry })).sessions := by
  simp [resumed, changeSession]

/-- A call changes no session but that of its completion. -/
theorem result_sessions_of_ne {completion : Completion} (act : Act)
    (hne : completion.session ≠ s) :
    (act.result w k completion).1.sessions[s]? = w.sessions[s]? := by
  have hchange : ∀ f : Session κ → Session κ,
      (w.changeSession completion.session f).sessions[s]? = w.sessions[s]? := by
    intro f
    rw [getElem?_sessions_changeSession]
    simp [hne]
  by_cases hpasses : act.Passes completion.status
  · cases act with
    | complete text terminal =>
      obtain ⟨hsupported, hpending⟩ := hpasses
      rw [Act.result, World.complete, hsupported]
      simp only [hpending, ne_eq, not_true_eq_false, if_false]
      split
      · rfl
      · split
        · rfl
        · rw [write_sessions]
          exact hchange _
    | suggest text => rw [Act.result, suggest_sessions]
    | finish =>
      obtain hfinish | ⟨session, entry, hfinish⟩ := finish_cases (w := w) (k := k) hpasses <;>
        rw [Act.result, hfinish]
      · rfl
      · rw [resumed_sessions]
        exact hchange _
  · obtain ⟨why, -, hresult⟩ := Act.result_of_not_passes (w := w) (k := k) hpasses
    rw [hresult]

/-- A call on another completion than the one that a session waits for leaves the session alone. -/
theorem Holds.result_sessions_of_ne (h : w.Holds s k snapshot entry decoder) (howned : Owned w)
    (hlookup : w.completions[a.id]? = some a.completion) (hne : a.id ≠ k) :
    (a.act.result w a.id a.completion).1.sessions[s]? = w.sessions[s]? := by
  by_cases hsame : a.completion.session = s
  · obtain ⟨session, hs, hphase, -⟩ := h.session
    obtain ⟨completion, hk, hfor, -, hopen⟩ := h.completion
    have hstage : session.phase.stage = .completing entry.id := by
      rw [hphase, Phase.stage_completing]
    -- it is over, or of another request
    have hidle : a.completion.status = .completed ∨ ∀ session' entry',
        w.sessions[a.completion.session]? = some session' → session'.phase = .completing entry' →
          entry'.id ≠ a.completion.entryId := by
      by_cases hover : a.completion.status = .completed
      · exact .inl hover
      · refine .inr fun session' entry' hs' hphase' hid => hne ?_
        rw [hsame, hs] at hs'
        obtain rfl := Option.some_inj.1 hs'
        obtain rfl := Phase.completing.inj (hphase.symm.trans hphase')
        exact (howned s session hs).eq_of_open hstage hk hfor hopen hlookup ⟨hsame, hid.symm⟩ hover
    have huntouched : Untouched w (a.act.result w a.id a.completion).1 := by
      cases a.act with
      | complete text terminal =>
        exact untouched_complete (hidle.imp_right waiting?_eq_none) text terminal
      | suggest text => exact untouched_suggest (hidle.imp_right waiting?_eq_none) text
      | finish => exact untouched_finish hidle
    rw [huntouched.sessions]
  · exact World.result_sessions_of_ne a.act hsame

/-- What a call on the completion that a session waits for does to it, if it does not end it. -/
theorem Holds.result_session (h : a.before.Holds s k snapshot entry decoder)
    (howned : Owned a.before) (hlookup : a.before.completions[a.id]? = some a.completion)
    (hid : a.id = k) (hfinish : a.act ≠ .finish) :
    ∃ after, a.result.1.sessions[s]? = some after ∧
      after.phase = .completing { entry with line := a.lineAfter entry.line } := by
  obtain ⟨session, c, hsession, -, hs, hc, hphase, hentry⟩ := h.waits howned hlookup hid
  rw [← hsession]
  have hkeep : a.result.1.sessions = a.before.sessions → (∀ s, ¬ a.Inserts s) →
      ∃ after, a.result.1.sessions[a.completion.session]? = some after ∧
        after.phase = .completing { entry with line := a.lineAfter entry.line } := by
    intro hsame hnot
    rw [hsame, a.lineAfter_of_not hnot]
    exact ⟨session, hs, hphase⟩
  by_cases hpasses : a.act.Passes a.completion.status
  · cases hact : a.act with
    | complete text terminal =>
      rw [hact] at hpasses
      obtain ⟨hok, hafter⟩ := complete_of_waits (k := a.id) hpasses.1 hpasses.2 hs hc hphase
        hentry terminal
      have hresult : a.result = a.before.complete a.id a.completion text terminal := by
        rw [Attempt.result, hact, Act.result]
      rw [← hresult] at hok hafter
      rw [Attempt.lineAfter_of_inserts ⟨text, terminal, hact, hok, rfl⟩]
      exact ⟨_, hafter, rfl⟩
    | suggest text =>
      refine hkeep ?_ ?_
      · rw [Attempt.result, hact, Act.result, suggest_sessions]
      · rintro s ⟨_, _, hcomplete, -⟩
        rw [hact] at hcomplete
        cases hcomplete
    | finish => exact absurd hact hfinish
  · obtain ⟨why, -, hresult⟩ := Act.result_of_not_passes (w := a.before) (k := a.id) hpasses
    refine hkeep ?_ ?_
    · rw [Attempt.result, hresult]
    · rintro s ⟨_, _, _, hok, -⟩
      rw [Attempt.result, hresult] at hok
      cases hok

/-- A call that shows suggestions for a completion that is waited for is accepted. -/
theorem suggest_of_waits {completion : Completion} {c : ConnectionId} {text : List Char}
    (hstatus : completion.status = .pending ∨ completion.status = .completing)
    (hwait : w.waiting? completion = some (c, entry)) :
    (w.suggest k completion text).2 = .ok () := by
  have hwait : (w.setStatus k .completing).waiting? completion = some (c, entry) := hwait
  rw [World.suggest, if_pos hstatus]
  simp only [hwait]

/-- While a session waits for a completion, a call on it that passes is accepted. -/
theorem Holds.accepted (h : a.before.Holds s k snapshot entry decoder) (howned : Owned a.before)
    (hlookup : a.before.completions[a.id]? = some a.completion) (hid : a.id = k)
    (hpassed : a.Passed) : a.result.2 = .ok () := by
  obtain ⟨session, c, -, -, hs, hc, hphase, hentry⟩ := h.waits howned hlookup hid
  rw [Attempt.passed_iff] at hpassed
  rw [Attempt.result]
  cases hact : a.act with
  | complete text terminal =>
    rw [hact] at hpassed
    exact (complete_of_waits hpassed.1 hpassed.2 hs hc hphase hentry terminal).1
  | suggest text =>
    rw [hact] at hpassed
    exact suggest_of_waits hpassed
      (waiting?_eq_some_iff.2 ⟨session, hs, hc, hphase, hentry⟩)
  | finish =>
    rw [hact] at hpassed
    rw [Act.result, finish_of_waits hpassed hs hphase hentry]

/-- While a session waits, what is typed waits behind what waited, and nothing goes. -/
theorem Passes.decoder_of_completing {before after : Session κ} {passage? : Option (Passage κ)}
    (h : Passes client w s before after passage?) (hphase : before.phase = .completing entry) :
    after.decoder = before.decoder.append (passage?.elim [] Passage.arriving) := by
  cases h with
  | nothing h =>
    rw [h]
    simp [Keys.Decoder.append]
  | typed _ _ h => exact h
  | handled _ hhandles =>
    rw [hhandles.phase] at hphase
    cases hphase
  | forwarded _ hidle =>
    rw [hidle] at hphase
    cases hphase

/-- **Step lemma.** A session goes on holding an entry until its completion ends, or it is taken off
its connection. -/
theorem Holds.step (h : w.Holds s k snapshot entry decoder) (howned : Owned w)
    (client : Client κ ν) (hstay : ¬ w.Uninstalls s)
    (hopen : ∀ a ∈ w.attempt?.toList.filter (·.id = k), a.act ≠ .finish) :
    (w.step client).Holds s k snapshot
      { entry with
        line := lineAfter entry.line (w.attempt?.toList.filter (·.id = k)) }
      (decoder.append ((w.passage? s).elim [] Passage.arriving)) := by
  obtain ⟨session, hs, hphase, rfl⟩ := h.session
  obtain ⟨completion, hk, hfor, hsnapshot, hstatus⟩ := h.completion
  obtain ⟨after, hafter, hpasses⟩ := step_passes client hs
  have hphaseAfter : ∃ after, (w.step client).sessions[s]? = some after ∧
      after.phase = .completing { entry with
        line := lineAfter entry.line (w.attempt?.toList.filter (·.id = k)) } := by
    cases hattempt : w.attempt? with
    | none => exact step_phase client hattempt hstay hs hphase
    | some a =>
      obtain ⟨hholds, hownedBefore, hlookup, -⟩ := h.before howned hattempt
      obtain ⟨_, _, _, -, hbefore, hstep⟩ := step_of_attempt? client hattempt
      rw [hstep, reply_sessions]
      by_cases hid : a.id = k
      · have hlist : (some a).toList.filter (·.id = k) = [a] := by simp [hid]
        rw [hattempt, hlist] at hopen
        rw [hlist]
        exact hholds.result_session hownedBefore hlookup hid (hopen a List.mem_cons_self)
      · have hlist : (some a).toList.filter (·.id = k) = [] := by simp [hid]
        rw [hlist, Attempt.result, hholds.result_sessions_of_ne hownedBefore hlookup hid, hbefore]
        exact ⟨session, hs, hphase⟩
  obtain ⟨after', hafter', hphaseAfter⟩ := hphaseAfter
  obtain rfl := Option.some_inj.1 (hafter.symm.trans hafter')
  refine ⟨⟨after, hafter, hphaseAfter, hpasses.decoder_of_completing hphase⟩,
    ⟨_, step_completion client hk, hfor, hsnapshot, fun hover => ?_⟩⟩
  obtain ⟨a, ha, hfinish⟩ := (statusAfter_eq_completed_iff hstatus).1 hover
  exact hopen a ha hfinish

/-! ### Runs -/

/-- **Run lemma.** Until its completion ends, or it is taken off its connection, a session holds the
entry that it held at first, with what was put into its line. -/
theorem Holds.play (h : w.Holds s k snapshot entry decoder) (hw : Reachable w)
    (choices : List (Choice κ ν)) (hstay : ∀ v ∈ w.stepped choices, ¬ v.Uninstalls s)
    (hopen : ∀ a ∈ w.attempts k choices, a.act ≠ .finish) :
    (w.play choices).Holds s k snapshot
      { entry with line := lineAfter entry.line (w.attempts k choices) }
      (decoder.append ((w.passages s choices).flatMap Passage.arriving)) := by
  induction choices generalizing w entry decoder with
  | nil =>
    rw [attempts_nil, passages_nil, List.flatMap_nil, Keys.Decoder.append_nil]
    exact h
  | cons choice choices ih =>
    cases choice with
    | run p => exact ih (w := w.push (.run p)) ⟨h.session, h.completion⟩ (hw.run p) hstay hopen
    | step client =>
      rw [attempts_step] at hopen ⊢
      have hone := h.step hw.owned client (hstay w List.mem_cons_self)
        fun a ha => hopen a (List.mem_append_left _ ha)
      have hrest := ih hone (hw.step client) (fun v hv => hstay v (List.mem_cons_of_mem w hv))
        fun a ha => hopen a (List.mem_append_right _ ha)
      rw [lineAfter_append, passages_step, List.flatMap_append, flatMap_toList,
        ← Keys.Decoder.append_append]
      exact hrest

/-- The snapshot of a completion is the same at all calls on it. -/
theorem snapshot_of_mem_attempts {completion : Completion}
    (hk : w.completions[k]? = some completion) {choices : List (Choice κ ν)}
    (ha : a ∈ w.attempts k choices) : a.completion.snapshot = completion.snapshot := by
  induction choices generalizing w completion with
  | nil => cases ha
  | cons choice choices ih =>
    cases choice with
    | run p => exact ih (w := w.push (.run p)) hk ha
    | step client =>
      rw [attempts_step] at ha
      obtain ha | ha := List.mem_append.1 ha
      · obtain ⟨hattempt, hid⟩ := List.mem_filter.1 ha
        rw [Option.mem_toList] at hattempt
        obtain rfl : a.id = k := by simpa using hid
        rw [Option.some_inj.1 ((attempt?_lookup hattempt).symm.trans hk)]
      · exact (ih (step_completion client hk) ha :)

/-! ### From the Tab key -/

/-- The Tab key is the next event of the entry that session `s` edits, and there is a handler to
ask. What is typed behind the Tab key is left in `decoder`. -/
structure Tabs (w : World κ ν) (s : SessionId) (entry : Entry κ) (decoder : Keys.Decoder) :
    Prop where
  agenda : ∃ rest, w.agenda = .deliver s :: rest
  session : ∃ session, w.sessions[s]? = some session ∧ session.phase = .editing entry ∧
    session.decoder.next? = some (.key [Keys.tab], decoder)
  handler : ∃ handler, entry.request.onComplete? = some handler

/-- The Tab key begins a completion, and the handler is to run for it. -/
theorem Tabs.exists_step (h : w.Tabs s entry decoder) (howned : Owned w) (client : Client κ ν) :
    ∃ (rest : List (Job κ ν)) (session : Session κ) (c : ConnectionId) (handler : κ)
        (completion : Completion),
      w.agenda = .deliver s :: rest ∧ w.sessions[s]? = some session ∧
      session.connection? = some c ∧ entry.request.onComplete? = some handler ∧
      completion =
        { session := s, entryId := entry.id, snapshot := entry.snapshot, size? := session.size? } ∧
      w.step client =
        (({ ({ w with agenda := rest } : World κ ν).afterEvent s c (entry.complete session.history)
            decoder (.completing entry) with
          completions := w.completions ++ [completion] } : World κ ν).log
            (.asked w.completions.length completion)).push
          (.run (client.onComplete handler w.completions.length completion)) := by
  obtain ⟨rest, hagenda⟩ := h.agenda
  obtain ⟨session, hs, hphase, hnext⟩ := h.session
  obtain ⟨handler, hhandler⟩ := h.handler
  obtain ⟨c, hc⟩ := Option.ne_none_iff_exists'.1
    ((howned s session hs).connected (by simp [hphase]))
  have hhandled : entry.handle session.functions session.history session.continuation
      (.key [Keys.tab]) = entry.complete session.history := rfl
  have hasked : (entry.complete session.history).outcome = .asked handler entry.snapshot := by
    rw [Entry.complete, hhandler]
  have hhandles : w.Handles s session entry c (.key [Keys.tab]) decoder := ⟨hs, hphase, hc, hnext⟩
  refine ⟨rest, session, c, handler, _, hagenda, hs, hc, hhandler, rfl, ?_⟩
  rw [hhandles.step_eq hagenda]
  exact handleEvent_asked hhandled hasked rfl

/-- For this completion the entry is held. -/
theorem Tabs.holds (h : w.Tabs s entry decoder) (howned : Owned w) (client : Client κ ν) :
    (w.step client).Holds s w.completions.length entry.snapshot entry decoder := by
  obtain ⟨rest, session, c, handler, _, -, hs, -, -, rfl, hstep⟩ := h.exists_step howned client
  have hs' : ({ w with agenda := rest } : World κ ν).sessions[s]? = some session := hs
  rw [hstep]
  constructor
  · refine ⟨{ session with phase := .completing entry, decoder }, ?_, rfl, rfl⟩
    simp only [push_sessions, log_sessions, afterEvent_sessions, getElem?_sessions_changeSession,
      hs']
    simp [Entry.complete]
  · exact ⟨_, List.getElem?_concat_length, ⟨rfl, rfl⟩, rfl, by simp⟩

/-! ### To the end -/

/-- The first end of a completion, while `session` holds an entry for it: the entry is edited again.
Below suggestions, its prompt and its line are written, and the cursor goes back to its place;
otherwise nothing is written. -/
structure Resumes (a : Attempt κ ν) (s : SessionId) (session : Session κ) (entry : Entry κ)
    (suggested : Prop) : Prop where
  ok : a.result.2 = .ok ()
  resumed : a.result.1.sessions[s]? = some { session with phase := .editing entry }
  /-- The prompt is that of the request, or the one of further lines if a line was ended before; a
  text without any characters is no occurrence. -/
  redrawn : suggested → ∃ c text, session.connection? = some c ∧
    text = (if entry.lines = [] then entry.request.prompt else session.continuation) ++
      entry.line.text ++ List.replicate (Text.width entry.line.after) '\x08' ∧
    a.result.1.record = if text = [] then a.before.record else .wrote c text :: a.before.record
  silent : ¬ suggested → a.result.1.record = a.before.record

theorem Holds.resumes (h : a.before.Holds s k snapshot entry decoder) (howned : Owned a.before)
    (hlookup : a.before.completions[a.id]? = some a.completion) (hid : a.id = k)
    (hact : a.act = .finish) (hs : a.before.sessions[s]? = some session) :
    Resumes a s session entry (a.completion.status = .completing) := by
  obtain ⟨session', c, hsession, hopen, hs', hc, hphase, hentry⟩ := h.waits howned hlookup hid
  obtain rfl := Option.some_inj.1 (hs.symm.trans (hsession ▸ hs'))
  have hresult : a.result = (a.before.resumed a.id a.completion session entry, .ok ()) := by
    rw [Attempt.result, hact]
    exact finish_of_waits hopen hs' hphase hentry
  have hrecord : a.result.1.record =
      if a.completion.redrawing session entry = [] then a.before.record
      else .wrote c (a.completion.redrawing session entry) :: a.before.record := by
    rw [hresult, resumed, hc]
    simp only [schedule_record, changeSession_record, Option.getD_some]
    unfold World.write
    simp only [List.isEmpty_iff]
    split <;> rfl
  refine ⟨by rw [hresult], ?_, fun hsuggested => ⟨c, _, hc, ?_, hrecord⟩, fun hnot => ?_⟩
  · rw [hresult, resumed_sessions, getElem?_sessions_changeSession, hs, hsession]
    simp
  · rw [Completion.redrawing, if_pos ⟨hsuggested, by rw [hc]; rfl⟩, Entry.prompt,
      Line.redraw_empty, List.append_assoc]
    simp only [List.isEmpty_iff]
    rfl
  · have hnothing : a.completion.redrawing session entry = [] := if_neg fun h => hnot h.1
    rw [hrecord, if_pos hnothing]

/-! ### The protocol -/

/-- What has become of the entry that session `s` held for completion `k` in `w`, with `decoder`
waiting: it still is held, with another line. -/
structure Keeps (w : World κ ν) (s : SessionId) (k : CompletionId) (entry : Entry κ)
    (decoder : Keys.Decoder) (choices : List (Choice κ ν)) (session : Session κ) (line : Line) :
    Prop where
  lookup : (w.play choices).sessions[s]? = some session
  phase : session.phase = .completing { entry with line }
  /-- What was typed meanwhile waits behind what waited. -/
  waits : session.decoder = decoder.append ((w.passages s choices).flatMap Passage.arriving)
  /-- All calls on the completion know the entry as it was at first. -/
  snapshot : ∀ a ∈ w.attempts k choices, a.completion.snapshot = entry.snapshot
  /-- Nothing has been put into the line, or exactly one call has put something in. -/
  inserted : ((∀ a ∈ w.attempts k choices, ∀ text, ¬ a.Inserts text) ∧ line = entry.line) ∨
    ∃ earlier a later text, w.attempts k choices = earlier ++ a :: later ∧ a.Inserts text ∧
      (∀ b ∈ earlier ++ later, ∀ text, ¬ b.Inserts text) ∧ line = entry.line.insert text
  /-- A call on the completion that passes now is accepted. -/
  accepted : ∀ a, (w.play choices).attempt? = some a → a.id = k → a.Passed → a.result.2 = .ok ()
  /-- If the completion ends now, the entry is edited again, and is redrawn below suggestions. -/
  resumes : ∀ a, (w.play choices).attempt? = some a → a.id = k → a.act = .finish →
    Resumes a s session { entry with line } (∃ b ∈ w.attempts k choices, b.Suggests)

/-- **The protocol of completions** along a run. -/
structure CompletionProtocol (w : World κ ν) (choices : List (Choice κ ν)) : Prop where
  /-- A call on a completion does what its result says, and is answered. -/
  carried : ∀ earlier client later a, choices = earlier ++ .step client :: later →
    (w.play earlier).attempt? = some a → ∃ call next rest,
      (w.play earlier).agenda = .run (.call call next) :: rest ∧
        a.before = { w.play earlier with agenda := rest } ∧
          (w.play earlier).step client = a.result.1.reply next (answerOf a.result.2)
  /-- A completion begins as pending, and from then on its status stays or moves onward. -/
  moves : ∀ earlier choice later (k : CompletionId) (completion : Completion),
    choices = earlier ++ choice :: later →
    ((w.play earlier).move choice).completions[k]? = some completion →
      ((w.play earlier).completions[k]? = none ∧ completion.status = .pending) ∨
        ∃ before : Completion, (w.play earlier).completions[k]? = some before ∧
          before.status.Onward completion.status
  /-- Which calls on one completion pass together. -/
  obeys : ∀ k earlier a later, w.attempts k choices = earlier ++ a :: later → a.Obeys earlier later
  /-- From the Tab key until its completion ends, or its session is taken off its connection, an
  entry is kept. -/
  keeps : ∀ earlier client later s entry decoder, choices = earlier ++ .step client :: later →
    (w.play earlier).Tabs s entry decoder →
      (∀ v ∈ ((w.play earlier).step client).stepped later, ¬ v.Uninstalls s) →
        (∀ a ∈ ((w.play earlier).step client).attempts (w.play earlier).completions.length later,
          a.act ≠ .finish) →
          ∃ session line, ((w.play earlier).step client).Keeps s
            (w.play earlier).completions.length entry decoder later session line

/-- An entry that is held for a pending completion is kept. -/
theorem Holds.keeps (h : w.Holds s k entry.snapshot entry decoder) (hw : Reachable w)
    (hpending : ∀ completion, w.completions[k]? = some completion → completion.status = .pending)
    {choices : List (Choice κ ν)} (hstay : ∀ v ∈ w.stepped choices, ¬ v.Uninstalls s)
    (hopen : ∀ a ∈ w.attempts k choices, a.act ≠ .finish) :
    ∃ session line, w.Keeps s k entry decoder choices session line := by
  have hlast := h.play hw choices hstay hopen
  obtain ⟨session, hs, hphase, hdecoder⟩ := hlast.session
  obtain ⟨completion, hk, -, hsnapshot, -⟩ := h.completion
  obtain ⟨hkLast, hattempts⟩ := play_completion hk choices
  rw [hpending completion hk] at hkLast hattempts
  have howned : Owned (w.play choices) := (hw.trans (run_play w choices)).owned
  exact ⟨session, lineAfter entry.line (w.attempts k choices), {
    lookup := hs
    phase := hphase
    waits := hdecoder
    snapshot a ha := (snapshot_of_mem_attempts hk ha).trans hsnapshot
    inserted := hattempts.lineAfter_cases entry.line
    accepted a hattempt hid hpassed := by
      obtain ⟨hholds, hownedBefore, hlookup, -⟩ := hlast.before howned hattempt
      exact hholds.accepted hownedBefore hlookup hid hpassed
    resumes a hattempt hid hact := by
      -- the end finds the status that all calls before it have come to
      have hstatus : a.completion.status = statusAfter .pending (w.attempts k choices) := by
        have hlookup := attempt?_lookup hattempt
        rw [hid, hkLast] at hlookup
        exact (congrArg Completion.status (Option.some_inj.1 hlookup)).symm
      have hsuggested :
          a.completion.status = .completing ↔ ∃ b ∈ w.attempts k choices, b.Suggests := by
        rw [hstatus, hattempts.statusAfter_eq_completing_iff hopen]
        simp
      obtain ⟨hholds, hownedBefore, hlookup, hsessions⟩ := hlast.before howned hattempt
      rw [← hsessions] at hs
      have hresumes := hholds.resumes hownedBefore hlookup hid hact hs
      rwa [hsuggested] at hresumes }⟩

/-- **The protocol of completions** holds along every run from a pristine world. -/
theorem Pristine.completion_protocol (h : Pristine w) (choices : List (Choice κ ν)) :
    CompletionProtocol w choices where
  carried earlier client later a _ hattempt := step_of_attempt? client hattempt
  moves earlier choice later k completion _ hk := by
    cases choice with
    | run p => exact .inr ⟨completion, hk, .inl rfl⟩
    | step client => exact status_step client hk
  obeys k earlier a later hattempts := by
    have hunbegun : w.completions[k]? = none := by rw [h.completions]; rfl
    have hall := (play_of_unbegun hunbegun choices).1
    rw [hattempts] at hall
    exact hall.obeys
  keeps earlier client later s entry decoder _ htab hstay hopen := by
    have hw := h.reachable_play earlier
    have hunbegun : (w.play earlier).completions[(w.play earlier).completions.length]? = none :=
      List.getElem?_eq_none (Nat.le_refl _)
    exact (htab.holds hw.owned client).keeps (hw.step client)
      (fun _ => pending_of_step client hunbegun) hstay hopen

/-- A client that completes a word by suggestions, types a letter, and goes on too long. -/
private def eagerClient : Client Unit Unit where
  onLine _ _ := .done
  onComplete _ k _ :=
    .andThen (.suggest (some k) ['b']) <|
      .andThen (.type 0 ['x']) <|
        .andThen (.complete (some k) ['c'] false) <|
          .andThen (.finish (some k)) <|
            .ofCall (.finish (some k))
  onRead _ _ := .done
  onResize _ _ := .done

/-- One session and one connection. -/
private def freshWorld : World Unit Unit := { sessions := [{}], connections := [{}] }

/-- The Tab key is pressed behind a letter, and the client has its way. -/
private def tabPressed : List (Choice Unit Unit) :=
  .run (.andThen (.install 0 0) <|
    .andThen (.request 0 { prompt := ['>'], onLine := (), onComplete? := some () }) <|
      .ofCall (.type 0 ['a', Keys.tab])) ::
    List.replicate 14 (.step eagerClient)

/-- Behind suggestions no text is put in, and the second end is refused. -/
theorem completion_protocol_tabPressed :
    Pristine freshWorld ∧
      (freshWorld.attempts 0 tabPressed).map (fun a => (a.act, answerOf a.result.2)) =
        [(.suggest ['b'], .done),
          (.complete ['c'] false, .refused (.illegalStatus .complete .completing)),
          (.finish, .done), (.finish, .refused (.illegalStatus .finish .completed))] ∧
      CompletionProtocol freshWorld tabPressed := by
  have hpristine : Pristine freshWorld := by constructor <;> simp [freshWorld]
  exact ⟨hpristine, by decide, hpristine.completion_protocol tabPressed⟩

end World

end LineEditor
