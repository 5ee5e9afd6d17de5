import LineEditor.Proofs.Lists
import LineEditor.Proofs.Session.Journal

/-!
# The calls on one completion

A completion goes through its statuses by the calls on it and by nothing else. Whether such a call
passes, and the status that it leads to, depend on the call and the status alone (`Act.Passes`,
`Act.after`). So the statuses of a completion along a run are those that its calls come to, one
after the other (`World.play_completion`, `World.play_of_unbegun`), and which calls can pass
together is a question about lists of calls (`Attempts.obeys`).
-/

namespace LineEditor

open World (unsupported?)

variable {κ ν : Type}

/-! ### Statuses -/

namespace Status

/-- A status stays or moves. -/
def Onward (status status' : Status) : Prop := status' = status ∨ status.Leads status'

theorem Onward.trans {first second third : Status} (h : first.Onward second)
    (h' : second.Onward third) : first.Onward third := by
  cases first <;> cases second <;> cases third <;> simp_all [Onward, Leads]

theorem Onward.eq_completed {status : Status} (h : Status.completed.Onward status) :
    status = .completed := by
  cases status <;> simp_all [Onward, Leads]

end Status

/-! ### Calls -/

/-- A call on a completion. -/
inductive Act where
  /-- Puts text into the line. -/
  | complete (text : List Char) (terminal : Bool)
  /-- Lists suggestions. -/
  | suggest (text : List Char)
  /-- Ends the completion. -/
  | finish
  deriving DecidableEq

namespace Act

variable {act : Act} {status : Status}

/-- A call passes the checks of its text and of the status. -/
def Passes : Act → Status → Prop
  | .complete text _, status => unsupported? text = none ∧ status = .pending
  | .suggest _, status => status = .pending ∨ status = .completing
  | .finish, status => status ≠ .completed

instance (act : Act) (status : Status) : Decidable (act.Passes status) := by
  cases act <;> unfold Passes <;> infer_instance

/-- The status that a call leads to if it passes. -/
def target : Act → Status
  | .complete _ _ => .inlining
  | .suggest _ => .completing
  | .finish => .completed

/-- The status after a call. -/
def after (act : Act) (status : Status) : Status :=
  if act.Passes status then act.target else status

theorem Passes.leads (h : act.Passes status) : status.Leads act.target := by
  cases act with
  | complete text terminal => rw [h.2]; trivial
  | suggest text => obtain h | h := h <;> rw [h] <;> trivial
  | finish => exact Status.leads_completed h

/-- A call moves a status onward. -/
theorem onward_after (act : Act) (status : Status) : status.Onward (act.after status) := by
  rw [after]
  split
  next h => exact .inr h.leads
  next => exact .inl rfl

/-- A completion is over after its end. -/
theorem after_finish (status : Status) : finish.after status = .completed := by
  cases status <;> rfl

theorem after_ne_completed (hopen : status ≠ .completed) (hact : act ≠ .finish) :
    act.after status ≠ .completed := by
  rw [after]
  split
  next =>
    cases act with
    | complete | suggest => exact nofun
    | finish => exact absurd rfl hact
  next => exact hopen

/-- No call leads back. -/
theorem not_onward_pending (act : Act) : ¬ act.target.Onward .pending := by
  cases act <;> simp [target, Status.Onward, Status.Leads]

/-- After text, nothing but the end passes. -/
theorem eq_finish_of_onward (h : Status.inlining.Onward status) (hpasses : act.Passes status) :
    act = .finish := by
  cases act <;> cases status <;> simp_all [Passes, Status.Onward, Status.Leads]

/-- Before suggestions, nothing but suggestions has passed. -/
theorem eq_suggest_of_onward (h : act.target.Onward status)
    (hstatus : status = .pending ∨ status = .completing) : ∃ text, act = .suggest text := by
  obtain rfl | rfl := hstatus <;> cases act <;>
    simp_all [target, Status.Onward, Status.Leads]

theorem after_eq_completing_iff (hact : act ≠ .finish) : act.after status = .completing ↔
    status = .completing ∨ (∃ text, act = .suggest text) ∧ act.Passes status := by
  rw [after]
  cases act with
  | complete text terminal =>
    split
    next h => simp [target, h.2]
    next => simp
  | suggest text =>
    split
    next h => simp [target, h]
    next h => simp [h]
  | finish => exact absurd rfl hact

/-- Nothing passes when a completion is over. -/
theorem not_passes_completed (act : Act) : ¬ act.Passes .completed := by
  cases act <;> simp [Passes]

/-- What a call does to the world, and whether it is refused. -/
def result (act : Act) (w : World κ ν) (k : CompletionId) (completion : Completion) :
    World.Result κ ν :=
  match act with
  | .complete text terminal => w.complete k completion text terminal
  | .suggest text => w.suggest k completion text
  | .finish => w.finish k completion

end Act

/-- A call on a completion in a run: the world in which it is carried out, and the completion as it
is there. -/
structure Attempt (κ ν : Type) where
  /-- The index of the completion. -/
  id : CompletionId
  /-- The completion. -/
  completion : Completion
  /-- The call. -/
  act : Act
  /-- The world before it. -/
  before : World κ ν

namespace Attempt

/-- What comes of a call. -/
def result (a : Attempt κ ν) : World.Result κ ν := a.act.result a.before a.id a.completion

/-- A call passes the checks: it is accepted, or refused only since nobody waits any more. -/
def Passed (a : Attempt κ ν) : Prop := a.result.2 = .ok () ∨ a.result.2 = .error .stale

end Attempt

/-- The call on a completion that a call is, if it is one, and how it names the completion. -/
def Call.act? : Call κ ν → Option (Option CompletionId × Act)
  | .complete k? text terminal => some (k?, .complete text terminal)
  | .suggest k? text => some (k?, .suggest text)
  | .finish k? => some (k?, .finish)
  | _ => none

namespace World

variable {client : Client κ ν} {w w' : World κ ν} {k : CompletionId} {a : Attempt κ ν}

/-- The call on a completion that is carried out when the innermost job is taken up. -/
def attempt? (w : World κ ν) : Option (Attempt κ ν) :=
  match w.agenda with
  | .run (.call call _) :: rest =>
    call.act?.bind fun (k?, act) =>
      w.completions[w.completionId k?]?.map fun completion =>
        { id := w.completionId k?, completion, act, before := { w with agenda := rest } }
  | _ => none

/-- The calls on completion `k` along a run. -/
def attempts (w : World κ ν) (k : CompletionId) (choices : List (Choice κ ν)) :
    List (Attempt κ ν) :=
  ((w.stepped choices).filterMap attempt?).filter (·.id = k)

end World

/-! ### What passes -/

namespace World

variable {w : World κ ν} {k : CompletionId} {completion : Completion} {session : Session κ}
  {entry : Entry κ}

theorem setStatus_self (hk : w.completions[k]? = some completion) :
    w.setStatus k completion.status = w := by
  have hsame : w.completions.modify k ({ · with status := completion.status }) = w.completions := by
    refine List.ext_getElem? fun j => ?_
    rw [List.getElem?_modify]
    by_cases hkj : k = j
    · subst hkj
      simp [hk]
    · simp [hkj]
  rw [setStatus, hsame]

/-- The world in which a completion has ended and the entry that waited for it is edited again. -/
def resumed (w : World κ ν) (k : CompletionId) (completion : Completion) (session : Session κ)
    (entry : Entry κ) : World κ ν :=
  (((w.setStatus k .completed).write (session.connection?.getD 0)
    (completion.redrawing session entry)).changeSession completion.session
      ({ · with phase := .editing entry })).schedule completion.session

/-- What ends is waited for, and is edited again. -/
theorem finish_of_waits (hopen : completion.status ≠ .completed)
    (hs : w.sessions[completion.session]? = some session)
    (hphase : session.phase = .completing entry) (hid : entry.id = completion.entryId) :
    w.finish k completion = (w.resumed k completion session entry, .ok ()) := by
  rw [World.finish, if_neg hopen, resumed, ← redrawn_eq]
  simp only [setStatus_sessions, hs, hphase]
  exact if_pos hid

/-- What ends is not waited for, and nothing but its status moves. -/
theorem finish_of_not_waits (hopen : completion.status ≠ .completed)
    (hwait : ∀ session entry, w.sessions[completion.session]? = some session →
      session.phase = .completing entry → entry.id ≠ completion.entryId) :
    w.finish k completion = (w.setStatus k .completed, .ok ()) := by
  rw [World.finish, if_neg hopen]
  cases hs : w.sessions[completion.session]? with
  | none => simp [hs]
  | some session =>
    cases hphase : session.phase with
    | idle | editing entry => simp [hs, hphase]
    | completing entry => simp [hs, hphase, hwait session entry hs hphase]

/-- What ends is waited for, or nothing but its status moves. -/
theorem finish_cases (hopen : completion.status ≠ .completed) :
    w.finish k completion = (w.setStatus k .completed, .ok ()) ∨
      ∃ session entry, w.finish k completion = (w.resumed k completion session entry, .ok ()) := by
  by_cases hwait : ∃ session entry, w.sessions[completion.session]? = some session ∧
      session.phase = .completing entry ∧ entry.id = completion.entryId
  · obtain ⟨session, entry, hs, hphase, hid⟩ := hwait
    exact .inr ⟨session, entry, finish_of_waits hopen hs hphase hid⟩
  · refine .inl (finish_of_not_waits hopen fun session entry hs hphase hid => ?_)
    exact hwait ⟨session, entry, hs, hphase, hid⟩

@[simp]
theorem resumed_completions :
    (w.resumed k completion session entry).completions =
      (w.setStatus k .completed).completions := by
  simp [resumed]

end World

namespace Act

variable {act : Act} {w : World κ ν} {k : CompletionId} {completion : Completion}

/-- A call that does not pass is refused and does nothing. -/
theorem result_of_not_passes (h : ¬ act.Passes completion.status) :
    ∃ why, why ≠ .stale ∧ act.result w k completion = (w, .error why) := by
  cases act with
  | complete text terminal =>
    rw [result, World.complete]
    split
    next c _ => exact ⟨.unsupported c, by simp, rfl⟩
    next hsupported =>
      have hpending : completion.status ≠ .pending := fun hpending => h ⟨hsupported, hpending⟩
      exact ⟨.illegalStatus .complete completion.status, by simp, if_pos hpending⟩
  | suggest text =>
    exact ⟨.illegalStatus .suggest completion.status, by simp, if_neg h⟩
  | finish =>
    exact ⟨.illegalStatus .finish .completed, by simp, if_pos (not_not.1 h)⟩

/-- A call that passes moves the status. It is refused at most since nobody waits, and never if it
ends the completion. -/
theorem result_of_passes (h : act.Passes completion.status) :
    (act.result w k completion).1.completions = (w.setStatus k act.target).completions ∧
      ((act.result w k completion).2 = .ok () ∨
        act ≠ .finish ∧ (act.result w k completion).2 = .error .stale) := by
  cases act with
  | complete text terminal =>
    obtain ⟨hsupported, hpending⟩ := h
    rw [result, World.complete, hsupported]
    simp only [hpending, ne_eq, not_true_eq_false, if_false]
    split
    next => exact ⟨rfl, .inr ⟨by simp, rfl⟩⟩
    next =>
      split
      next => exact ⟨rfl, .inl rfl⟩
      next => exact ⟨by simp [target], .inl rfl⟩
  | suggest text =>
    have hsuggest : completion.status = .pending ∨ completion.status = .completing := h
    rw [result, World.suggest, if_pos hsuggest]
    dsimp only
    split
    next => exact ⟨rfl, .inr ⟨by simp, rfl⟩⟩
    next => exact ⟨by simp [target], .inl rfl⟩
  | finish =>
    obtain hfinish | ⟨session, entry, hfinish⟩ := World.finish_cases (w := w) (k := k) h <;>
      rw [result, hfinish]
    · exact ⟨rfl, .inl rfl⟩
    · exact ⟨World.resumed_completions, .inl rfl⟩

/-- A call does nothing to the completions but to move the status of its own. -/
theorem completions_result (act : Act) (hk : w.completions[k]? = some completion) :
    (act.result w k completion).1.completions =
      (w.setStatus k (act.after completion.status)).completions := by
  by_cases h : act.Passes completion.status
  · rw [after, if_pos h]
    exact (result_of_passes h).1
  · obtain ⟨why, -, hresult⟩ := result_of_not_passes (w := w) (k := k) h
    rw [after, if_neg h, hresult, World.setStatus_self hk]

end Act

namespace Attempt

variable {a : Attempt κ ν}

theorem passed_iff : a.Passed ↔ a.act.Passes a.completion.status := by
  constructor
  · intro h
    by_contra hnot
    obtain ⟨why, hwhy, hresult⟩ := Act.result_of_not_passes (w := a.before) (k := a.id) hnot
    rw [Passed, result, hresult] at h
    simp [hwhy] at h
  · intro h
    exact (Act.result_of_passes h).2.imp_right And.right

/-- An end succeeds if the completion is not over. -/
theorem result_eq_ok_iff (hact : a.act = .finish) :
    a.result.2 = .ok () ↔ a.completion.status ≠ .completed := by
  constructor
  · intro h
    have hpassed : a.Passed := .inl h
    rwa [passed_iff, hact] at hpassed
  · intro h
    have hpasses : a.act.Passes a.completion.status := by
      rw [hact]
      exact h
    exact (Act.result_of_passes hpasses).2.resolve_right fun hstale => hstale.1 hact

end Attempt

/-! ### The calls of a run -/

/-- The calls on one completion that was in a status, each with the completion as it was found: its
status is what the calls before it have come to. -/
def Attempts : Status → List (Attempt κ ν) → Prop
  | _, [] => True
  | status, a :: rest => a.completion.status = status ∧ Attempts (a.act.after status) rest

/-- The status that some calls come to. -/
def statusAfter (status : Status) (attempts : List (Attempt κ ν)) : Status :=
  attempts.foldl (fun status a => a.act.after status) status

section Lists

variable {status : Status} {a : Attempt κ ν} {earlier later attempts : List (Attempt κ ν)}

theorem statusAfter_append :
    statusAfter status (earlier ++ later) = statusAfter (statusAfter status earlier) later :=
  List.foldl_append

theorem statusAfter_cons :
    statusAfter status (a :: later) = statusAfter (a.act.after status) later := rfl

theorem attempts_append : Attempts status (earlier ++ later) ↔
    Attempts status earlier ∧ Attempts (statusAfter status earlier) later := by
  induction earlier generalizing status with
  | nil => exact ⟨fun h => ⟨trivial, h⟩, And.right⟩
  | cons b earlier ih => exact (and_congr_right' ih).trans and_assoc.symm

/-- A call finds the status that those before it have come to. -/
theorem Attempts.status_eq (h : Attempts status (earlier ++ a :: later)) :
    a.completion.status = statusAfter status earlier :=
  (attempts_append.1 h).2.1

/-- Calls move a status onward. -/
theorem onward_statusAfter (status : Status) (attempts : List (Attempt κ ν)) :
    status.Onward (statusAfter status attempts) := by
  induction attempts generalizing status with
  | nil => exact .inl rfl
  | cons a attempts ih => exact (a.act.onward_after status).trans (ih _)

/-- A completion that is not over is over after some calls if one of them ends it. -/
theorem statusAfter_eq_completed_iff (hopen : status ≠ .completed) :
    statusAfter status attempts = .completed ↔ ∃ a ∈ attempts, a.act = .finish := by
  induction attempts generalizing status with
  | nil => simpa [statusAfter] using hopen
  | cons a attempts ih =>
    rw [statusAfter_cons]
    by_cases hfinish : a.act = .finish
    · have hover : statusAfter (a.act.after status) attempts = .completed := by
        rw [hfinish, Act.after_finish]
        exact (onward_statusAfter .completed attempts).eq_completed
      exact ⟨fun _ => ⟨a, List.mem_cons_self, hfinish⟩, fun _ => hover⟩
    · rw [ih (Act.after_ne_completed hopen hfinish)]
      simp [hfinish]

/-- A call that has passed has led to a status from which the later calls go on. -/
theorem Attempts.onward_of_passed (h : Attempts status (earlier ++ a :: later)) {b : Attempt κ ν}
    (hb : b ∈ earlier) (hpassed : b.Passed) : b.act.target.Onward a.completion.status := by
  obtain ⟨first, rest, rfl⟩ := List.append_of_mem hb
  have hb := (attempts_append.1 h).1.status_eq
  rw [Attempt.passed_iff, hb] at hpassed
  rw [h.status_eq, statusAfter_append, statusAfter_cons, Act.after, if_pos hpassed]
  exact onward_statusAfter ..

/-- How a call on a completion stands to those before and after it. -/
structure Attempt.Obeys (a : Attempt κ ν) (earlier later : List (Attempt κ ν)) : Prop where
  /-- It passes exactly if the status allows it that all calls before have come to. -/
  passes : a.Passed ↔ a.act.Passes (statusAfter .pending earlier)
  /-- When text passes, nothing has passed before, and nothing but the end passes afterwards. -/
  complete : ∀ text terminal, a.act = .complete text terminal → a.Passed →
    (∀ b ∈ earlier, ¬ b.Passed) ∧ ∀ b ∈ later, b.Passed → b.act = .finish
  /-- When suggestions pass, nothing but suggestions has passed before. -/
  suggest : ∀ text, a.act = .suggest text → a.Passed →
    ∀ b ∈ earlier, b.Passed → ∃ text, b.act = .suggest text
  /-- Exactly the first end succeeds. -/
  finish : a.act = .finish → (a.result.2 = .ok () ↔ ∀ b ∈ earlier, b.act ≠ .finish)
  /-- After an end everything is refused and has no effect. -/
  refused : (∃ b ∈ earlier, b.act = .finish) → ∃ why, a.result = (a.before, .error why)

/-- **The protocol of one completion**: it depends on the calls alone. -/
theorem Attempts.obeys (h : Attempts .pending (earlier ++ a :: later)) : a.Obeys earlier later where
  passes := by rw [Attempt.passed_iff, h.status_eq]
  complete text terminal hact hpassed := by
    have hpending : a.completion.status = .pending := by
      rw [Attempt.passed_iff, hact] at hpassed
      exact hpassed.2
    refine ⟨fun b hb hbpassed => ?_, fun b hb hbpassed => ?_⟩
    · have honward := h.onward_of_passed hb hbpassed
      rw [hpending] at honward
      exact b.act.not_onward_pending honward
    · obtain ⟨between, last, rfl⟩ := List.append_of_mem hb
      rw [← List.cons_append, ← List.append_assoc] at h
      have honward := h.onward_of_passed (b := a) (by simp) hpassed
      rw [hact] at honward
      rw [Attempt.passed_iff] at hbpassed
      exact Act.eq_finish_of_onward honward hbpassed
  suggest text hact hpassed b hb hbpassed := by
    have honward := h.onward_of_passed hb hbpassed
    rw [Attempt.passed_iff, hact] at hpassed
    exact Act.eq_suggest_of_onward honward hpassed
  finish hact := by
    rw [Attempt.result_eq_ok_iff hact, h.status_eq, Ne,
      statusAfter_eq_completed_iff (by exact nofun)]
    push Not
    rfl
  refused hfinish := by
    have hover : a.completion.status = .completed := by
      rw [h.status_eq, statusAfter_eq_completed_iff (by exact nofun)]
      exact hfinish
    have hnot : ¬ a.act.Passes a.completion.status := by
      rw [hover]
      exact a.act.not_passes_completed
    obtain ⟨why, -, hresult⟩ := Act.result_of_not_passes (w := a.before) (k := a.id) hnot
    exact ⟨why, hresult⟩

end Lists

namespace World

variable {client : Client κ ν} {w w' : World κ ν} {k : CompletionId} {a : Attempt κ ν}
  {completion : Completion}

theorem attempt?_eq_some_iff :
    w.attempt? = some a ↔ ∃ call next rest k?, w.agenda = .run (.call call next) :: rest ∧
      call.act? = some (k?, a.act) ∧ w.completionId k? = a.id ∧
        w.completions[a.id]? = some a.completion ∧ { w with agenda := rest } = a.before := by
  constructor
  · intro h
    unfold attempt? at h
    split at h
    next call next rest hagenda =>
      obtain ⟨⟨k?, act⟩, hact, h⟩ := Option.bind_eq_some_iff.1 h
      obtain ⟨completion, hk, rfl⟩ := Option.map_eq_some_iff.1 h
      exact ⟨call, next, rest, k?, hagenda, hact, rfl, hk, rfl⟩
    next => cases h
  · rintro ⟨call, next, rest, k?, hagenda, hact, hid, hk, hbefore⟩
    obtain ⟨id, completion, act, before⟩ := a
    dsimp only at hact hid hk hbefore
    subst hid hbefore
    rw [attempt?, hagenda]
    dsimp only
    rw [hact]
    simp [hk]

/-- A call that names a completion is carried out on it. -/
theorem attempt?_ne_none {call : Call κ ν} {next : Answer → Program κ ν} {rest : List (Job κ ν)}
    {k? : Option CompletionId} {act : Act} (hagenda : w.agenda = .run (.call call next) :: rest)
    (hact : call.act? = some (k?, act))
    (hk : w.completions[w.completionId k?]? = some completion) : w.attempt? ≠ none := by
  have hsome : w.attempt? = some
      { id := w.completionId k?, completion, act, before := { w with agenda := rest } } :=
    attempt?_eq_some_iff.2 ⟨call, next, rest, k?, hagenda, hact, rfl, hk, rfl⟩
  rw [hsome]
  exact nofun

theorem attempt?_lookup (h : w.attempt? = some a) :
    w.completions[a.id]? = some a.completion := by
  obtain ⟨-, -, -, -, -, -, -, hk, -⟩ := attempt?_eq_some_iff.1 h
  exact hk

theorem perform_of_act? {call : Call κ ν} {k? : Option CompletionId} {act : Act}
    (h : call.act? = some (k?, act)) (next : Answer → Program κ ν) :
    w.perform client call next = w.onCompletion k? next fun k completion =>
      (act.result w k completion).1.reply next (answerOf (act.result w k completion).2) := by
  cases call <;> cases h <;> rfl

/-- A call on a completion is carried out in the world without its job, and answered. -/
theorem step_of_attempt? (client : Client κ ν) (h : w.attempt? = some a) :
    ∃ call next rest, w.agenda = .run (.call call next) :: rest ∧
      a.before = { w with agenda := rest } ∧
        w.step client = a.result.1.reply next (answerOf a.result.2) := by
  obtain ⟨call, next, rest, k?, hagenda, hact, hid, hk, hbefore⟩ := attempt?_eq_some_iff.1 h
  refine ⟨call, next, rest, hagenda, hbefore.symm, ?_⟩
  rw [← hid] at hk
  rw [step, hagenda]
  dsimp only
  rw [perform_of_act? hact, Attempt.result, ← hid, ← hbefore]
  rw [onCompletion]
  dsimp only [completionId] at hk ⊢
  rw [hk]

theorem onSession_completions {s : SessionId} {next : Answer → Program κ ν}
    {act : Session κ → World κ ν} (h : ∀ session, (act session).completions = w.completions) :
    (w.onSession s next act).completions = w.completions := by
  unfold onSession
  split
  · rfl
  · exact h _

theorem install_completions (s : SessionId) (c : ConnectionId) :
    (w.install s c).1.completions = w.completions := by
  unfold World.install
  split
  · split <;> rfl
  · rfl

theorem uninstall_completions (s : SessionId) :
    (w.uninstall s).1.completions = w.completions := by
  unfold World.uninstall
  split
  · rfl
  · split <;> rfl

theorem request_completions (s : SessionId) (r : Request κ) :
    (w.request s r).1.completions = w.completions := by
  unfold World.request
  split
  · rfl
  · split
    · rfl
    · split
      · simp
      · rfl

theorem type_completions (c : ConnectionId) (text : List Char) (next : Answer → Program κ ν) :
    (w.type c text next).completions = w.completions := by
  unfold World.type
  split
  · rfl
  · rfl
  · split <;> rfl

theorem resize_completions (c : ConnectionId) (size : Size) (next : Answer → Program κ ν) :
    (w.resize client c size next).completions = w.completions := by
  unfold World.resize
  split
  · rfl
  · rfl
  · split
    · rfl
    · dsimp only
      split <;> rfl

/-- A call of another kind leaves the completions as they are. -/
theorem perform_completions {call : Call κ ν} (h : call.act? = none)
    (next : Answer → Program κ ν) : (w.perform client call next).completions = w.completions := by
  cases call with
  | complete | suggest | finish => cases h
  | install s c => exact onSession_completions fun _ => install_completions s c
  | uninstall s => exact onSession_completions fun _ => uninstall_completions s
  | request s r => exact onSession_completions fun _ => request_completions s r
  | deliver | setContinuation | addFunction | addBuiltins | changeHistory | history | setOnRead
  | setOnResize | handlers => exact onSession_completions fun _ => rfl
  | schedule s => exact onSession_completions fun _ => schedule_completions w s
  | release | listen | runTasks | note => rfl
  | write c text => exact write_completions w c text
  | type c text => exact type_completions c text next
  | resize c size => exact resize_completions c size next
  | inspect k? =>
    rw [perform, onCompletion]
    split <;> rfl

/-- A step that is no call on a completion leaves them as they are, or begins one. -/
theorem step_completions (client : Client κ ν) (h : w.attempt? = none) :
    (w.step client).completions = w.completions ∨ ∃ completion,
      (w.step client).completions = w.completions ++ [completion] ∧
        completion.status = .pending := by
  cases hagenda : w.agenda with
  | nil => exact .inl (congrArg World.completions (step_of_agenda_nil client hagenda))
  | cons job rest =>
    have hturn := turn_step client hagenda
    cases job with
    | run p =>
      left
      cases p with
      | done =>
        rw [step, hagenda]
      | call call next =>
        rw [step, hagenda]
        cases hact : call.act? with
        | none => exact perform_completions hact next
        | some pair =>
          -- there is no such completion
          obtain ⟨k?, act⟩ := pair
          rw [attempt?, hagenda] at h
          have hnone : w.completions[w.completionId k?]? = none := by simpa [hact] using h
          replace hnone : ({ w with agenda := rest } : World κ ν).completions[
            ({ w with agenda := rest } : World κ ν).completionId k?]? = none := hnone
          dsimp only
          rw [perform_of_act? hact, onCompletion, hnone]
          rfl
    | deliver s =>
      generalize w.step client = w' at hturn ⊢
      cases hturn with
      | stop | forward | edit | submit => exact .inl (by simp)
      | ask s hh hhandled hasked hcompletion =>
        refine .inr ⟨_, rfl, ?_⟩
        rw [hcompletion]
    | tasks c limit? count next =>
      generalize w.step client = w' at hturn ⊢
      left
      cases hturn <;> simp

/-- What a call does to the completions. -/
theorem step_completions_of_attempt? (client : Client κ ν) (h : w.attempt? = some a) :
    (w.step client).completions =
      (w.setStatus a.id (a.act.after a.completion.status)).completions := by
  have hk := attempt?_lookup h
  obtain ⟨call, next, rest, -, hbefore, hstep⟩ := step_of_attempt? client h
  replace hk : a.before.completions[a.id]? = some a.completion := by rwa [hbefore]
  rw [hstep, reply_completions, Attempt.result, Act.completions_result a.act hk, hbefore]
  rfl

/-- **Step lemma.** A completion stays, and its status moves by the call on it, if there is one. -/
theorem step_completion (client : Client κ ν) (hk : w.completions[k]? = some completion) :
    (w.step client).completions[k]? = some { completion with
      status := statusAfter completion.status (w.attempt?.toList.filter (·.id = k)) } := by
  cases h : w.attempt? with
  | none =>
    obtain hsame | ⟨begun, hbegun, -⟩ := step_completions client h
    · rw [hsame, hk]
      rfl
    · rw [hbegun, List.getElem?_append_left (List.getElem?_eq_some_iff.1 hk).1, hk]
      rfl
  | some a =>
    rw [step_completions_of_attempt? client h, getElem?_completions_setStatus, hk]
    by_cases hid : a.id = k
    · subst hid
      obtain rfl := Option.some_inj.1 ((attempt?_lookup h).symm.trans hk)
      simp [statusAfter]
    · simp [hid, statusAfter]

@[simp] theorem attempts_nil (w : World κ ν) (k : CompletionId) : w.attempts k [] = [] := rfl

@[simp]
theorem attempts_step (w : World κ ν) (k : CompletionId) (client : Client κ ν)
    (choices : List (Choice κ ν)) :
    w.attempts k (.step client :: choices) =
      w.attempt?.toList.filter (·.id = k) ++ (w.step client).attempts k choices := by
  rw [attempts, stepped, List.filterMap_cons]
  cases w.attempt? with
  | none => rfl
  | some a => simp [attempts, List.filter_cons]; split <;> rfl

/-- **Run lemma.** A completion stays, its status is what the calls on it come to, and each of them
finds the status that those before it have come to. -/
theorem play_completion (hk : w.completions[k]? = some completion) (choices : List (Choice κ ν)) :
    (w.play choices).completions[k]? = some { completion with
        status := statusAfter completion.status (w.attempts k choices) } ∧
      Attempts completion.status (w.attempts k choices) := by
  induction choices generalizing w completion with
  | nil => exact ⟨hk, trivial⟩
  | cons choice choices ih =>
    cases choice with
    | run p => exact ih (w := w.push (.run p)) hk
    | step client =>
      obtain ⟨hlast, hrest⟩ := ih (step_completion client hk)
      have hone : Attempts completion.status (w.attempt?.toList.filter (·.id = k)) := by
        cases h : w.attempt? with
        | none => trivial
        | some a =>
          by_cases hid : a.id = k
          · subst hid
            obtain rfl := Option.some_inj.1 ((attempt?_lookup h).symm.trans hk)
            simp [Attempts]
          · simp [hid, Attempts]
      rw [attempts_step, statusAfter_append, attempts_append]
      exact ⟨hlast, hone, hrest⟩

/-- A completion begins as pending. -/
theorem pending_of_step (client : Client κ ν) (hk : w.completions[k]? = none)
    (hbegun : (w.step client).completions[k]? = some completion) :
    completion.status = .pending := by
  cases h : w.attempt? with
  | none =>
    obtain hsame | ⟨begun, happend, hpending⟩ := step_completions client h
    · rw [hsame, hk] at hbegun
      cases hbegun
    · rw [happend] at hbegun
      obtain ⟨-, hold⟩ | ⟨-, rfl⟩ := lt_or_eq_of_getElem?_concat hbegun
      · rw [hk] at hold
        cases hold
      · exact hpending
  | some a =>
    rw [step_completions_of_attempt? client h, getElem?_completions_setStatus, hk] at hbegun
    cases hbegun

/-- Before a completion is begun there are no calls on it, and it is begun as pending. -/
theorem play_of_unbegun (hk : w.completions[k]? = none) (choices : List (Choice κ ν)) :
    Attempts .pending (w.attempts k choices) ∧ ∀ completion,
      (w.play choices).completions[k]? = some completion →
        completion.status = statusAfter .pending (w.attempts k choices) := by
  induction choices generalizing w with
  | nil => exact ⟨trivial, fun _ h => absurd (hk.symm.trans h) nofun⟩
  | cons choice choices ih =>
    cases choice with
    | run p => exact ih (w := w.push (.run p)) hk
    | step client =>
      have hnone : w.attempt?.toList.filter (·.id = k) = [] := by
        cases h : w.attempt? with
        | none => rfl
        | some a =>
          have hid : a.id ≠ k := fun hid => by simp [attempt?_lookup h, ← hid] at hk
          simp [hid]
      rw [attempts_step, hnone, List.nil_append]
      cases hbegun : (w.step client).completions[k]? with
      | none => exact ih hbegun
      | some completion =>
        have hpending := pending_of_step client hk hbegun
        obtain ⟨hlast, hattempts⟩ := play_completion hbegun choices
        rw [hpending] at hattempts hlast
        refine ⟨hattempts, fun completion' h => ?_⟩
        obtain rfl := Option.some_inj.1 (hlast.symm.trans h)
        rfl

/-- What a step may do to the statuses: a completion is begun, or its status moves onward. -/
theorem status_step (client : Client κ ν)
    (hk : (w.step client).completions[k]? = some completion) :
    (w.completions[k]? = none ∧ completion.status = .pending) ∨
      ∃ before, w.completions[k]? = some before ∧ before.status.Onward completion.status := by
  cases hbefore : w.completions[k]? with
  | none => exact .inl ⟨rfl, pending_of_step client hbefore hk⟩
  | some before =>
    obtain rfl := Option.some_inj.1 ((step_completion client hbefore).symm.trans hk)
    exact .inr ⟨before, rfl, onward_statusAfter ..⟩

end World

end LineEditor
