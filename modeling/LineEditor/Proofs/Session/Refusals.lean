import LineEditor.Proofs.Session.LifeCycle
import LineEditor.Proofs.Session.Protocol

/-!
# Calls that are refused

Six calls can be refused: those that install and uninstall a session or make a request, and the
three calls on a completion. A refusal leaves the world as it was, with one exception. When a
completion is no longer waited for, putting text into the line or listing suggestions moves its
status first and is refused as stale afterwards.

Nothing comes of such a status. The request of the completion is not live then, and since numbers
are not used again it never will be (`World.Gone`): the completion can be ended, once, and that does
nothing but move the status once more (`World.EndsOnce`). `World.Refuses` puts together what holds
of a refusal, and `World.Reachable.refused_harmless` proves it of all worlds that can be reached.
-/

namespace LineEditor

open World (unsupported?)

variable {κ ν : Type}

/-! ### What is refused -/

/-- The cause of a refusal lies in the session. -/
def Refusal.OfSession : Refusal → Prop
  | .alreadyReading | .notInstalled | .alreadyInstalled => True
  | .illegalStatus _ _ | .stale | .unsupported _ => False

namespace World

variable {w w' : World κ ν} {k : CompletionId} {completion : Completion} {why : Refusal}
  {s : SessionId}

/-- What comes of a call that can be refused: the world after it, and the refusal. There is nothing
to carry it out on when the session was given up, or there is no such completion. -/
def result? (w : World κ ν) : Call κ ν → Option (Result κ ν)
  | .install s c => (w.session? s).map fun _ => w.install s c
  | .uninstall s => (w.session? s).map fun _ => w.uninstall s
  | .request s r => (w.session? s).map fun _ => w.request s r
  | .complete k? text terminal =>
    w.completions[w.completionId k?]?.map (w.complete (w.completionId k?) · text terminal)
  | .suggest k? text => w.completions[w.completionId k?]?.map (w.suggest (w.completionId k?) · text)
  | .finish k? => w.completions[w.completionId k?]?.map (w.finish (w.completionId k?))
  | _ => none

/-- Client code goes on with what has come of its call. -/
theorem perform_of_result? {call : Call κ ν} {result : Result κ ν}
    (h : w.result? call = some result) (client : Client κ ν) (next : Answer → Program κ ν) :
    w.perform client call next = result.1.reply next (answerOf result.2) := by
  cases call with
  | install | uninstall | request =>
    obtain ⟨session, hs, rfl⟩ := Option.map_eq_some_iff.1 h
    simp only [perform, onSession, hs]
  | complete | suggest | finish =>
    obtain ⟨completion, hk, rfl⟩ := Option.map_eq_some_iff.1 h
    simp only [perform, onCompletion, hk]
  | _ => cases h

/-- What comes of a call on a completion. -/
theorem result?_of_act? {call : Call κ ν} {k? : Option CompletionId} {act : Act}
    (h : call.act? = some (k?, act)) :
    w.result? call = w.completions[w.completionId k?]?.map (act.result w (w.completionId k?)) := by
  cases call <;> cases h <;> rfl

theorem install_refused {c : ConnectionId} (h : w.install s c = (w', .error why)) :
    w' = w ∧ why.OfSession := by
  unfold World.install at h
  split at h
  · split at h
    · cases h
      exact ⟨rfl, trivial⟩
    · cases h
  · cases h
    exact ⟨rfl, trivial⟩

theorem uninstall_refused (h : w.uninstall s = (w', .error why)) : w' = w ∧ why.OfSession := by
  unfold World.uninstall at h
  split at h
  · cases h
    exact ⟨rfl, trivial⟩
  · split at h
    · cases h
      exact ⟨rfl, trivial⟩
    · cases h

theorem request_refused {r : Request κ} (h : w.request s r = (w', .error why)) :
    w' = w ∧ why.OfSession := by
  unfold World.request at h
  split at h
  · cases h
    exact ⟨rfl, trivial⟩
  · split at h
    · cases h
      exact ⟨rfl, trivial⟩
    · split at h
      · cases h
      · cases h
        exact ⟨rfl, trivial⟩

end World

namespace Act

variable {act : Act} {w w' : World κ ν} {k : CompletionId} {completion : Completion} {why : Refusal}

/-- A call that passes is refused since nobody waits for its completion, after its status has
moved. -/
theorem refused_of_passes (hpasses : act.Passes completion.status)
    (h : act.result w k completion = (w', .error why)) :
    why = .stale ∧ act ≠ .finish ∧ w.waiting? completion = none ∧
      w' = w.setStatus k act.target := by
  obtain hok | ⟨hact, hstale⟩ := (result_of_passes (w := w) (k := k) hpasses).2
  · rw [h] at hok
    cases hok
  · rw [h] at hstale
    cases hstale
    refine ⟨rfl, hact, ?_⟩
    have hwaiting : ∀ status, (w.setStatus k status).waiting? completion = w.waiting? completion :=
      fun _ => rfl
    cases act with
    | complete text terminal =>
      obtain ⟨hsupported, hpending⟩ := hpasses
      simp only [result, World.complete, hsupported, hpending, ne_eq, not_true_eq_false,
        if_false, hwaiting] at h
      split at h
      next hnone =>
        cases h
        exact ⟨hnone, rfl⟩
      next => split at h <;> cases h
    | suggest text =>
      have hstatus : completion.status = .pending ∨ completion.status = .completing := hpasses
      simp only [result, World.suggest, if_pos hstatus, hwaiting] at h
      split at h
      next hnone =>
        cases h
        exact ⟨hnone, rfl⟩
      next => cases h
    | finish => exact absurd rfl hact

/-- The three causes for which a call on a completion is refused: its text, the status, and that
nobody waits. Only the last comes after the status has moved. -/
theorem refused_cases (h : act.result w k completion = (w', .error why)) :
    (∃ text terminal c, act = .complete text terminal ∧ unsupported? text = some c ∧
        why = .unsupported c ∧ w' = w) ∨
      (∃ call status, why = .illegalStatus call status ∧ w' = w ∧
        ∀ text terminal, act = .complete text terminal → unsupported? text = none) ∨
      why = .stale ∧ act.Passes completion.status ∧ act ≠ .finish ∧
        w.waiting? completion = none ∧ w' = w.setStatus k act.target := by
  by_cases hpasses : act.Passes completion.status
  · obtain ⟨hstale, hact, hnone, hmoved⟩ := refused_of_passes hpasses h
    exact .inr (.inr ⟨hstale, hpasses, hact, hnone, hmoved⟩)
  · cases act with
    | complete text terminal =>
      rw [result, World.complete] at h
      cases htext : unsupported? text with
      | some c =>
        rw [htext] at h
        cases h
        exact .inl ⟨text, terminal, c, rfl, htext, rfl, rfl⟩
      | none =>
        have hpending : completion.status ≠ .pending := fun hpending => hpasses ⟨htext, hpending⟩
        rw [htext] at h
        dsimp only at h
        rw [if_pos hpending] at h
        cases h
        refine .inr (.inl ⟨_, _, rfl, rfl, fun text' terminal' hact => ?_⟩)
        cases hact
        exact htext
    | suggest text =>
      have hstatus : ¬ (completion.status = .pending ∨ completion.status = .completing) := hpasses
      rw [result, World.suggest, if_neg hstatus] at h
      cases h
      exact .inr (.inl ⟨_, _, rfl, rfl, by simp⟩)
    | finish =>
      have hover : completion.status = .completed := not_not.1 hpasses
      rw [result, World.finish, if_pos hover] at h
      cases h
      exact .inr (.inl ⟨_, _, rfl, rfl, by simp⟩)

end Act

/-! ### What is no longer waited for -/

/-- A number that was given before and is not live will not be live again. -/
theorem Succession.not_live {live live' : Option (Nat × Request κ)} {next next' id : Nat}
    {milestones : List (Milestone κ)} (h : Succession live next milestones live' next')
    (hid : id < next) (hnot : ∀ r, live ≠ some (id, r)) :
    id < next' ∧ ∀ r, live' ≠ some (id, r) := by
  induction h with
  | nil => exact ⟨hid, hnot⟩
  | accepted _ ih =>
    refine ih (Nat.lt_succ_of_lt hid) ?_
    rintro r ⟨⟩
    exact Nat.lt_irrefl _ hid
  | delivered _ ih | dropped _ ih => exact ih hid nofun

namespace World

variable {client : Client κ ν} {w w' : World κ ν} {k : CompletionId} {completion : Completion}
  {s : SessionId}

/-- The request of a completion was live once, and is not any more. -/
def Gone (w : World κ ν) (completion : Completion) : Prop :=
  ∀ session, w.sessions[completion.session]? = some session →
    completion.entryId < session.nextId ∧ ∀ r, session.live? ≠ some (completion.entryId, r)

/-- No session comes or goes. -/
theorem Turn.length_sessions {job : Job κ ν} (hturn : Turn client w job w') :
    w'.sessions.length = w.sessions.length := by
  cases hturn <;> simp [changeSession]

theorem length_sessions_play (w : World κ ν) (choices : List (Choice κ ν)) :
    (w.play choices).sessions.length = w.sessions.length :=
  (run_play w choices).induction (P := (·.sessions.length = w.sessions.length))
    (fun _ _ => id) (fun _ _ _ _ _ _ hturn => hturn.length_sessions.trans) rfl

/-- **Run lemma.** A request that is gone never comes back. -/
theorem Gone.play (h : w.Gone completion) (choices : List (Choice κ ν)) :
    (w.play choices).Gone completion := by
  intro last hlast
  -- the session was there at first, too
  obtain ⟨session, hs⟩ : ∃ session, w.sessions[completion.session]? = some session := by
    have hlt := (List.getElem?_eq_some_iff.1 hlast).1
    rw [length_sessions_play] at hlt
    exact ⟨_, List.getElem?_eq_getElem hlt⟩
  obtain ⟨last', hlast', hsuccession⟩ := succession_play hs choices
  obtain rfl := Option.some_inj.1 (hlast.symm.trans hlast')
  obtain ⟨hid, hnot⟩ := h session hs
  exact hsuccession.not_live hid hnot

/-- A completion that is not over and that nobody waits for belongs to a request that is gone. -/
theorem Owned.gone (h : Owned w) (hk : w.completions[k]? = some completion)
    (hopen : completion.status ≠ .completed) (hwait : w.waiting? completion = none) :
    w.Gone completion := by
  intro session hs
  have hfits := h _ session hs
  refine ⟨hfits.past_lt k completion hk rfl, fun r hlive => ?_⟩
  cases hphase : session.phase with
  | idle =>
    rw [Session.live?_of_idle hphase] at hlive
    cases hlive
  | editing entry =>
    -- while a request is edited all its completions are over
    rw [Session.live?_of_editing hphase, Option.some_inj, Prod.mk.injEq] at hlive
    have hstage : session.phase.stage = .editing completion.entryId := by simp [hphase, hlive.1]
    exact hopen (hfits.editing _ hstage k completion hk ⟨rfl, rfl⟩)
  | completing entry =>
    rw [Session.live?_of_completing hphase, Option.some_inj, Prod.mk.injEq] at hlive
    have hstage : session.phase.stage = .completing completion.entryId := by
      simp [hphase, hlive.1]
    exact h.ne_of_waiting?_eq_none hwait hs hstage rfl

/-- The end of a completion whose request is gone moves the status and does nothing else. -/
theorem Gone.finish (h : w.Gone completion) (hopen : completion.status ≠ .completed) :
    w.finish k completion = (w.setStatus k .completed, .ok ()) := by
  refine finish_of_not_waits hopen fun session entry hs hphase hid => ?_
  exact (h session hs).2 entry.request (by rw [Session.live?_of_completing hphase, hid])

/-- However the run goes on, the first end of completion `k` is carried out and does nothing but
move its status, and every later one is refused and does nothing. -/
def EndsOnce (w : World κ ν) (k : CompletionId) : Prop :=
  ∀ (agenda agenda' : List (Job κ ν)) (choices : List (Choice κ ν)) (v : World κ ν),
    v = { ({ w with agenda } : World κ ν).play choices with agenda := agenda' } →
      ((∀ a ∈ ({ w with agenda } : World κ ν).attempts k choices, a.act ≠ .finish) →
        v.result? (.finish (some k)) = some (v.setStatus k .completed, .ok ())) ∧
      ((∃ a ∈ ({ w with agenda } : World κ ν).attempts k choices, a.act = .finish) →
        v.result? (.finish (some k)) = some (v, .error (.illegalStatus .finish .completed)))

/-- A completion that is not over and whose request is gone can be ended once. -/
theorem Gone.endsOnce (h : w.Gone completion) (hk : w.completions[k]? = some completion)
    (hopen : completion.status ≠ .completed) : w.EndsOnce k := by
  rintro agenda agenda' choices v rfl
  have hgone : ({ w with agenda } : World κ ν).Gone completion := h
  have hk' : ({ w with agenda } : World κ ν).completions[k]? = some completion := hk
  -- only the status has moved until then, by the calls on the completion
  have hlast := (play_completion hk' choices).1
  have hover : statusAfter completion.status (({ w with agenda } : World κ ν).attempts k choices) =
      .completed ↔ ∃ a ∈ ({ w with agenda } : World κ ν).attempts k choices, a.act = .finish :=
    statusAfter_eq_completed_iff hopen
  refine ⟨fun hnone => ?_, fun hsome => ?_⟩
  · refine (congrArg (Option.map _) hlast).trans (congrArg some (Gone.finish ?_ ?_))
    · exact hgone.play choices
    · rw [Ne, hover]
      rintro ⟨a, ha, hact⟩
      exact hnone a ha hact
  · exact (congrArg (Option.map _) hlast).trans (congrArg some (if_pos (hover.2 hsome)))

/-! ### What a refusal leaves behind -/

/-- What holds when a call is refused: `w` is the world in which it is made, without the job that
makes it, and `w'` the world after it. -/
structure Refuses (w : World κ ν) (call : Call κ ν) (why : Refusal) (w' : World κ ν) : Prop where
  /-- Client code goes on with the refusal. -/
  answered : ∀ (client : Client κ ν) (next : Answer → Program κ ν),
    (w.push (.run (.call call next))).step client = w'.push (.run (next (.refused why)))
  /-- Sessions, connections, what is running and what was written are as before. -/
  untouched : Untouched w w'
  /-- A refusal that is not stale changes no status either, and all that follows is as if client code
  had gone on without the call. So when a text is refused, a pending completion stays pending, and
  another text is put into the line as if it were the first. -/
  unnoticed : why ≠ .stale → w' = w ∧
    ∀ (client : Client κ ν) (next : Answer → Program κ ν) (choices : List (Choice κ ν)),
      (w.push (.run (.call call next))).play (.step client :: choices) =
        (w.push (.run (next (.refused why)))).play choices
  /-- A stale call is one that puts text into the line or lists suggestions. It moves the status of
  its completion, which can be ended once afterwards, with no other effect. -/
  stale : why = .stale → ∃ k, w'.EndsOnce k ∧
    ((∃ k? text terminal, call = .complete k? text terminal ∧ w.completionId k? = k ∧
        w' = w.setStatus k .inlining) ∨
      ∃ k? text, call = .suggest k? text ∧ w.completionId k? = k ∧ w' = w.setStatus k .completing)
  /-- What is refused for its text puts a text with a control code into the line, and it names the
  first of these. -/
  unsupported : ∀ c, why = .unsupported c ↔ ∃ k? text terminal, call = .complete k? text terminal ∧
    text.find? (·.toNat < 32) = some c

section Refuses

variable {call : Call κ ν} {why : Refusal}

/-- Where a refusal comes from: the checks of a session, or a call on a completion. -/
theorem result?_refused (h : w.result? call = some (w', .error why)) :
    (w' = w ∧ why.OfSession ∧ call.act? = none) ∨
      ∃ k? act completion, call.act? = some (k?, act) ∧
        w.completions[w.completionId k?]? = some completion ∧
          act.result w (w.completionId k?) completion = (w', .error why) := by
  cases hact : call.act? with
  | some pair =>
    obtain ⟨k?, act⟩ := pair
    rw [result?_of_act? hact] at h
    obtain ⟨completion, hk, hresult⟩ := Option.map_eq_some_iff.1 h
    exact .inr ⟨k?, act, completion, rfl, hk, hresult⟩
  | none =>
    left
    cases call with
    | install s c =>
      obtain ⟨-, -, h⟩ := Option.map_eq_some_iff.1 h
      obtain ⟨hsame, hwhy⟩ := install_refused h
      exact ⟨hsame, hwhy, rfl⟩
    | uninstall s =>
      obtain ⟨-, -, h⟩ := Option.map_eq_some_iff.1 h
      obtain ⟨hsame, hwhy⟩ := uninstall_refused h
      exact ⟨hsame, hwhy, rfl⟩
    | request s r =>
      obtain ⟨-, -, h⟩ := Option.map_eq_some_iff.1 h
      obtain ⟨hsame, hwhy⟩ := request_refused h
      exact ⟨hsame, hwhy, rfl⟩
    | complete | suggest | finish => cases hact
    | _ => cases h

/-- Text is put into the line by a call on a completion. -/
theorem exists_complete_iff {k? : Option CompletionId} {act : Act} {P : List Char → Prop}
    (hact : call.act? = some (k?, act)) :
    (∃ k? text terminal, call = .complete k? text terminal ∧ P text) ↔
      ∃ text terminal, act = .complete text terminal ∧ P text := by
  cases call <;> cases hact <;> simp

theorem step_of_result? {result : Result κ ν} (h : w.result? call = some result)
    (client : Client κ ν) (next : Answer → Program κ ν) :
    (w.push (.run (.call call next))).step client =
      result.1.push (.run (next (answerOf result.2))) :=
  perform_of_result? h client next

/-- A refusal that leaves the world as it was. -/
theorem refuses_of_unchanged (h : w.result? call = some (w, .error why)) (hstale : why ≠ .stale)
    (hunsupported : ∀ c, why = .unsupported c ↔ ∃ k? text terminal,
      call = .complete k? text terminal ∧ unsupported? text = some c) : w.Refuses call why w where
  answered := step_of_result? h
  untouched := .refl w
  unnoticed _ := by
    refine ⟨rfl, fun client next choices => ?_⟩
    rw [play, move, step_of_result? h]
    rfl
  stale hwhy := absurd hwhy hstale
  unsupported := hunsupported

/-- When every session fits with the completions, a stale call leaves one that can be ended once. -/
theorem Owned.endsOnce_of_stale (h : Owned w) {act : Act}
    (hk : w.completions[k]? = some completion) (hpasses : act.Passes completion.status)
    (hact : act ≠ .finish) (hwait : w.waiting? completion = none) :
    (w.setStatus k act.target).EndsOnce k := by
  have hopen : completion.status ≠ .completed := by
    intro hover
    rw [hover] at hpasses
    exact act.not_passes_completed hpasses
  have hgone : (w.setStatus k act.target).Gone { completion with status := act.target } := by
    have hgone : w.Gone completion := h.gone hk hopen hwait
    exact hgone
  have hmoved : (w.setStatus k act.target).completions[k]? =
      some { completion with status := act.target } := by
    rw [getElem?_completions_setStatus, hk]
    simp
  refine hgone.endsOnce hmoved ?_
  cases act with
  | complete | suggest => exact nofun
  | finish => exact absurd rfl hact

/-- When every session fits with the completions, every refusal is as it should be. -/
theorem Owned.refuses_of_error (h : Owned w) (hrefused : w.result? call = some (w', .error why)) :
    w.Refuses call why w' := by
  obtain ⟨rfl, hwhy, hnone⟩ | ⟨k?, act, completion, hact, hk, hresult⟩ := result?_refused hrefused
  · refine refuses_of_unchanged hrefused (by rintro rfl; exact hwhy) fun c => ⟨?_, ?_⟩
    · rintro rfl
      exact absurd hwhy id
    · rintro ⟨k?, text, terminal, rfl, -⟩
      cases hnone
  · -- a call on a completion is refused for its text, for the status, or since nobody waits
    obtain ⟨text, terminal, c, rfl, htext, rfl, rfl⟩ | ⟨op, status, rfl, rfl, htext⟩ |
      ⟨rfl, hpasses, hfinish, hwait, rfl⟩ := Act.refused_cases hresult
    · refine refuses_of_unchanged hrefused nofun fun d => ?_
      rw [exists_complete_iff hact]
      simp [htext]
    · refine refuses_of_unchanged hrefused nofun fun d => ?_
      rw [exists_complete_iff hact]
      refine ⟨nofun, ?_⟩
      rintro ⟨text, terminal, rfl, hsome⟩
      rw [htext text terminal rfl] at hsome
      cases hsome
    · refine ⟨step_of_result? hrefused, untouched_setStatus .., fun hwhy => absurd rfl hwhy,
        fun _ => ⟨_, h.endsOnce_of_stale hk hpasses hfinish hwait, ?_⟩, fun d => ?_⟩
      · cases call <;> cases hact
        · exact .inl ⟨_, _, _, rfl, rfl, rfl⟩
        · exact .inr ⟨_, _, rfl, rfl, rfl⟩
        · exact absurd rfl hfinish
      · have hexists := exists_complete_iff (P := (unsupported? · = some d)) hact
        refine ⟨nofun, fun hcomplete => ?_⟩
        obtain ⟨text, terminal, rfl, hsome⟩ := hexists.1 hcomplete
        rw [hpasses.1] at hsome
        cases hsome

end Refuses

/-- **Refused calls**, in every world that can be reached and whatever is running there: so it is
also in the middle of a step, when a job has been taken from the agenda. -/
theorem Reachable.refused_harmless (h : Reachable w) (agenda : List (Job κ ν)) {call : Call κ ν}
    {why : Refusal}
    (hrefused : ({ w with agenda } : World κ ν).result? call = some (w', .error why)) :
    ({ w with agenda } : World κ ν).Refuses call why w' :=
  Owned.refuses_of_error (w := { w with agenda }) h.owned hrefused

/-- A client that leaves its completions alone. -/
private def absentClient : Client Unit Unit where
  onLine _ _ := .done
  onComplete _ _ _ := .done
  onRead _ _ := .done
  onResize _ _ := .done

/-- The Tab key was pressed behind a letter, and the session was taken off its connection. -/
private def abandoned : World Unit Unit :=
  exec absentClient 20 { sessions := [{}], connections := [{}] } <|
    .andThen (.install 0 0) <|
      .andThen (.request 0 { prompt := ['>'], onLine := (), onComplete? := some () }) <|
        .andThen (.type 0 ['a', Keys.tab]) <|
          .ofCall (.uninstall 0)

private theorem reachable_abandoned : Reachable abandoned := by
  refine Reachable.trans (Pristine.reachable ?_) (run_exec absentClient 20 _ _)
  constructor <;> simp

/-- Text for a completion that was abandoned is refused as stale, after the status of the completion
has moved. -/
theorem refused_harmless_abandoned :
    abandoned.completions.map (·.status) = [.pending] ∧
      abandoned.result? (.complete none ['b'] true) =
        some (abandoned.setStatus 0 .inlining, .error .stale) ∧
      abandoned.Refuses (.complete none ['b'] true) .stale (abandoned.setStatus 0 .inlining) :=
  ⟨by decide, rfl, reachable_abandoned.refused_harmless abandoned.agenda rfl⟩

end World

end LineEditor
