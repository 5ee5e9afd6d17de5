import LineEditor.Proofs.Session.Conservation
import LineEditor.Proofs.Session.Refusals
import LineEditor.Proofs.Session.Wakeup
import Mathlib.Order.Monotone.Basic

/-!
# A delivery comes to its end

A session deals with its waiting input piece by piece, with no count of the pieces: after each one
it looks again, and in between a handler may make a request, complete a word, take the session off
its connection or begin another delivery. What ends it is that every piece takes at least one
waiting character (`World.deliver_progress`), and that nothing but typing adds any.

`World.trace` is what becomes of a world in steps that a sequence of clients takes. A delivery ends
on every trace on which nothing is typed for its session and each handler that it runs comes to its
end (`World.exists_not_running`). Handlers do come to their end if no client types or
changes the size of a terminal (`Client.Abstains`): by induction on what waits in all sessions, and
for the same amount on the program that runs and on the tasks that are left
(`World.endsWithin`). `World.Reachable.drains` puts this together.
-/

namespace LineEditor

variable {κ ν : Type}

/-! ### Clients that bring no input -/

/-- A call neither types nor changes the size of a terminal. -/
def Call.Abstains : Call κ ν → Prop
  | .type _ _ | .resize _ _ => False
  | _ => True

/-- No call of a program types or changes a size, whatever the answers are. -/
def Program.Abstains : Program κ ν → Prop
  | .done => True
  | .call c next => c.Abstains ∧ ∀ a, (next a).Abstains

/-- A job types nothing and changes no size. -/
def Job.Abstains : Job κ ν → Prop
  | .run p => p.Abstains
  | .deliver _ => True
  | .tasks _ _ _ next => ∀ a, (next a).Abstains

@[simp]
theorem Job.abstains_run (p : Program κ ν) : (Job.run p).Abstains ↔ p.Abstains := Iff.rfl

@[simp] theorem Job.abstains_deliver (s : SessionId) : (.deliver s : Job κ ν).Abstains := trivial

@[simp]
theorem Job.abstains_tasks (c : ConnectionId) (limit? : Option ℕ) (count : ℕ)
    (next : Answer → Program κ ν) :
    (Job.tasks c limit? count next).Abstains ↔ ∀ a, (next a).Abstains := Iff.rfl

/-- What a session hands over makes the client neither type nor change a size. -/
structure Client.Abstains (client : Client κ ν) : Prop where
  onLine : ∀ handler line, (client.onLine handler line).Abstains
  onComplete : ∀ handler k completion, (client.onComplete handler k completion).Abstains
  onRead : ∀ handler text, (client.onRead handler text).Abstains

/-- A session asks for no input, or cannot make anything of what waits: it waits for a completion,
or has neither a request nor a handler, or no event can be decoded. -/
def Session.Rests (session : Session κ) : Prop :=
  (∃ entry, session.phase = .completing entry) ∨
    (session.phase = .idle ∧ session.onRead? = none) ∨ session.decoder.hasNext = false

namespace World

variable {client : Client κ ν} {clients : ℕ → Client κ ν} {w w' : World κ ν} {s : SessionId}
  {session : Session κ} {job : Job κ ν} {rest : List (Job κ ν)}

/-! ### Traces -/

/-- The choices of a run in which each client of a sequence takes one step. -/
def steps (clients : ℕ → Client κ ν) : ℕ → List (Choice κ ν)
  | 0 => []
  | n + 1 => .step (clients 0) :: steps (fun i => clients (i + 1)) n

/-- The world after a number of steps, each of which the next client of a sequence takes. -/
def trace (w : World κ ν) (clients : ℕ → Client κ ν) (n : ℕ) : World κ ν := w.play (steps clients n)

theorem steps_succ (clients : ℕ → Client κ ν) (n : ℕ) :
    steps clients (n + 1) = steps clients n ++ [.step (clients n)] := by
  induction n generalizing clients with
  | zero => rfl
  | succ n ih => exact congrArg (.step (clients 0) :: ·) (ih fun i => clients (i + 1))

theorem trace_succ (w : World κ ν) (clients : ℕ → Client κ ν) (n : ℕ) :
    w.trace clients (n + 1) = (w.trace clients n).step (clients n) := by
  rw [trace, steps_succ, play_concat]
  rfl

theorem passages_concat (w : World κ ν) (s : SessionId) (choices : List (Choice κ ν))
    (client : Client κ ν) :
    w.passages s (choices ++ [.step client]) =
      w.passages s choices ++ ((w.play choices).passage? s).toList := by
  rw [passages, stepped_append, List.filterMap_append]
  refine congrArg (w.passages s choices ++ ·) ?_
  exact (passages_step (w.play choices) s client []).trans (List.append_nil _)

/-! ### Every piece takes a waiting character -/

/-- What stands above a delivery once a piece of input is dealt with: nothing, or what a handler of
the client has to do. -/
def LooksAgain (client : Client κ ν) (agenda above : List (Job κ ν)) : Prop :=
  agenda = above ∨ ∃ p, (client.Abstains → p.Abstains) ∧ agenda = .run p :: above

theorem looksAgain_handleEvent (entry : Entry κ) (c : ConnectionId) (event : KeyEvent)
    (decoder : Keys.Decoder) :
    LooksAgain client (w.handleEvent client s session entry c event decoder).agenda
      (.deliver s :: w.agenda) := by
  generalize hhandled :
    entry.handle session.functions session.history session.continuation event = handled
  cases houtcome : handled.outcome with
  | goesOn =>
    rw [handleEvent_goesOn hhandled houtcome]
    exact .inl (afterEvent_agenda ..)
  | submitted line =>
    rw [handleEvent_submitted hhandled houtcome]
    exact .inr ⟨client.onLine entry.request.onLine line, fun h => h.onLine .., by simp⟩
  | asked handler snapshot =>
    rw [handleEvent_asked hhandled houtcome rfl]
    simp only [push_agenda, log_agenda, afterEvent_agenda]
    exact .inr ⟨_, fun h => h.onComplete .., rfl⟩

/-- **Progress.** A session that is to deal with its input either stops, which changes nothing but
that the job is done; or it takes some of the first characters that wait, and looks again after what
this sets in motion. -/
theorem deliver_progress (client : Client κ ν) (hagenda : w.agenda = .deliver s :: rest)
    (hs : w.sessions[s]? = some session) :
    (w.step client = { w with agenda := rest } ∧ session.passage? = none) ∨
      (∃ taken after, taken ≠ [] ∧ (w.step client).sessions[s]? = some after ∧
        session.decoder.pending = taken ++ after.decoder.pending) ∧
          LooksAgain client (w.step client).agenda (.deliver s :: rest) := by
  have hs' : ({ w with agenda := rest } : World κ ν).sessions[s]? = some session := hs
  have hstep : w.step client = ({ w with agenda := rest } : World κ ν).deliver client s := by
    rw [step, hagenda]
  obtain ⟨after, hafter, hpasses⟩ : ∃ after, (w.step client).sessions[s]? = some after ∧
      Passes client w s session after (w.passage? s) := passes_deliver hagenda hs
  have hbalance := hpasses.balance
  rw [passage?_of_deliver hagenda hs] at hbalance
  obtain ⟨hnone, hdeliver⟩ | ⟨handler, hforwarded, -, -, hpending, hdeliver⟩ |
    ⟨entry, c, event, decoder, taken, hhandled, -, htaken, -, hdeliver⟩ :=
      deliver_cases client hs'
  · exact .inl ⟨hstep.trans hdeliver, hnone⟩
  · rw [hforwarded] at hbalance
    refine .inr ⟨⟨_, after, hpending, hafter, (List.append_nil _).symm.trans hbalance⟩, ?_⟩
    rw [hstep, hdeliver]
    exact .inr ⟨_, fun h => h.onRead _ _, rfl⟩
  · rw [hhandled] at hbalance
    refine .inr ⟨⟨_, after, htaken, hafter, (List.append_nil _).symm.trans hbalance⟩, ?_⟩
    rw [hstep, hdeliver]
    exact looksAgain_handleEvent ..

/-- Where there is no such session, its job is done at once. -/
theorem step_deliver_of_none (client : Client κ ν) (hagenda : w.agenda = .deliver s :: rest)
    (hs : w.sessions[s]? = none) : w.step client = { w with agenda := rest } := by
  rw [step, hagenda]
  simp [deliver, hs]

/-- A session for which nothing goes rests, if it is connected while it edits. -/
theorem rests_of_passage?_eq_none (h : session.passage? = none)
    (hconnected : ∀ entry, session.phase = .editing entry → session.connection? ≠ none) :
    session.Rests := by
  cases hnext : session.decoder.next? with
  | none =>
    refine .inr (.inr ?_)
    rw [← Keys.Decoder.isSome_next, hnext]
    rfl
  | some pair =>
    rw [Session.passage?, hnext] at h
    cases hphase : session.phase with
    | completing entry => exact .inl ⟨entry, hphase⟩
    | idle =>
      rw [hphase] at h
      exact .inr (.inl ⟨hphase, Option.map_eq_none_iff.1 h⟩)
    | editing entry =>
      rw [hphase] at h
      exact absurd (Option.map_eq_none_iff.1 h) (hconnected entry hphase)

/-- A delivery stays on the agenda, below what it sets in motion, until it stops. -/
theorem suffix_or_stops (client : Client κ ν) (hrunning : .deliver s :: rest <:+ w.agenda) :
    .deliver s :: rest <:+ (w.step client).agenda ∨
      w.agenda = .deliver s :: rest ∧ w.step client = { w with agenda := rest } ∧
        ∀ session, w.sessions[s]? = some session → session.passage? = none := by
  obtain ⟨above, habove⟩ := hrunning
  cases above with
  | cons job above =>
    have hagenda : w.agenda = job :: (above ++ .deliver s :: rest) := habove.symm
    exact .inl ((List.suffix_append above _).trans (turn_step client hagenda).suffix)
  | nil =>
    have hagenda : w.agenda = .deliver s :: rest := habove.symm
    cases hs : w.sessions[s]? with
    | none =>
      exact .inr ⟨hagenda, step_deliver_of_none client hagenda hs, fun _ h => by cases h⟩
    | some session =>
      obtain ⟨hstops, hnone⟩ | ⟨-, hsame | ⟨p, -, habove⟩⟩ := deliver_progress client hagenda hs
      · exact .inr ⟨hagenda, hstops, fun session' h => Option.some_inj.1 h ▸ hnone⟩
      · exact .inl (hsame ▸ List.suffix_rfl)
      · exact .inl (habove ▸ List.suffix_cons _ _)

/-! ### How many pieces there are -/

/-- **Run lemma.** As long as nothing is typed for a session, no more pieces of its input go than
characters wait. -/
theorem length_passages_add_le (hs : w.sessions[s]? = some session)
    (choices : List (Choice κ ν)) (huntyped : ∀ text, .typed text ∉ w.passages s choices) :
    ∃ last, (w.play choices).sessions[s]? = some last ∧
      (w.passages s choices).length + last.decoder.pending.length ≤
        session.decoder.pending.length := by
  induction choices generalizing w session with
  | nil => exact ⟨session, hs, Nat.le_of_eq (Nat.zero_add _)⟩
  | cons choice choices ih =>
    cases choice with
    | run p => exact ih (w := w.push (.run p)) hs huntyped
    | step client =>
      obtain ⟨after, hafter, hpasses⟩ := step_passes client hs
      rw [passages_step] at huntyped ⊢
      obtain ⟨last, hlast, hle⟩ := ih hafter fun text hmem =>
        huntyped text (List.mem_append_right _ hmem)
      refine ⟨last, hlast, ?_⟩
      -- one piece at most goes, and then something is taken
      have hone : (w.passage? s).toList.length + after.decoder.pending.length ≤
          session.decoder.pending.length := by
        generalize hpassage : w.passage? s = passage? at hpasses
        cases hpasses with
        | nothing h => simp [h]
        | @typed c text => exact absurd (by simp [hpassage]) (huntyped text)
        | handled _ _ _ htaken hpending h =>
          have hlength := List.length_pos_iff.2 htaken
          simp only [Option.toList_some, List.length_singleton, h, hpending, List.length_append]
          omega
        | forwarded _ _ _ hpending _ h =>
          have hlength := List.length_pos_iff.2 hpending
          simp only [h, Keys.Decoder.takeAll, Option.toList_some, List.length_singleton,
            List.length_nil]
          omega
      rw [List.length_append]
      omega

/-! ### How much waits -/

/-- How many characters wait in all sessions. -/
def backlog (w : World κ ν) : ℕ := (w.sessions.map (·.decoder.pending)).flatten.length

/-- Nothing but typing and dealing with input changes how much waits. -/
theorem Turn.backlog_eq (hturn : Turn client w job w')
    (htype : ∀ c text next, job ≠ .run (.call (.type c text) next))
    (hdeliver : ∀ s, job ≠ .deliver s) : w'.backlog = w.backlog := by
  unfold backlog
  refine congrArg (List.length ∘ List.flatten) (List.ext_getElem? fun t => ?_)
  rw [List.getElem?_map, List.getElem?_map]
  cases ht : w.sessions[t]? with
  | none =>
    rw [List.getElem?_eq_none_iff] at ht
    rw [List.getElem?_eq_none (by rwa [hturn.length_sessions])]
  | some session =>
    obtain ⟨after, hafter, hdecoder⟩ := hturn.decoder_eq htype (hdeliver t) ht
    rw [hafter, Option.map_some, Option.map_some, hdecoder]

/-- When session `s` deals with its input, what waits in it alone changes. -/
theorem Turn.backlog_add (hturn : Turn client w (.deliver s) w')
    (hs : w.sessions[s]? = some session) {after : Session κ}
    (hafter : w'.sessions[s]? = some after) :
    w'.backlog + session.decoder.pending.length = w.backlog + after.decoder.pending.length := by
  have hset : w'.sessions.map (·.decoder.pending) =
      (w.sessions.map (·.decoder.pending)).set s after.decoder.pending := by
    refine List.ext_getElem? fun t => ?_
    by_cases hts : s = t
    · subst hts
      rw [List.getElem?_set_self', List.getElem?_map, List.getElem?_map, hs, hafter]
      rfl
    · rw [List.getElem?_set_ne hts, List.getElem?_map, List.getElem?_map]
      cases ht : w.sessions[t]? with
      | none =>
        rw [List.getElem?_eq_none_iff] at ht
        rw [List.getElem?_eq_none (by rwa [hturn.length_sessions])]
      | some other =>
        obtain ⟨after, hafter, hdecoder⟩ := hturn.decoder_eq nofun (by simpa using hts) ht
        rw [hafter, Option.map_some, Option.map_some, hdecoder]
  rw [backlog, backlog, hset]
  exact length_flatten_set_add (by rw [List.getElem?_map, hs]; rfl) _

/-- A delivery stops, or less waits than before. -/
theorem deliver_backlog (client : Client κ ν) (hagenda : w.agenda = .deliver s :: rest) :
    w.step client = { w with agenda := rest } ∨
      (w.step client).backlog < w.backlog ∧
        LooksAgain client (w.step client).agenda (.deliver s :: rest) := by
  cases hs : w.sessions[s]? with
  | none => exact .inl (step_deliver_of_none client hagenda hs)
  | some session =>
    refine (deliver_progress client hagenda hs).imp And.left ?_
    rintro ⟨⟨taken, after, htaken, hafter, hpending⟩, hlooks⟩
    have hadd : (w.step client).backlog + session.decoder.pending.length =
        w.backlog + after.decoder.pending.length :=
      (turn_step client hagenda).backlog_add hs hafter
    have hlength := List.length_pos_iff.2 htaken
    rw [hpending, List.length_append] at hadd
    exact ⟨by omega, hlooks⟩

/-! ### What abstaining clients come to -/

/-- Whichever abstaining clients take the steps, they come to a world of a kind. -/
inductive Inevitably (P : World κ ν → Prop) : World κ ν → Prop where
  | here {v : World κ ν} (h : P v) : Inevitably P v
  | step {v : World κ ν}
      (h : ∀ client : Client κ ν, client.Abstains → Inevitably P (v.step client)) : Inevitably P v

theorem Inevitably.bind {P Q : World κ ν → Prop} (h : Inevitably P w)
    (hPQ : ∀ v, P v → Inevitably Q v) : Inevitably Q w := by
  induction h with
  | here h => exact hPQ _ h
  | step _ ih => exact .step ih

theorem Inevitably.mono {P Q : World κ ν → Prop} (h : Inevitably P w) (hPQ : ∀ v, P v → Q v) :
    Inevitably Q w :=
  h.bind fun v hv => .here (hPQ v hv)

theorem Inevitably.exists_trace {P : World κ ν → Prop} (h : Inevitably P w)
    (clients : ℕ → Client κ ν) (hclients : ∀ n, (clients n).Abstains) :
    ∃ n, P (w.trace clients n) := by
  induction h generalizing clients with
  | here h => exact ⟨0, h⟩
  | step _ ih =>
    obtain ⟨n, hn⟩ := ih (clients 0) (hclients 0) (fun i => clients (i + 1)) fun i => hclients _
    exact ⟨n + 1, hn⟩

/-- Where no more than `n` characters wait, a job comes to its end, and no more wait than before. -/
def EndsWithin (n : ℕ) (job : Job κ ν) : Prop :=
  ∀ (w : World κ ν) (rest : List (Job κ ν)), w.backlog ≤ n → w.agenda = job :: rest →
    Inevitably (fun v => v.agenda = rest ∧ v.backlog ≤ w.backlog) w

/-- A call of an abstaining program sets in motion a delivery or the tasks of a connection, if
anything, and then the program goes on. -/
theorem Turn.call_cases {call : Call κ ν} {next : Answer → Program κ ν}
    (hturn : Turn client w (.run (.call call next)) w') (hcall : call.Abstains) :
    (∃ a, w'.agenda = .run (next a) :: w.agenda) ∨
      (∃ t, w'.agenda = .deliver t :: .run (next .done) :: w.agenda) ∨
        ∃ c limit?, w'.agenda = .tasks c limit? 0 next :: w.agenda := by
  cases hturn with
  | answer | aside | write | listen | adjust | install | uninstall | move | insert | suggest =>
    exact .inl ⟨_, by simp only [reply_agenda, write_agenda]; rfl⟩
  | schedule | request | resume =>
    exact .inl ⟨_, by
      simp only [reply_agenda, schedule_agenda, changeSession_agenda, write_agenda]
      rfl⟩
  | resize | type => exact hcall.elim
  | deliver t => exact .inr (.inl ⟨t, rfl⟩)
  | runTasks c limit? => exact .inr (.inr ⟨c, limit?, rfl⟩)

section Induction

/- All jobs of abstaining clients come to their end where less than `n` characters wait. -/
variable {n : ℕ} (hless : ∀ m < n, ∀ job : Job κ ν, job.Abstains → EndsWithin m job)
include hless

/-- A delivery comes to its end, and it has changed nothing, or less waits. -/
theorem inevitably_deliver (hn : w.backlog ≤ n) (hagenda : w.agenda = .deliver s :: rest) :
    Inevitably (fun v => v = { w with agenda := rest } ∨ v.agenda = rest ∧ v.backlog < w.backlog)
      w := by
  refine .step fun client hclient => ?_
  obtain hstops | ⟨hbacklog, hlooks⟩ := deliver_backlog client hagenda
  · exact .here (.inl hstops)
  -- the session looks again, where less waits
  have hagain : ∀ v : World κ ν, v.backlog < w.backlog → v.agenda = .deliver s :: rest →
      Inevitably (fun v => v = { w with agenda := rest } ∨ v.agenda = rest ∧ v.backlog < w.backlog)
        v := fun v hv hagenda =>
    (hless v.backlog (by omega) (.deliver s) trivial v rest le_rfl hagenda).mono
      fun u hu => .inr ⟨hu.1, by omega⟩
  obtain hsame | ⟨p, hp, habove⟩ := hlooks
  · exact hagain _ hbacklog hsame
  · exact (hless _ (hbacklog.trans_le hn) (.run p) (hp hclient) _ _ le_rfl habove).bind
      fun v hv => hagain v (by omega) hv.1

theorem endsWithin_deliver (s : SessionId) : EndsWithin n (.deliver s : Job κ ν) := by
  intro w rest hn hagenda
  refine (inevitably_deliver hless hn hagenda).mono fun v hv => ?_
  obtain rfl | ⟨hrest, hlt⟩ := hv
  · exact ⟨rfl, le_rfl⟩
  · exact ⟨hrest, hlt.le⟩

/-- The tasks of a connection come to their end if the program behind them does. -/
theorem endsWithin_tasks {next : Answer → Program κ ν} (habstains : ∀ a, (next a).Abstains)
    (hnext : ∀ a, EndsWithin n (.run (next a))) (c : ConnectionId) (limit? : Option ℕ)
    (count : ℕ) : EndsWithin n (.tasks c limit? count next) := by
  intro w rest hn hagenda
  -- on the number of tasks, for the same amount that waits
  generalize htasks : (w.connections[c]?.map (·.tasks.length)).getD 0 = tasks
  induction tasks using Nat.strong_induction_on generalizing w count with
  | _ tasks ih =>
    refine .step fun client _ => ?_
    have hturn := turn_step client hagenda
    have hbacklog : (w.step client).backlog = w.backlog := hturn.backlog_eq nofun nofun
    generalize w.step client = w' at hturn hbacklog
    cases hturn with
    | tasksOver =>
      exact (hnext _ _ rest (hbacklog.le.trans hn) rfl).mono fun v hv => ⟨hv.1, hbacklog ▸ hv.2⟩
    | @nextTask _ _ _ _ conn s others _ hc hconn =>
      refine (inevitably_deliver hless (hbacklog.le.trans hn) rfl).bind fun v hv => ?_
      obtain rfl | ⟨hrest, hlt⟩ := hv
      · have hfewer : others.length < tasks := by
          have hc : w.connections[c]? = some conn := hc
          rw [← htasks, hc, Option.map_some, Option.getD_some, hconn, List.length_cons]
          exact Nat.lt_succ_self _
        refine Inevitably.mono (ih _ hfewer (count + 1) _ (hbacklog.le.trans hn) rfl ?_)
          fun v hv => ⟨hv.1, hbacklog ▸ hv.2⟩
        simp [getElem?_connections_changeConnection, hc]
      · exact (hless v.backlog (by omega) (.tasks c limit? (count + 1) next) habstains v rest le_rfl
          hrest).mono fun u hu => ⟨hu.1, by omega⟩

theorem endsWithin_run (p : Program κ ν) (hp : p.Abstains) : EndsWithin n (.run p) := by
  induction p with
  | done =>
    intro w rest hn hagenda
    refine .step fun client _ => .here ?_
    rw [step, hagenda]
    exact ⟨rfl, le_rfl⟩
  | call call next ih =>
    obtain ⟨hcall, hnext⟩ := hp
    intro w rest hn hagenda
    refine .step fun client _ => ?_
    have hturn := turn_step client hagenda
    have hbacklog : (w.step client).backlog = w.backlog := by
      refine hturn.backlog_eq (fun c text next htype => ?_) fun s hdeliver => by cases hdeliver
      cases htype
      exact hcall
    have hn' : (w.step client).backlog ≤ n := hbacklog.le.trans hn
    obtain ⟨a, hagenda'⟩ | ⟨t, hagenda'⟩ | ⟨c, limit?, hagenda'⟩ := hturn.call_cases hcall
    · exact (ih a (hnext a) _ _ hn' hagenda').mono fun v hv => ⟨hv.1, hbacklog ▸ hv.2⟩
    · refine (endsWithin_deliver hless t _ _ hn' hagenda').bind fun v hv => ?_
      have hv' : v.backlog ≤ w.backlog := hbacklog ▸ hv.2
      exact (ih .done (hnext .done) v rest (hv'.trans hn) hv.1).mono fun u hu =>
        ⟨hu.1, hu.2.trans hv'⟩
    · exact (endsWithin_tasks hless hnext (fun a => ih a (hnext a)) c limit? 0 _ _ hn'
        hagenda').mono fun v hv => ⟨hv.1, hbacklog ▸ hv.2⟩

end Induction

/-- **Abstaining clients come to an end** with every job, whatever waits. -/
theorem endsWithin (n : ℕ) : ∀ job : Job κ ν, job.Abstains → EndsWithin n job := by
  induction n using Nat.strong_induction_on with
  | _ n hless =>
    intro job hjob
    cases job with
    | run p => exact endsWithin_run hless p hjob
    | deliver s => exact endsWithin_deliver hless s
    | tasks c limit? count next =>
      exact endsWithin_tasks hless hjob (fun a => endsWithin_run hless (next a) (hjob a)) c limit?
        count

/-! ### What is typed on the way -/

/-- A job of abstaining clients sets only such jobs in motion. -/
theorem step_abstains (hclient : client.Abstains) (hagenda : w.agenda = job :: rest)
    (hjob : job.Abstains) :
    ∃ front, (w.step client).agenda = front ++ rest ∧ ∀ job ∈ front, job.Abstains := by
  have hturn := turn_step client hagenda
  cases job with
  | run p =>
    cases p with
    | done =>
      generalize w.step client = w' at hturn
      cases hturn
      exact ⟨[], rfl, nofun⟩
    | call call next =>
      obtain ⟨a, h⟩ | ⟨t, h⟩ | ⟨c, limit?, h⟩ := hturn.call_cases hjob.1
      · exact ⟨[.run (next a)], h, by simpa using hjob.2 a⟩
      · exact ⟨[.deliver t, .run (next .done)], h, by simpa using hjob.2 .done⟩
      · exact ⟨[.tasks c limit? 0 next], h, by simpa using hjob.2⟩
  | deliver t =>
    obtain hstops | ⟨-, hsame | ⟨p, hp, habove⟩⟩ := deliver_backlog client hagenda
    · exact ⟨[], by rw [hstops]; rfl, nofun⟩
    · exact ⟨[.deliver t], hsame, by simp⟩
    · exact ⟨[.run p, .deliver t], habove, by simpa using hp hclient⟩
  | tasks c limit? count next =>
    generalize w.step client = w' at hturn
    cases hturn with
    | tasksOver => exact ⟨[.run (next (.ran count))], rfl, by simpa using hjob _⟩
    | nextTask =>
      exact ⟨[.deliver _, .tasks c limit? (count + 1) next], rfl, by simpa using hjob⟩

/-- A job of abstaining clients types nothing. -/
theorem passage?_ne_typed (client : Client κ ν) (hagenda : w.agenda = job :: rest)
    (hjob : job.Abstains) (hs : w.sessions[s]? = some session) (text : List Char) :
    w.passage? s ≠ some (.typed text) := by
  intro htyped
  obtain ⟨after, -, hpasses⟩ := step_passes client hs
  rw [htyped] at hpasses
  cases hpasses with
  | typed htype =>
    rw [hagenda] at htype
    obtain ⟨rfl, -⟩ := List.cons.inj htype
    exact hjob.1

/-! ### When a delivery returns -/

/-- A delivery for session `s`, begun above `rest` in `w`, is running up to step `n` of a trace. -/
def Running (w : World κ ν) (clients : ℕ → Client κ ν) (s : SessionId) (rest : List (Job κ ν))
    (n : ℕ) : Prop :=
  ∀ i ≤ n, .deliver s :: rest <:+ (w.trace clients i).agenda

/-- A delivery for session `s`, which is `session` at first, returns with step `n` of a trace. -/
structure Returns (w : World κ ν) (clients : ℕ → Client κ ν) (s : SessionId) (session : Session κ)
    (rest : List (Job κ ν)) (n : ℕ) : Prop where
  /-- It is running until then, -/
  running : w.Running clients s rest n
  /-- and by this step the job is done and nothing else changes. -/
  stops : w.trace clients (n + 1) = { w.trace clients n with agenda := rest }
  /-- No more pieces of the input of the session went than characters waited at first. -/
  pieces : (w.passages s (steps clients n)).length ≤ session.decoder.pending.length
  /-- The session rests. -/
  rests : ∃ last, (w.trace clients n).sessions[s]? = some last ∧ last.Rests

/-- While a delivery runs, nothing is typed for its session. -/
def Untyped (w : World κ ν) (clients : ℕ → Client κ ν) (s : SessionId) (rest : List (Job κ ν)) :
    Prop :=
  ∀ n, w.Running clients s rest n → ∀ text, (w.trace clients n).passage? s ≠ some (.typed text)

/-- While a delivery runs, each handler that it has run comes to its end. -/
def Answered (w : World κ ν) (clients : ℕ → Client κ ν) (s : SessionId) (rest : List (Job κ ν)) :
    Prop :=
  ∀ n p, w.Running clients s rest n →
    (w.trace clients n).agenda = .run p :: .deliver s :: rest →
      ∃ m, n ≤ m ∧ (w.trace clients m).agenda = .deliver s :: rest

theorem reachable_trace (h : Reachable w) (clients : ℕ → Client κ ν) (n : ℕ) :
    Reachable (w.trace clients n) :=
  h.trans (run_play w (steps clients n))

theorem exists_session_trace (hs : w.sessions[s]? = some session) (clients : ℕ → Client κ ν)
    (n : ℕ) : ∃ session', (w.trace clients n).sessions[s]? = some session' := by
  obtain ⟨session', hsession', -⟩ := balance_play hs (steps clients n)
  exact ⟨session', hsession'⟩

theorem not_running_of_agenda_eq {n : ℕ} (h : (w.trace clients n).agenda = rest) :
    ¬ w.Running clients s rest n := by
  intro hrunning
  have hlength := (hrunning n le_rfl).length_le
  rw [h] at hlength
  exact Nat.not_succ_le_self _ hlength

theorem Running.of_le {m n : ℕ} (h : w.Running clients s rest n) (hmn : m ≤ n) :
    w.Running clients s rest m :=
  fun i hi => h i (hi.trans hmn)

theorem running_zero (clients : ℕ → Client κ ν) (hagenda : w.agenda = .deliver s :: rest) :
    w.Running clients s rest 0 := by
  intro i hi
  obtain rfl := Nat.le_zero.1 hi
  exact hagenda ▸ List.suffix_rfl

theorem Running.succ {n : ℕ} (h : w.Running clients s rest n)
    (hnext : .deliver s :: rest <:+ (w.trace clients (n + 1)).agenda) :
    w.Running clients s rest (n + 1) := by
  intro i hi
  obtain hlt | rfl := Nat.le_succ_iff.1 hi
  · exact h i hlt
  · exact hnext

/-- What is typed up to some step is typed in one of the steps. -/
theorem typed_notMem_passages {n : ℕ} (huntyped : w.Untyped clients s rest)
    (hrunning : w.Running clients s rest n) (text : List Char) :
    .typed text ∉ w.passages s (steps clients n) := by
  induction n with
  | zero => exact nofun
  | succ n ih =>
    have hrunning' : w.Running clients s rest n := hrunning.of_le (Nat.le_succ n)
    have hlast := huntyped n hrunning' text
    rw [steps_succ, passages_concat]
    simpa using ⟨ih hrunning', hlast⟩

/-- A delivery that does not run for ever returns. -/
theorem exists_returns (h : Reachable w) (hagenda : w.agenda = .deliver s :: rest)
    (hs : w.sessions[s]? = some session) (huntyped : w.Untyped clients s rest)
    (hleaves : ∃ n, ¬ w.Running clients s rest n) :
    ∃ n, w.Returns clients s session rest n := by
  obtain ⟨n, hrunning, hover⟩ :
      ∃ n, w.Running clients s rest n ∧ ¬ w.Running clients s rest (n + 1) := by
    by_contra hnever
    push Not at hnever
    obtain ⟨n, hn⟩ := hleaves
    exact hn (Nat.rec (running_zero clients hagenda) (fun n => hnever n) n)
  obtain hnext | ⟨-, hstops, hnone⟩ := suffix_or_stops (clients n) (hrunning n le_rfl)
  · exact absurd (hrunning.succ (by rwa [trace_succ])) hover
  obtain ⟨last, hlast, hpieces⟩ :=
    length_passages_add_le hs (steps clients n) (typed_notMem_passages huntyped hrunning)
  have howned := (reachable_trace h clients n).owned s last hlast
  refine ⟨n, hrunning, by rw [trace_succ, hstops], by omega, last, hlast, ?_⟩
  exact rests_of_passage?_eq_none (hnone last hlast) fun entry hphase =>
    howned.connected (by simp [hphase])

/-- How many characters wait in a session. -/
def waits (w : World κ ν) (s : SessionId) : ℕ :=
  (w.sessions[s]?.map (·.decoder.pending.length)).getD 0

theorem waits_eq (hs : w.sessions[s]? = some session) :
    w.waits s = session.decoder.pending.length := by
  rw [waits, hs]
  rfl

/-- While nothing is typed for a session, less and less waits in it. -/
theorem antitone_waits (hs : w.sessions[s]? = some session)
    (huntyped : ∀ n text, (w.trace clients n).passage? s ≠ some (.typed text)) :
    Antitone fun n => (w.trace clients n).waits s := by
  refine antitone_nat_of_succ_le fun n => ?_
  obtain ⟨before, hbefore⟩ := exists_session_trace hs clients n
  obtain ⟨last, hlast, hle⟩ :=
    length_passages_add_le hbefore [.step (clients n)] (by simpa using huntyped n)
  have hlast' : (w.trace clients (n + 1)).sessions[s]? = some last := by rwa [trace_succ]
  rw [waits_eq hbefore, waits_eq hlast']
  omega

/-- **A delivery ends if its handlers do.** For each time that it looks for input again, less waits
than the time before. -/
theorem exists_not_running (hagenda : w.agenda = .deliver s :: rest)
    (hs : w.sessions[s]? = some session) (huntyped : w.Untyped clients s rest)
    (hanswered : w.Answered clients s rest) : ∃ n, ¬ w.Running clients s rest n := by
  by_contra hnever
  push Not at hnever
  have hless := antitone_waits hs fun n => huntyped n (hnever n)
  -- on how much waits when it looks for input
  have hcalm : ∀ k n, (w.trace clients n).waits s = k →
      (w.trace clients n).agenda ≠ .deliver s :: rest := by
    intro k
    induction k using Nat.strong_induction_on with
    | _ k ih =>
      intro n hk hagenda
      obtain ⟨before, hbefore⟩ := exists_session_trace hs clients n
      obtain ⟨hstops, -⟩ | ⟨⟨taken, after, htaken, hafter, hpending⟩, hlooks⟩ :=
        deliver_progress (clients n) hagenda hbefore
      · refine not_running_of_agenda_eq (n := n + 1) ?_ (hnever (n + 1))
        rw [trace_succ, hstops]
      rw [← trace_succ] at hafter hlooks
      have htakes : (w.trace clients (n + 1)).waits s < k := by
        have hlength := List.length_pos_iff.2 htaken
        rw [← hk, waits_eq hbefore, waits_eq hafter, hpending, List.length_append]
        omega
      obtain hagain | ⟨p, -, habove⟩ := hlooks
      · exact ih _ htakes (n + 1) rfl hagain
      · obtain ⟨m, hm, hagain⟩ := hanswered (n + 1) p (hnever (n + 1)) habove
        exact ih _ ((hless hm).trans_lt htakes) m rfl hagain
  exact hcalm _ 0 rfl hagenda

/-- What abstaining clients have running above a delivery are jobs of theirs. -/
theorem exists_above_of_running (hclients : ∀ n, (clients n).Abstains)
    (hagenda : w.agenda = .deliver s :: rest) {n : ℕ} (hrunning : w.Running clients s rest n) :
    ∃ above, (w.trace clients n).agenda = above ++ .deliver s :: rest ∧
      ∀ job ∈ above, job.Abstains := by
  induction n with
  | zero => exact ⟨[], hagenda, nofun⟩
  | succ n ih =>
    obtain ⟨above, habove, habstains⟩ := ih (hrunning.of_le (Nat.le_succ n))
    have hlast := hrunning (n + 1) le_rfl
    rw [trace_succ] at hlast ⊢
    cases above with
    | nil =>
      obtain hstops | ⟨-, hsame | ⟨p, hp, hcalls⟩⟩ := deliver_backlog (clients n) habove
      · rw [hstops] at hlast
        exact absurd hlast.length_le (Nat.not_succ_le_self _)
      · exact ⟨[], hsame, nofun⟩
      · exact ⟨[.run p], hcalls, by simpa using hp (hclients n)⟩
    | cons job above =>
      have hjob : (w.trace clients n).agenda = job :: (above ++ .deliver s :: rest) := habove
      obtain ⟨front, hfront, hfront'⟩ :=
        step_abstains (hclients n) hjob (habstains job List.mem_cons_self)
      refine ⟨front ++ above, by rw [hfront, List.append_assoc], ?_⟩
      exact List.forall_mem_append.2 ⟨hfront', fun j hj => habstains j (List.mem_cons_of_mem _ hj)⟩

theorem untyped_of_abstains (hclients : ∀ n, (clients n).Abstains)
    (hagenda : w.agenda = .deliver s :: rest) (hs : w.sessions[s]? = some session) :
    w.Untyped clients s rest := by
  intro n hrunning text
  obtain ⟨above, habove, habstains⟩ := exists_above_of_running hclients hagenda hrunning
  obtain ⟨session', hs'⟩ := exists_session_trace hs clients n
  cases above with
  | nil => exact passage?_ne_typed (clients n) habove trivial hs' text
  | cons job above =>
    exact passage?_ne_typed (clients n) habove (habstains job List.mem_cons_self) hs' text

/-- **A delivery of abstaining clients returns.** -/
theorem exists_returns_of_abstains (h : Reachable w) (hagenda : w.agenda = .deliver s :: rest)
    (hs : w.sessions[s]? = some session) (hclients : ∀ n, (clients n).Abstains) :
    ∃ n, w.Returns clients s session rest n := by
  have hend := endsWithin w.backlog (.deliver s) trivial w rest le_rfl hagenda
  obtain ⟨n, hn, -⟩ := hend.exists_trace clients hclients
  exact exists_returns h hagenda hs (untyped_of_abstains hclients hagenda hs)
    ⟨n, not_running_of_agenda_eq hn⟩

/-- **Draining.** What is said of a delivery for session `s`, which is `session` at first, begun
above `rest` in `w`, on a trace. -/
structure Drains (w : World κ ν) (clients : ℕ → Client κ ν) (s : SessionId) (session : Session κ)
    (rest : List (Job κ ν)) : Prop where
  /-- Whenever this or another delivery for the session looks for input, either its job is done and
  nothing else changes, and the session rests; or some of the first characters that wait are taken.
  -/
  takes : ∀ n below before, (w.trace clients n).agenda = .deliver s :: below →
    (w.trace clients n).sessions[s]? = some before →
      w.trace clients (n + 1) = { w.trace clients n with agenda := below } ∧ before.Rests ∨
        ∃ taken after, taken ≠ [] ∧ (w.trace clients (n + 1)).sessions[s]? = some after ∧
          before.decoder.pending = taken ++ after.decoder.pending
  /-- As long as nothing is typed for the session, no more pieces of its input go than characters
  waited at first. -/
  pieces : ∀ n, (∀ text, .typed text ∉ w.passages s (steps clients n)) →
    ∃ last, (w.trace clients n).sessions[s]? = some last ∧
      (w.passages s (steps clients n)).length + last.decoder.pending.length ≤
        session.decoder.pending.length
  /-- If nothing is typed for the session and the handlers come to their end, it returns. -/
  returns : w.Untyped clients s rest → w.Answered clients s rest →
    ∃ n, w.Returns clients s session rest n
  /-- If no client types or changes a size, nothing is typed and the handlers do come to their end,
  and it returns. -/
  ends : (∀ n, (clients n).Abstains) → ∃ n, w.Returns clients s session rest n

/-- **A delivery drains what waits** in every reachable world. -/
theorem Reachable.drains (h : Reachable w) (hagenda : w.agenda = .deliver s :: rest)
    (hs : w.sessions[s]? = some session) (clients : ℕ → Client κ ν) :
    Drains w clients s session rest where
  takes n below before hbelow hbefore := by
    have howned := (reachable_trace h clients n).owned s before hbefore
    rw [trace_succ]
    refine (deliver_progress (clients n) hbelow hbefore).imp (And.imp_right fun hnone => ?_)
      And.left
    exact rests_of_passage?_eq_none hnone fun entry hphase => howned.connected (by simp [hphase])
  pieces n huntyped := length_passages_add_le hs (steps clients n) huntyped
  returns huntyped hanswered :=
    exists_returns h hagenda hs huntyped (exists_not_running hagenda hs huntyped hanswered)
  ends := exists_returns_of_abstains h hagenda hs

/-- A request for a line. -/
private def nextLine : Request Unit := { prompt := ['>'], onLine := (), onComplete? := none }

/-- A client that asks for another line after each. -/
private def insatiable : Client Unit Unit where
  onLine _ _ := .ofCall (.request 0 nextLine)
  onComplete _ k _ := .ofCall (.finish (some k))
  onRead _ _ := .done
  onResize _ _ := .done

/-- A line is asked for, and more than a line is typed. -/
private def severalLines : World Unit Unit :=
  exec insatiable 3 { sessions := [{}], connections := [{}] } <|
    .andThen (.install 0 0) <|
      .andThen (.request 0 nextLine) <|
        .ofCall (.type 0 ['a', Keys.enter, 'b', Keys.enter, 'c'])

private theorem reachable_severalLines : Reachable severalLines := by
  refine Reachable.trans (Pristine.reachable ?_) (run_exec insatiable 3 _ _)
  constructor <;> simp

private theorem abstains_insatiable : insatiable.Abstains :=
  ⟨fun _ _ => ⟨trivial, fun _ => trivial⟩, fun _ _ _ => ⟨trivial, fun _ => trivial⟩,
    fun _ _ => trivial⟩

/-- What is typed ahead is drained, although a request is made in between. -/
theorem drains_severalLines :
    ∃ session, (Reachable severalLines ∧ severalLines.agenda = [.deliver 0, .run .done] ∧
        severalLines.sessions[0]? = some session) ∧
      Drains severalLines (fun _ => insatiable) 0 session [.run .done] ∧
        ∃ n, severalLines.Returns (fun _ => insatiable) 0 session [.run .done] n := by
  have hdrains := reachable_severalLines.drains rfl rfl fun _ => insatiable
  exact ⟨_, ⟨reachable_severalLines, rfl, rfl⟩, hdrains, hdrains.ends fun _ => abstains_insatiable⟩

end World

end LineEditor
