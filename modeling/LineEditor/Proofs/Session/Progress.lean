import LineEditor.Proofs.Session.Course
import LineEditor.Proofs.Session.Ownership
import Mathlib.Algebra.Ring.Nat

/-!
# The progress of a course

`Underway` is the invariant of all worlds in the middle of a move of a course: who owes which calls,
and what kind of jobs are waiting. `Underway.progress` compares a step of the world with the machine
that knows no time. Once all is calm, a step is one advance or nothing, whatever will be typed; and
less is left to do after it.
-/

namespace LineEditor

open Relation

variable {κ ν : Type}

/-! ### The invariant -/

/-- A job that owes no call: a delivery, the end of client code, or the running of one task. -/
inductive Job.Menial : Job κ ν → Prop where
  | deliver : Menial (.deliver 0)
  | done : Menial (.run .done)
  | tasks (count : Nat) : Menial (.tasks 0 (some 1) count fun _ => .done)

/-- The only session, on the only connection. -/
structure Tends (w : World κ ν) (session : Session κ) : Prop where
  sessions : w.sessions = [session]
  connection : session.connection? = some 0
  unread : session.onRead? = none
  kept : session.released = false
  wired : ∃ conn, w.connections = [conn] ∧ conn.input? = some (.session 0) ∧
    ∀ t ∈ conn.tasks, t = 0

/-- The session waits for the last completion, which has not ended. -/
structure Expects (session : Session κ) (completions : List Completion) (k : CompletionId)
    (completion : Completion) (entry : Entry κ) : Prop where
  lookup : completions[k]? = some completion
  last : k + 1 = completions.length
  owner : completion.session = 0
  phase : session.phase = .completing entry
  id : entry.id = completion.entryId
  status : completion.status ≠ .completed

/-- What the session is doing while `calls` are to be made now and `later` after that: it waits for
a completion whose plan goes on with these calls, or is idle when the next request is to be made;
and it may edit only when nothing is owed. -/
inductive Owes (setup : Setup κ) (session : Session κ) (completions : List Completion) :
    List (Call κ ν) → List (Call κ ν) → Prop where
  | nothing (hphase : ∀ entry, session.phase ≠ .completing entry) :
      Owes setup session completions [] []
  | request (hphase : session.phase = .idle) :
      Owes setup session completions [.request 0 setup.request] []
  | completion {k : CompletionId} {completion : Completion} {entry calls later n}
      (hexpects : Expects session completions k completion entry)
      (howed : calls ++ later = (setup.calls k completion).drop n)
      (hne : calls ++ later ≠ []) : Owes setup session completions calls later

/-- The calls that are still to be made later, completion by completion: only those for the last one
are left. -/
structure Books (setup : Setup κ) (atOnce made : CompletionId → Nat)
    (completions : List Completion) (later : List (Call κ ν)) : Prop where
  due : ∀ (k : CompletionId) (completion : Completion), completions[k]? = some completion →
    (setup.calls k completion).drop (atOnce k + made k) =
      if k + 1 = completions.length then later else []
  fresh : ∀ k : CompletionId, completions.length ≤ k → made k = 0

/-- The client code that is to make calls now. -/
def callers : List (Call κ ν) → List (Job κ ν)
  | [] => []
  | calls => [.run (.ofCalls calls)]

/-- A world in the middle of a move. -/
structure Underway (setup : Setup κ) (atOnce made : CompletionId → Nat) (session : Session κ)
    (calls later : List (Call κ ν)) (w : World κ ν) : Prop where
  tends : Tends w session
  agenda : ∃ rest, w.agenda = callers calls ++ rest ∧ ∀ job ∈ rest, job.Menial
  owes : Owes setup session w.completions calls later
  books : Books setup atOnce made w.completions later

/-! ### What elementary changes keep -/

section Tends

variable {w : World κ ν} {session : Session κ}

theorem Tends.lookup (h : Tends w session) : w.sessions[0]? = some session := by
  rw [h.sessions]
  rfl

theorem Tends.session? (h : Tends w session) : w.session? 0 = some session := by
  simp [World.session?, h.lookup, h.kept, Option.filter]

theorem Tends.congr {w' : World κ ν} (h : Tends w session) (hs : w'.sessions = w.sessions)
    (hc : w'.connections = w.connections) : Tends w' session := by
  obtain ⟨h1, h2, h3, h4, h5⟩ := h
  constructor
  · rw [hs, h1]
  · exact h2
  · exact h3
  · exact h4
  · rwa [hc]

theorem Tends.reply (h : Tends w session) (next : Answer → Program κ ν) (a : Answer) :
    Tends (w.reply next a) session :=
  h.congr rfl rfl

theorem Tends.write (h : Tends w session) (c : ConnectionId) (text : List Char) :
    Tends (w.write c text) session :=
  h.congr (World.write_sessions w c text) (World.write_connections w c text)

/-- A change of the session that leaves it where it is. -/
theorem Tends.changeSession (h : Tends w session) {f : Session κ → Session κ}
    (hconnection : (f session).connection? = session.connection?)
    (hread : (f session).onRead? = session.onRead?)
    (hreleased : (f session).released = session.released) :
    Tends (w.changeSession 0 f) (f session) := by
  constructor
  · rw [World.changeSession, h.sessions]
    rfl
  · rw [hconnection, h.connection]
  · rw [hread, h.unread]
  · rw [hreleased, h.kept]
  · exact h.wired

/-- A change of the connection that queues tasks of the session only. -/
theorem Tends.changeConnection (h : Tends w session) {c : ConnectionId}
    {g : Connection → Connection} (hinput : ∀ conn, (g conn).input? = conn.input?)
    (htasks : ∀ conn, (∀ t ∈ conn.tasks, t = 0) → ∀ t ∈ (g conn).tasks, t = 0) :
    Tends (w.changeConnection c g) session := by
  obtain ⟨conn, hconn, hwired, hqueued⟩ := h.wired
  refine ⟨h.sessions, h.connection, h.unread, h.kept, ?_⟩
  cases c with
  | zero =>
    refine ⟨g conn, ?_, by rw [hinput, hwired], htasks conn hqueued⟩
    rw [World.changeConnection, hconn]
    rfl
  | succ c =>
    refine ⟨conn, ?_, hwired, hqueued⟩
    rw [World.changeConnection, hconn]
    exact List.modify_eq_self (by simp)

theorem Tends.schedule (h : Tends w session) : Tends (w.schedule 0) session := by
  obtain heq | ⟨d, heq⟩ := w.schedule_eq_or 0
  · rwa [heq]
  · rw [heq]
    refine h.changeConnection (fun _ => rfl) fun conn hqueued t ht => ?_
    rcases List.mem_append.1 ht with ht | ht
    · exact hqueued t ht
    · exact List.mem_singleton.1 ht

end Tends

section Books

variable {setup : Setup κ} {atOnce made : CompletionId → Nat} {completions : List Completion}
  {later : List (Call κ ν)}

/-- A move of a status leaves the books alone. -/
theorem Books.setStatus (h : Books setup atOnce made completions later) (k : CompletionId)
    (status : Status) :
    Books setup atOnce made (completions.modify k ({ · with status })) later := by
  constructor
  · intro j completion hj
    rw [List.getElem?_modify] at hj
    obtain ⟨completion₀, hj₀, rfl⟩ := Option.map_eq_some_iff.1 hj
    rw [List.length_modify, ← h.due j completion₀ hj₀]
    unfold Setup.calls
    split <;> rfl
  · intro j hj
    rw [List.length_modify] at hj
    exact h.fresh j hj

/-- A completion that begins when nothing is owed. -/
theorem Books.ask (h : Books setup atOnce made completions ([] : List (Call κ ν)))
    (completion : Completion) :
    Books setup atOnce made (completions ++ [completion])
      ((setup.calls completions.length completion : List (Call κ ν)).drop
        (atOnce completions.length)) := by
  constructor
  · rintro (k : Nat) other hk
    rw [List.length_append, List.length_singleton]
    obtain ⟨hlt, hk⟩ | ⟨rfl, rfl⟩ := lt_or_eq_of_getElem?_concat hk
    · have hdue := h.due k other hk
      have hne : ¬ k + 1 = completions.length + 1 := by omega
      rw [if_neg hne, hdue]
      split <;> rfl
    · rw [if_pos rfl, h.fresh _ (Nat.le_refl _), Nat.add_zero]
  · intro k hk
    rw [List.length_append, List.length_singleton] at hk
    exact h.fresh k (Nat.le_of_succ_le hk)

end Books

/-- Every plan has at least the call that ends the completion. -/
theorem Plan.calls_ne_nil {plan : Plan} {k : CompletionId} :
    (plan.calls k : List (Call κ ν)) ≠ [] := by
  cases plan with
  | insertion text terminal => exact List.cons_ne_nil _ _
  | listing texts => exact List.append_ne_nil_of_right_ne_nil _ (List.cons_ne_nil _ _)

/-- A plan goes on with the end of the completion, or with another call and more after it. -/
theorem Plan.calls_drop {plan : Plan} {k : CompletionId} {n : Nat} {call : Call κ ν}
    {rest : List (Call κ ν)} (h : (plan.calls k).drop n = call :: rest) :
    call = .finish (some k) ∧ rest = [] ∨
      rest ≠ [] ∧ ((∃ text terminal, call = .complete (some k) text terminal) ∨
        ∃ text, call = .suggest (some k) text) := by
  have hlast : ∀ (init : List (Call κ ν)) (n : Nat),
      (init ++ [Call.finish (some k)]).drop n = call :: rest →
        call = .finish (some k) ∧ rest = [] ∨ rest ≠ [] ∧ call ∈ init := by
    intro init
    induction init with
    | nil =>
      intro n hn
      cases n with
      | zero =>
        cases hn
        exact .inl ⟨rfl, rfl⟩
      | succ n => simp at hn
    | cons first init ih =>
      intro n hn
      cases n with
      | zero =>
        cases hn
        exact .inr ⟨by simp, List.mem_cons_self⟩
      | succ n =>
        refine (ih n hn).imp_right ?_
        rintro ⟨hrest, hmem⟩
        exact ⟨hrest, List.mem_cons_of_mem first hmem⟩
  -- either kind of plan is calls of its kind and then the end
  cases plan with
  | insertion text terminal =>
    refine (hlast [.complete (some k) text terminal] n h).imp_right ?_
    rintro ⟨hrest, hmem⟩
    exact ⟨hrest, .inl ⟨text, terminal, List.mem_singleton.1 hmem⟩⟩
  | listing texts =>
    refine (hlast (texts.map (.suggest (some k))) n h).imp_right ?_
    rintro ⟨hrest, hmem⟩
    obtain ⟨text, -, rfl⟩ := List.mem_map.1 hmem
    exact ⟨hrest, .inr ⟨text, rfl⟩⟩

/-! ### How much is left to do -/

/-- What a job has left to do, apart from input and calls. -/
def Job.load : Job κ ν → Nat
  | .run (.call _ _) => 0
  | .tasks _ _ _ _ => 2
  | _ => 1

/-- What is left to do in a world: characters wait, calls are owed, and jobs and tasks are to be
done. An event may bring any number of calls, and a call a task. -/
def World.weight (w : World κ ν) (owed : List (Call κ ν)) : Nat × Nat × Nat :=
  ((w.sessions.map (·.decoder.pending.length)).sum, owed.length,
    (w.agenda.map Job.load).sum + 4 * (w.connections.map (·.tasks.length)).sum)

/-- The order in which weights fall. -/
def Lower (a b : Nat × Nat × Nat) : Prop :=
  a.1 < b.1 ∨ a.1 = b.1 ∧ (a.2.1 < b.2.1 ∨ a.2.1 = b.2.1 ∧ a.2.2 < b.2.2)

theorem Lower.trans {a b c : Nat × Nat × Nat} (h : Lower a b) (h' : Lower b c) : Lower a c := by
  unfold Lower at *
  omega

theorem lower_wellFounded : WellFounded Lower := by
  refine Subrelation.wf ?_ (Prod.lex Nat.lt_wfRel (Prod.lex Nat.lt_wfRel Nat.lt_wfRel)).wf
  intro a b h
  exact Prod.lex_def.2 (h.imp_right fun ⟨heq, h⟩ => ⟨heq, Prod.lex_def.2 h⟩)

/-! ### One step of a course -/

section Step

variable {setup : Setup κ} {atOnce made : CompletionId → Nat} {session session' : Session κ}
  {calls later : List (Call κ ν)} {w w' : World κ ν}

/-- A world goes on to another one: what happens is an advance or nothing, whatever will be typed,
and less is left to do. -/
def Progress (setup : Setup κ) (atOnce made : CompletionId → Nat) (w : World κ ν)
    (owed : List (Call κ ν)) (w' : World κ ν) : Prop :=
  ∃ session calls later, Underway setup atOnce made session calls later w' ∧
    (∀ feed, ReflTransGen (Advances setup) (w.calm feed, owed) (w'.calm feed, calls ++ later)) ∧
      Lower (w'.weight (calls ++ later)) (w.weight owed)

/-- Client code that is to make calls stands in front of the other jobs, also when it is to make
none. -/
theorem agenda_ofCalls {rest : List (Job κ ν)} (hrest : ∀ job ∈ rest, job.Menial)
    (calls : List (Call κ ν)) :
    ∃ rest', (.run (.ofCalls calls) :: rest : List (Job κ ν)) = callers calls ++ rest' ∧
      ∀ job ∈ rest', job.Menial := by
  cases calls with
  | nil => exact ⟨.run .done :: rest, rfl, List.forall_mem_cons.2 ⟨.done, hrest⟩⟩
  | cons call calls => exact ⟨rest, rfl, hrest⟩

/-- Another menial job does no harm, when no call is to be made now. -/
theorem Underway.push (h : Underway setup atOnce made session [] later w) {job : Job κ ν}
    (hjob : job.Menial) : Underway setup atOnce made session [] later (w.push job) := by
  obtain ⟨rest, hagenda, hrest⟩ := h.agenda
  refine ⟨h.tends.congr rfl rfl, ⟨job :: rest, ?_, ?_⟩, h.owes, h.books⟩
  · rw [World.push_agenda, hagenda]
    rfl
  · exact List.forall_mem_cons.2 ⟨hjob, hrest⟩

/-- It is progress when nothing comes of a job. -/
theorem Underway.progress_nothing {rest : List (Job κ ν)} {job : Job κ ν}
    (h : Underway setup atOnce made session [] later { w with agenda := rest })
    (hagenda : w.agenda = job :: rest) (hload : 0 < job.load) :
    Progress setup atOnce made w later { w with agenda := rest } := by
  refine ⟨session, [], later, h, fun feed => .refl, .inr ⟨rfl, .inr ⟨rfl, ?_⟩⟩⟩
  simp only [World.weight, hagenda, List.map_cons, List.sum_cons]
  omega

/-- A task is run, or none is left. -/
theorem Underway.progress_tasks {rest : List (Job κ ν)} {count : Nat}
    (h : Underway setup atOnce made session [] later { w with agenda := rest })
    (hagenda : w.agenda = .tasks 0 (some 1) count (fun _ => .done) :: rest) :
    Progress setup atOnce made w later
      (({ w with agenda := rest } : World κ ν).nextTask 0 (some 1) count fun _ => .done) := by
  have hover : Progress setup atOnce made w later
      (({ w with agenda := rest } : World κ ν).reply (fun _ => .done) (.ran count)) := by
    refine ⟨session, [], later, h.push .done, fun feed => .refl, .inr ⟨rfl, .inr ⟨rfl, ?_⟩⟩⟩
    simp [World.weight, hagenda, Job.load]
  unfold World.nextTask
  split
  · exact hover
  · split
    · -- the task becomes a delivery, and a calm world has forgotten it before
      rename_i t tasks htasks
      obtain ⟨conn, hconn, hwired, hqueued⟩ := h.tends.wired
      have hconn' : w.connections = [conn] := hconn
      have htasks : conn.tasks = t :: tasks := by simpa [hconn'] using htasks
      obtain rfl : t = 0 := hqueued t (by simp [htasks])
      have htaken : Underway setup atOnce made session [] later
          (({ w with agenda := rest } : World κ ν).changeConnection 0 ({ · with tasks })) := by
        refine ⟨⟨h.tends.sessions, h.tends.connection, h.tends.unread, h.tends.kept, ?_⟩,
          h.agenda, h.owes, h.books⟩
        refine ⟨{ conn with tasks }, ?_, hwired, fun t ht => hqueued t ?_⟩
        · simp [World.changeConnection, hconn']
        · rw [htasks]
          exact List.mem_cons_of_mem _ ht
      refine ⟨session, [], later, (htaken.push (.tasks (count + 1))).push .deliver, fun feed => ?_,
        .inr ⟨rfl, .inr ⟨rfl, ?_⟩⟩⟩
      · have hcalm : (({ w with agenda := rest } : World κ ν).changeConnection 0
            ({ · with tasks })).calm feed = w.calm feed :=
          World.calm_changeConnection fun _ => rfl
        rw [World.calm_push, World.calm_push, hcalm]
        exact .refl
      · simp [World.weight, World.changeConnection, hagenda, hconn', htasks, Job.load]
        omega
    · exact hover

/-- Making the next call is an advance. -/
theorem advances_call {call : Call κ ν} (hcall : call.Answers) (rest : List (Job κ ν))
    (client : Client κ ν) (next : Answer → Program κ ν) (feed : List Char)
    (owed : List (Call κ ν)) :
    Advances setup (w.calm feed, call :: owed)
      ((({ w with agenda := rest } : World κ ν).perform client call next).calm feed, owed) := by
  rw [World.calm_perform hcall client next next]
  exact .call client next hcall

/-- A call that is to be made now is made. -/
theorem Tends.progress_call (h : Tends w session) {call : Call κ ν} (hcall : call.Answers)
    {rest : List (Job κ ν)} (hrest : ∀ job ∈ rest, job.Menial)
    (hw' : ({ w with agenda := rest } : World κ ν).perform (setup.client atOnce) call
      (fun _ => .ofCalls calls) = w')
    (htends : Tends w' session') (hdecoder : session'.decoder = session.decoder)
    (hagenda : w'.agenda = .run (.ofCalls calls) :: rest)
    (howes : Owes setup session' w'.completions calls later)
    (hbooks : Books setup atOnce made w'.completions later) :
    Progress setup atOnce made w (call :: calls ++ later) w' := by
  obtain ⟨rest', hagenda', hrest'⟩ := agenda_ofCalls hrest calls
  refine ⟨session', calls, later, ⟨htends, ⟨rest', ?_, hrest'⟩, howes, hbooks⟩, fun feed => ?_,
    .inr ⟨?_, .inl ?_⟩⟩
  · rw [hagenda, hagenda']
  · rw [← hw']
    exact .single (advances_call hcall rest _ _ feed _)
  · simp [World.weight, htends.sessions, h.sessions, hdecoder]
  · simp [World.weight]

/-- The next request is made. -/
theorem Tends.progress_request (h : Tends w session) {rest : List (Job κ ν)}
    (hrest : ∀ job ∈ rest, job.Menial) (hidle : session.phase = .idle)
    (hbooks : Books setup atOnce made w.completions ([] : List (Call κ ν))) :
    Progress setup atOnce made w [.request 0 setup.request]
      (({ w with agenda := rest } : World κ ν).perform (setup.client atOnce)
        (.request 0 setup.request) fun _ => .ofCalls []) := by
  have htends : Tends ({ w with agenda := rest } : World κ ν) session := h.congr rfl rfl
  have hasked : Tends (({ w with agenda := rest } : World κ ν).changeSession 0 fun session =>
        { session with
          phase := .editing { id := session.nextId, request := setup.request }
          nextId := session.nextId + 1 })
      { session with
        phase := .editing { id := session.nextId, request := setup.request }
        nextId := session.nextId + 1 } := by
    refine htends.changeSession ?_ ?_ ?_ <;> rfl
  have hdone := (hasked.write 0 setup.request.prompt).schedule.reply (fun _ => .ofCalls []) .done
  have hperform : ({ w with agenda := rest } : World κ ν).perform (setup.client atOnce)
      (.request 0 setup.request) (fun _ => .ofCalls []) =
      (((({ w with agenda := rest } : World κ ν).changeSession 0 fun session =>
        { session with
          phase := .editing { id := session.nextId, request := setup.request }
          nextId := session.nextId + 1 }).write 0 setup.request.prompt).schedule 0).reply
        (fun _ => .ofCalls []) .done := by
    simp only [World.perform, World.onSession, htends.session?, World.request, htends.lookup,
      h.connection, hidle, Phase.isIdle, if_true]
    rfl
  rw [hperform]
  change Progress setup atOnce made w (.request 0 setup.request :: [] ++ []) _
  refine h.progress_call trivial hrest hperform hdone rfl ?_ ?_ ?_
  · simp
  · refine .nothing fun entry hcompleting => ?_
    cases hcompleting
  · simpa using hbooks

/-- What is said of a completion before its end leaves everything as it is, but for the line that
waits and the status. -/
structure Said (session : Session κ) (k : CompletionId) (entry : Entry κ) (w w' : World κ ν) :
    Prop where
  tends : ∃ line, Tends w' { session with phase := .completing { entry with line } }
  agenda : w'.agenda = w.agenda
  completions : w'.completions = w.completions ∨
    ∃ status, status ≠ .completed ∧ w'.completions = w.completions.modify k ({ · with status })

/-- A session that waits has the phase of one that waits with the line of its entry. -/
theorem Tends.same_line {entry : Entry κ} (h : Tends w session)
    (hphase : session.phase = .completing entry) :
    ∃ line, Tends w { session with phase := .completing { entry with line } } := by
  refine ⟨entry.line, ?_⟩
  have hsame :
      { session with phase := .completing { entry with line := entry.line } } = session := by
    rw [← hphase]
  rwa [hsame]

section Said

variable {k : CompletionId} {completion : Completion} {entry : Entry κ}

/-- Text is put into the line that waits, or nothing happens. -/
theorem Tends.complete (h : Tends w session)
    (hexpects : Expects session w.completions k completion entry) (text : List Char)
    (terminal : Bool) : Said session k entry w (w.complete k completion text terminal).1 := by
  have hwaiting : (w.setStatus k .inlining).waiting? completion = some (0, entry) := by
    refine World.waiting?_eq_some_iff.2 ⟨session, ?_, h.connection, hexpects.phase, hexpects.id⟩
    rw [hexpects.owner]
    exact h.lookup
  have hmoved : Tends (w.setStatus k .inlining) session := h.congr rfl rfl
  unfold World.complete
  simp only [hwaiting]
  split
  · exact ⟨h.same_line hexpects.phase, rfl, .inl rfl⟩
  · split
    · exact ⟨h.same_line hexpects.phase, rfl, .inl rfl⟩
    · split
      · exact ⟨hmoved.same_line hexpects.phase, rfl, .inr ⟨.inlining, nofun, rfl⟩⟩
      · rw [hexpects.owner]
        refine ⟨⟨_, (hmoved.changeSession ?_ ?_ ?_).write _ _⟩, ?_, .inr ⟨.inlining, nofun, ?_⟩⟩
        · rfl
        · rfl
        · rfl
        · simp
        · simp [World.setStatus]

/-- Suggestions are listed, or nothing happens. -/
theorem Tends.suggest (h : Tends w session)
    (hexpects : Expects session w.completions k completion entry) (text : List Char) :
    Said session k entry w (w.suggest k completion text).1 := by
  have hmoved : Tends (w.setStatus k .completing) session := h.congr rfl rfl
  unfold World.suggest
  split
  · simp only
    split
    · exact ⟨hmoved.same_line hexpects.phase, rfl, .inr ⟨.completing, nofun, rfl⟩⟩
    · refine ⟨(hmoved.write _ _).same_line hexpects.phase, ?_, .inr ⟨.completing, nofun, ?_⟩⟩
      · simp
      · simp [World.setStatus]
  · exact ⟨h.same_line hexpects.phase, rfl, .inl rfl⟩

/-- The session waits on. -/
theorem Said.expects (h : Said session k entry w w')
    (hexpects : Expects session w.completions k completion entry) :
    ∃ session' completion' entry', Tends w' session' ∧ session'.decoder = session.decoder ∧
      completion'.snapshot = completion.snapshot ∧
        Expects session' w'.completions k completion' entry' := by
  obtain ⟨line, htends⟩ := h.tends
  rcases h.completions with heq | ⟨status, hstatus, heq⟩
  · refine ⟨_, completion, { entry with line }, htends, rfl, rfl, ?_⟩
    rw [heq]
    exact { hexpects with phase := rfl }
  · refine ⟨_, { completion with status }, { entry with line }, htends, rfl, rfl, ?_⟩
    rw [heq]
    constructor
    · rw [List.getElem?_modify, hexpects.lookup]
      simp
    · rw [List.length_modify, hexpects.last]
    · exact hexpects.owner
    · rfl
    · exact hexpects.id
    · exact hstatus

theorem Said.books (h : Said session k entry w w')
    (hbooks : Books setup atOnce made w.completions later) :
    Books setup atOnce made w'.completions later := by
  rcases h.completions with heq | ⟨status, -, heq⟩
  · rwa [heq]
  · rw [heq]
    exact hbooks.setStatus k status

/-- A completion that is waited for ends. -/
theorem Tends.finish (h : Tends w session)
    (hexpects : Expects session w.completions k completion entry) :
    Tends (w.finish k completion).1 { session with phase := .editing entry } ∧
      (w.finish k completion).1.agenda = w.agenda ∧
        (w.finish k completion).1.completions =
          w.completions.modify k ({ · with status := .completed }) := by
  have hlookup : w.sessions[completion.session]? = some session := by
    rw [hexpects.owner]
    exact h.lookup
  have hmoved : Tends (w.setStatus k .completed) session := h.congr rfl rfl
  unfold World.finish
  simp only [if_neg hexpects.status, World.setStatus_sessions, hlookup, hexpects.phase,
    if_pos hexpects.id]
  -- whether the line has been redrawn or not, the session edits its entry again
  suffices hkept : ∀ v : World κ ν, Tends v session → v.agenda = w.agenda →
      v.completions = w.completions.modify k ({ · with status := .completed }) →
        Tends ((v.changeSession completion.session ({ · with phase := .editing entry })).schedule
            completion.session) { session with phase := .editing entry } ∧
          ((v.changeSession completion.session ({ · with phase := .editing entry })).schedule
            completion.session).agenda = w.agenda ∧
          ((v.changeSession completion.session ({ · with phase := .editing entry })).schedule
            completion.session).completions =
              w.completions.modify k ({ · with status := .completed }) by
    split
    · exact hkept _ (hmoved.write _ _) (by simp) (by simp [World.setStatus])
    · exact hkept _ hmoved rfl rfl
  intro v hv hagenda hcompletions
  rw [hexpects.owner]
  have hresumed : Tends (v.changeSession 0 ({ · with phase := .editing entry }))
      { session with phase := .editing entry } := by
    refine hv.changeSession ?_ ?_ ?_ <;> rfl
  refine ⟨hresumed.schedule, ?_, ?_⟩
  · rw [World.schedule_agenda, World.changeSession_agenda, hagenda]
  · rw [World.schedule_completions, World.changeSession_completions, hcompletions]

/-- Something is said of the completion that the session waits for, and more is to be said. -/
theorem Tends.progress_said (h : Tends w session) {call : Call κ ν} {rest : List (Job κ ν)}
    (hrest : ∀ job ∈ rest, job.Menial)
    (hexpects : Expects session w.completions k completion entry) {n : Nat}
    (howed : call :: (calls ++ later) = (setup.calls k completion).drop n)
    (hne : calls ++ later ≠ []) (hbooks : Books setup atOnce made w.completions later)
    {a : Answer} (hsaid : Said session k entry { w with agenda := rest } w')
    (hperform : ({ w with agenda := rest } : World κ ν).perform (setup.client atOnce) call
      (fun _ => .ofCalls calls) = w'.reply (fun _ => .ofCalls calls) a) (hcall : call.Answers) :
    Progress setup atOnce made w (call :: calls ++ later)
      (w'.reply (fun _ => .ofCalls calls) a) := by
  obtain ⟨session', completion', entry', htends', hdecoder, hsnapshot, hexpects'⟩ :=
    hsaid.expects hexpects
  have hnext : calls ++ later = (setup.calls k completion').drop (n + 1) := by
    rw [Setup.calls, hsnapshot, ← List.drop_drop, ← Setup.calls, ← howed]
    rfl
  refine h.progress_call hcall hrest hperform (htends'.reply _ _) hdecoder ?_ ?_ ?_
  · rw [World.reply_agenda, hsaid.agenda]
  · exact .completion hexpects' hnext hne
  · exact hsaid.books hbooks

/-- The next call is made that is owed for the completion that the session waits for. -/
theorem Tends.progress_answer (h : Tends w session) {call : Call κ ν} {rest : List (Job κ ν)}
    (hrest : ∀ job ∈ rest, job.Menial)
    (hexpects : Expects session w.completions k completion entry) {n : Nat}
    (howed : call :: (calls ++ later) = (setup.calls k completion).drop n)
    (hbooks : Books setup atOnce made w.completions later) :
    Progress setup atOnce made w (call :: calls ++ later)
      (({ w with agenda := rest } : World κ ν).perform (setup.client atOnce) call
        fun _ => .ofCalls calls) := by
  have htends : Tends ({ w with agenda := rest } : World κ ν) session := h.congr rfl rfl
  have hon : ∀ act : CompletionId → Completion → World κ ν,
      ({ w with agenda := rest } : World κ ν).onCompletion (some k) (fun _ => .ofCalls calls) act =
        act k completion := by
    intro act
    simp [World.onCompletion, World.completionId, hexpects.lookup]
  -- the last call of the plan ends the completion; before it there is always another one
  obtain ⟨rfl, hnil⟩ | ⟨hne, ⟨text, terminal, rfl⟩ | ⟨text, rfl⟩⟩ := Plan.calls_drop howed.symm
  · obtain ⟨rfl, rfl⟩ := List.append_eq_nil_iff.1 hnil
    obtain ⟨hv, hagenda, hcompletions⟩ := htends.finish hexpects
    have hperform : ({ w with agenda := rest } : World κ ν).perform (setup.client atOnce)
        (.finish (some k)) (fun _ => .ofCalls []) =
          (({ w with agenda := rest } : World κ ν).finish k completion).1.reply
            (fun _ => .ofCalls []) (World.answerOf
              (({ w with agenda := rest } : World κ ν).finish k completion).2) := by
      simp only [World.perform, hon]
    rw [hperform]
    refine h.progress_call trivial hrest hperform (hv.reply _ _) rfl ?_ (.nothing nofun) ?_
    · rw [World.reply_agenda, hagenda]
    · rw [World.reply_completions, hcompletions]
      exact hbooks.setStatus k .completed
  · have hperform : ({ w with agenda := rest } : World κ ν).perform (setup.client atOnce)
        (.complete (some k) text terminal) (fun _ => .ofCalls calls) =
          (({ w with agenda := rest } : World κ ν).complete k completion text terminal).1.reply
            (fun _ => .ofCalls calls) (World.answerOf
              (({ w with agenda := rest } : World κ ν).complete k completion text terminal).2) := by
      simp only [World.perform, hon]
    rw [hperform]
    exact h.progress_said hrest hexpects howed hne hbooks
      (htends.complete hexpects text terminal) hperform trivial
  · have hperform : ({ w with agenda := rest } : World κ ν).perform (setup.client atOnce)
        (.suggest (some k) text) (fun _ => .ofCalls calls) =
          (({ w with agenda := rest } : World κ ν).suggest k completion text).1.reply
            (fun _ => .ofCalls calls) (World.answerOf
              (({ w with agenda := rest } : World κ ν).suggest k completion text).2) := by
      simp only [World.perform, hon]
    rw [hperform]
    exact h.progress_said hrest hexpects howed hne hbooks (htends.suggest hexpects text) hperform
      trivial

end Said

/-- Client code that is run for a line makes the calls that it owes for it. -/
theorem onLine_client (k : CompletionId) (handler : κ) (line : List Char) :
    (setup.client atOnce : Client κ ν).onLine handler line =
      .ofCalls (setup.owed k (.submitted line)) := by
  unfold Setup.client Setup.owed
  simp only
  split <;> rfl

/-- After an event has been handled, the session is where it was. -/
theorem Tends.afterEvent (h : Tends w session) (handled : Handled κ) (decoder : Keys.Decoder)
    (phase : Phase κ) :
    ∃ session', Tends (w.afterEvent 0 0 handled decoder phase) session' ∧
      session'.phase = phase ∧ session'.decoder = decoder := by
  have hchanged : Tends (w.changeSession 0 ({ · with phase, decoder, history := handled.history }))
      { session with phase, decoder, history := handled.history } := by
    refine h.changeSession ?_ ?_ ?_ <;> rfl
  exact ⟨_, (hchanged.write 0 handled.written).congr rfl rfl, rfl, rfl⟩

/-- Handling an event is progress, when what is owed after it is what it makes the client owe. -/
theorem Tends.progress_handled (h : Tends w session) (calls later : List (Call κ ν))
    {rest : List (Job κ ν)} {entry : Entry κ} {event : KeyEvent} {decoder : Keys.Decoder}
    {handled : Handled κ} {phase : Phase κ}
    (hh : ({ w with agenda := rest } : World κ ν).Handles 0 session entry 0 event decoder)
    (hhandled : entry.handle session.functions session.history session.continuation event =
      handled)
    (hw' : ({ w with agenda := rest } : World κ ν).handleEvent (setup.client atOnce) 0 session
      entry 0 event decoder = w')
    (hsessions : w'.sessions = (({ w with agenda := rest } : World κ ν).afterEvent 0 0 handled
      decoder phase).sessions)
    (hconnections : w'.connections = w.connections)
    (hagenda : ∃ rest', w'.agenda = callers calls ++ rest' ∧ ∀ job ∈ rest', job.Menial)
    (howes : ∀ session' : Session κ, session'.phase = phase →
      Owes setup session' w'.completions calls later)
    (hbooks : Books setup atOnce made w'.completions later)
    (howed : calls ++ later = setup.owed w.completions.length handled.outcome) :
    Progress setup atOnce made w [] w' := by
  have htends : Tends ({ w with agenda := rest } : World κ ν) session := h.congr rfl rfl
  obtain ⟨session', hafter, hphase, hdecoder⟩ := htends.afterEvent handled decoder phase
  have htends' : Tends w' session' :=
    hafter.congr hsessions (by rw [hconnections, World.afterEvent_connections])
  refine ⟨session', calls, later, ⟨htends', hagenda, howes session' hphase, hbooks⟩,
    fun feed => ?_, .inl ?_⟩
  · rw [howed, ← hhandled, ← hw', World.calm_handleEvent (setup.client atOnce)]
    exact .single (.event (setup.client atOnce) (hh.calm feed))
  · have hlt := Keys.Decoder.length_lt_of_next hh.next
    simpa [World.weight, htends'.sessions, h.sessions, hdecoder] using hlt

/-- An event is handled. -/
theorem Tends.progress_event (h : Tends w session) {rest : List (Job κ ν)}
    (hrest : ∀ job ∈ rest, job.Menial) {entry : Entry κ} {event : KeyEvent}
    {decoder : Keys.Decoder}
    (hh : ({ w with agenda := rest } : World κ ν).Handles 0 session entry 0 event decoder)
    (hbooks : Books setup atOnce made w.completions ([] : List (Call κ ν))) :
    Progress setup atOnce made w []
      (({ w with agenda := rest } : World κ ν).handleEvent (setup.client atOnce) 0 session entry 0
        event decoder) := by
  generalize hhandled :
    entry.handle session.functions session.history session.continuation event = handled
  have hmenial : ∀ job ∈ (.deliver 0 :: rest : List (Job κ ν)), job.Menial :=
    List.forall_mem_cons.2 ⟨.deliver, hrest⟩
  -- what an event makes the client owe is to be made at once or later
  cases houtcome : handled.outcome with
  | goesOn =>
    rw [World.handleEvent_goesOn hhandled houtcome]
    refine h.progress_handled [] [] hh hhandled
      (World.handleEvent_goesOn hhandled houtcome) rfl ?_ ?_ ?_ ?_ ?_
    · rw [World.afterEvent_connections]
    · exact ⟨.deliver 0 :: rest, World.afterEvent_agenda .., hmenial⟩
    · intro session' hphase
      exact .nothing (by simp [hphase])
    · rwa [World.afterEvent_completions]
    · rw [houtcome]
      rfl
  | submitted line =>
    rw [World.handleEvent_submitted hhandled houtcome]
    refine h.progress_handled (setup.owed w.completions.length (.submitted line)) [] hh hhandled
      (World.handleEvent_submitted hhandled houtcome) rfl ?_ ?_ ?_ ?_ ?_
    · simp
    · rw [World.push_agenda, World.log_agenda, World.afterEvent_agenda, onLine_client]
      exact agenda_ofCalls hmenial _
    · intro session' hphase
      unfold Setup.owed
      simp only
      split
      · exact .request hphase
      · exact .nothing (by simp [hphase])
    · simpa using hbooks
    · rw [houtcome, List.append_nil]
  | asked handler snapshot =>
    obtain ⟨completion, hcompletion⟩ : ∃ completion : Completion, completion =
        { session := 0, entryId := entry.id, snapshot, size? := session.size? } := ⟨_, rfl⟩
    rw [World.handleEvent_asked hhandled houtcome hcompletion]
    have hsnapshot : completion.snapshot = snapshot := by rw [hcompletion]
    have howed : (setup.calls w.completions.length completion).take (atOnce w.completions.length) ++
        (setup.calls w.completions.length completion).drop (atOnce w.completions.length) =
          (setup.owed w.completions.length handled.outcome : List (Call κ ν)) := by
      rw [List.take_append_drop, houtcome, Setup.calls, hsnapshot]
      rfl
    refine h.progress_handled _ _ hh hhandled
      (World.handleEvent_asked hhandled houtcome hcompletion) rfl ?_ ?_ ?_ ?_ howed
    · rw [World.push_connections, World.log_connections]
      exact World.afterEvent_connections ..
    · rw [World.push_agenda, World.log_agenda]
      have hagenda := World.afterEvent_agenda ({ w with agenda := rest } : World κ ν) 0 0 handled
        decoder (.completing handled.entry)
      simp only [hagenda]
      exact agenda_ofCalls hmenial _
    · intro session' hphase
      have hexpects : Expects session' (w.completions ++ [completion]) w.completions.length
          completion handled.entry := by
        constructor
        · simp
        · simp
        · rw [hcompletion]
        · exact hphase
        · rw [hcompletion, ← hhandled]
          exact entry.id_handle ..
        · rw [hcompletion]
          nofun
      refine .completion hexpects (n := 0) ?_ ?_
      · rw [List.take_append_drop, List.drop_zero]
      · rw [List.take_append_drop]
        exact Plan.calls_ne_nil
    · exact hbooks.ask completion

/-- A session deals with its input. When it edits, nothing is owed; and when it does not, nothing
happens. -/
theorem Underway.progress_deliver {rest : List (Job κ ν)}
    (h : Underway setup atOnce made session [] later { w with agenda := rest })
    (hagenda : w.agenda = .deliver 0 :: rest) :
    Progress setup atOnce made w later
      (({ w with agenda := rest } : World κ ν).deliver (setup.client atOnce) 0) := by
  have hstop : Progress setup atOnce made w later { w with agenda := rest } :=
    h.progress_nothing hagenda Nat.one_pos
  unfold World.deliver
  simp only [h.tends.lookup]
  split
  · exact hstop
  · rename_i event decoder hnext
    split
    · exact hstop
    · simp only [h.tends.unread]
      exact hstop
    · rename_i entry hphase
      have hlater : later = [] := by
        cases h.owes with
        | nothing _ => rfl
        | completion hexpects => cases hphase.symm.trans hexpects.phase
      subst hlater
      simp only [h.tends.connection]
      have htends : Tends w session := h.tends.congr rfl rfl
      have hrest : ∀ job ∈ rest, job.Menial := by
        obtain ⟨rest', rfl, hrest'⟩ := h.agenda
        exact hrest'
      exact htends.progress_event hrest ⟨h.tends.lookup, hphase, h.tends.connection, hnext⟩ h.books

/-- **A step** of a world that is underway is progress. -/
theorem Underway.progress (h : Underway setup atOnce made session calls later w)
    (hagenda : w.agenda ≠ []) :
    Progress setup atOnce made w (calls ++ later) (w.step (setup.client atOnce)) := by
  obtain ⟨jobs, hcallers, hjobs⟩ := h.agenda
  cases calls with
  | cons call calls =>
    have hstep : w.step (setup.client atOnce) = ({ w with agenda := jobs } : World κ ν).perform
        (setup.client atOnce) call fun _ => .ofCalls calls := by
      rw [World.step, hcallers]
      rfl
    rw [hstep]
    cases h.owes with
    | request hidle => exact h.tends.progress_request hjobs hidle h.books
    | completion hexpects howed _ => exact h.tends.progress_answer hjobs hexpects howed h.books
  | nil =>
    have hagenda' : w.agenda = jobs := hcallers
    obtain ⟨job, rest, rfl⟩ := List.exists_cons_of_ne_nil (hagenda' ▸ hagenda)
    obtain ⟨hjob, hrest⟩ := List.forall_mem_cons.1 hjobs
    have htaken : Underway setup atOnce made session [] later { w with agenda := rest } :=
      ⟨h.tends.congr rfl rfl, ⟨rest, rfl, hrest⟩, h.owes, h.books⟩
    rw [World.step, hagenda']
    cases hjob with
    | deliver => exact htaken.progress_deliver hagenda'
    | done => exact htaken.progress_nothing hagenda' Nat.one_pos
    | tasks count => exact htaken.progress_tasks hagenda'

end Step

end LineEditor
