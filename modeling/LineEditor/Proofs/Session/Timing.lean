import LineEditor.Proofs.Session.Progress
import LineEditor.Proofs.Session.Wakeup

/-!
# Timing independence

What becomes of a course does not depend on when things happen in it, once it is complete
(`Setup.timing_independent`). A move begins with one step that is read off, and goes on with
progress until nothing is running; so every moment is reached, by the machine that knows no time,
from the opening world in which everything has already been typed that is typed up to then
(`Moment.Sound`).
That machine has one way to advance, and at the end of a complete course it has none: no call is
owed, and no wake-up is lost. So there is one end.

Every course can be completed, since all that progress does is worked off.
-/

namespace LineEditor

open Relation

variable {κ ν : Type} {setup : Setup κ} {atOnce made : CompletionId → Nat} {session : Session κ}
  {calls later : List (Call κ ν)} {w w' : World κ ν}

/-! ### Coming to rest -/

theorem Lower.trans_reflGen {a b c : Nat × Nat × Nat} (h : Lower b c) (h' : ReflGen Lower a b) :
    Lower a c := by
  cases h' with
  | refl => exact h
  | single h' => exact h'.trans h

/-- However long a world that is underway runs, it is underway still. -/
theorem Underway.settle (h : Underway setup atOnce made session calls later w) (fuel : Nat) :
    ∃ session' calls' later',
      Underway setup atOnce made session' calls' later' (w.settle (setup.client atOnce) fuel) ∧
        (∀ feed, ReflTransGen (Advances setup) (w.calm feed, calls ++ later)
          ((w.settle (setup.client atOnce) fuel).calm feed, calls' ++ later')) ∧
        ReflGen Lower ((w.settle (setup.client atOnce) fuel).weight (calls' ++ later'))
          (w.weight (calls ++ later)) := by
  induction fuel generalizing session calls later w with
  | zero => exact ⟨session, calls, later, h, fun _ => .refl, .refl⟩
  | succ fuel ih =>
    rw [World.settle]
    split
    · exact ⟨session, calls, later, h, fun _ => .refl, .refl⟩
    · rename_i hagenda
      obtain ⟨session₁, calls₁, later₁, h₁, hadvances₁, hlower₁⟩ :=
        h.progress (by simpa using hagenda)
      obtain ⟨session₂, calls₂, later₂, h₂, hadvances₂, hnot⟩ := ih h₁
      refine ⟨session₂, calls₂, later₂, h₂,
        fun feed => (hadvances₁ feed).trans (hadvances₂ feed), .single ?_⟩
      exact hlower₁.trans_reflGen hnot

/-- A world that is underway comes to rest. -/
theorem Underway.settles (h : Underway setup atOnce made session calls later w) :
    ∃ fuel, (w.settle (setup.client atOnce) fuel).agenda = [] := by
  generalize hweight : w.weight (calls ++ later) = weight
  induction weight using lower_wellFounded.induction generalizing session calls later w with
  | _ weight ih =>
    by_cases hagenda : w.agenda = []
    · exact ⟨0, hagenda⟩
    · obtain ⟨session', calls', later', h', -, hlower⟩ := h.progress hagenda
      obtain ⟨fuel, hfuel⟩ := ih _ (hweight ▸ hlower) h' rfl
      refine ⟨fuel + 1, ?_⟩
      rwa [World.settle, if_neg (by simpa using hagenda)]

/-- At rest no call is to be made now. -/
theorem Underway.calls_eq_nil (h : Underway setup atOnce made session calls later w)
    (hw : w.agenda = []) : calls = [] := by
  obtain ⟨rest, hagenda, -⟩ := h.agenda
  cases calls with
  | nil => rfl
  | cons call calls =>
    rw [hw] at hagenda
    cases hagenda

/-- A world at rest, where `later` is owed. -/
def Rests (setup : Setup κ) (atOnce made : CompletionId → Nat) (later : List (Call κ ν))
    (w : World κ ν) : Prop :=
  (∃ session, Underway setup atOnce made session [] later w) ∧ w.agenda = []

/-- What a world that is underway comes to. -/
theorem Underway.rests (h : Underway setup atOnce made session calls later w) {fuel : Nat}
    (hw : (w.settle (setup.client atOnce) fuel).agenda = []) :
    ∃ later', Rests setup atOnce made later' (w.settle (setup.client atOnce) fuel) ∧
      (∀ feed, ReflTransGen (Advances setup) (w.calm feed, calls ++ later)
        ((w.settle (setup.client atOnce) fuel).calm feed, later')) ∧
      ReflGen Lower ((w.settle (setup.client atOnce) fuel).weight later')
        (w.weight (calls ++ later)) := by
  obtain ⟨session', calls', later', h', hadvances, hnot⟩ := h.settle fuel
  obtain rfl := h'.calls_eq_nil hw
  exact ⟨later', ⟨⟨session', h'⟩, hw⟩, hadvances, hnot⟩

/-- Client code that makes one call has come to its end when all has that comes of the call. -/
theorem World.settles_ofCall {client : Client κ ν} {call : Call κ ν} :
    w.Settles client (.ofCall call) w' ↔
      ∃ fuel, (w.perform client call fun _ => .done).settle client fuel = w' ∧ w'.agenda = [] := by
  have hfirst : ∀ fuel, w.exec client (fuel + 1) (.ofCall call) =
      (w.perform client call fun _ => .done).settle client fuel := by
    intro fuel
    rw [World.exec, World.settle, if_neg (by simp)]
    rfl
  constructor
  · rintro ⟨fuel, hexec, hagenda⟩
    cases fuel with
    | zero =>
      rw [← hexec] at hagenda
      cases hagenda
    | succ fuel => exact ⟨fuel, (hfirst fuel).symm.trans hexec, hagenda⟩
  · rintro ⟨fuel, hsettle, hagenda⟩
    exact ⟨fuel + 1, (hfirst fuel).trans hsettle, hagenda⟩

/-! ### Moves -/

/-- A call that was owed later has been made. -/
theorem Books.answer {completions : List Completion} {call : Call κ ν} {k : CompletionId}
    {completion : Completion} (h : Books setup atOnce made completions (call :: later))
    (hk : completions[k]? = some completion) (hlast : k + 1 = completions.length) :
    Books setup atOnce (fun j => if j = k then made j + 1 else made j) completions later := by
  constructor
  · intro j other hj
    by_cases hjk : j = k
    · subst hjk
      have hdue := h.due j other hj
      rw [if_pos hlast] at hdue
      rw [if_pos rfl, if_pos hlast, ← Nat.add_assoc, ← List.drop_drop, hdue]
      rfl
    · have hne : ¬ j + 1 = completions.length := fun heq =>
        hjk (Nat.succ.inj (heq.trans hlast.symm))
      have hdue := h.due j other hj
      rw [if_neg hne] at hdue
      rw [if_neg hjk, if_neg hne, hdue]
  · intro j hj
    have hne : j ≠ k := fun heq => by
      rw [heq, ← hlast] at hj
      exact Nat.not_succ_le_self k hj
    rw [if_neg hne]
    exact h.fresh j hj

/-- A piece of text has just been typed. -/
theorem Underway.type (h : Underway setup atOnce made session [] later w) (text : List Char) :
    Underway setup atOnce made (session.fed text) [] later
        (w.perform (setup.client atOnce) (.type 0 text) fun _ => .done) ∧
      ∀ feed, (w.perform (setup.client atOnce) (.type 0 text) fun _ => .done).calm feed =
        w.calm (text ++ feed) := by
  obtain ⟨conn, hconn, hwired, -⟩ := h.tends.wired
  have hperform : w.perform (setup.client atOnce) (.type 0 text) (fun _ => .done) =
      ((w.push (.run .done)).changeSession 0 (·.fed text)).push (.deliver 0) := by
    simp only [World.perform, World.type, hconn, List.getElem?_cons_zero, Option.bind_some, hwired,
      h.tends.session?]
    rfl
  rw [hperform]
  constructor
  · have hdone := h.push .done
    have htyped : Tends ((w.push (.run .done)).changeSession 0 (·.fed text))
        (session.fed text) := by
      refine hdone.tends.changeSession ?_ ?_ ?_ <;> rfl
    refine Underway.push ⟨htyped, hdone.agenda, ?_, hdone.books⟩ .deliver
    cases h.owes with
    | nothing hphase => exact .nothing hphase
    | completion hexpects howed hne => exact .completion { hexpects with } howed hne
  · intro feed
    simp [World.calm, World.changeSession, h.tends.sessions, Session.fed_fed]

/-- A call has just been made that was owed later. -/
theorem Underway.answer (h : Underway setup atOnce made session [] later w) (hw : w.agenda = [])
    {k : CompletionId} {completion : Completion} {call : Call κ ν}
    (hk : w.completions[k]? = some completion)
    (hcall : (setup.calls k completion)[atOnce k + made k]? = some call) :
    Progress setup atOnce (fun j => if j = k then made j + 1 else made j) w later
      (w.perform (setup.client atOnce) call fun _ => .done) := by
  have hdue := h.books.due k completion hk
  obtain ⟨hlt, hget⟩ := List.getElem?_eq_some_iff.1 hcall
  rw [List.drop_eq_getElem_cons hlt, hget] at hdue
  -- an earlier completion owes nothing any more
  have hlast : k + 1 = w.completions.length := by
    by_contra hne
    rw [if_neg hne] at hdue
    cases hdue
  rw [if_pos hlast] at hdue
  subst hdue
  generalize (setup.calls k completion).drop (atOnce k + made k + 1) = rest at h
  have hstart : Underway setup atOnce (fun j => if j = k then made j + 1 else made j) session [call]
      rest (w.push (.run (.ofCalls [call]))) := by
    refine ⟨h.tends.congr rfl rfl, ⟨[], ?_, nofun⟩, ?_, h.books.answer hk hlast⟩
    · rw [World.push_agenda, hw]
      rfl
    · cases h.owes with
      | completion hexpects howed hne => exact .completion hexpects howed hne
  obtain ⟨session', calls', later', hunderway, hadvances, hlower⟩ := hstart.progress nofun
  have hweight : (w.push (.run (.ofCalls [call]))).weight ([call] ++ rest) =
      w.weight (call :: rest) := by
    simp [World.weight, Program.ofCalls, Program.andThen, Job.load]
  refine ⟨session', calls', later', hunderway, hadvances, ?_⟩
  rw [← hweight]
  exact hlower

/-! ### Soundness -/

/-- What is true of every moment of a course. It is at rest, owes `later`, and comes from the
opening world in which all has been typed already: what is typed up to then, and whatever will be
typed. -/
structure Moment.Sound (m : Moment κ ν) (setup : Setup κ) (atOnce : CompletionId → Nat)
    (later : List (Call κ ν)) : Prop where
  rests : Rests setup atOnce m.made later m.world
  reachable : m.world.Reachable
  advances : ∀ feed, ReflTransGen (Advances setup) (setup.opening.calm (m.typed ++ feed), [])
    (m.world.calm feed, later)

/-- What a call comes to that is made at a sound moment. -/
theorem Moment.Sound.settle {m : Moment κ ν} (h : m.Sound setup atOnce later) {call : Call κ ν}
    (text : List Char) (hw' : m.world.Settles (setup.client atOnce) (.ofCall call) w')
    {later₁ : List (Call κ ν)}
    (hunderway : Underway setup atOnce made session calls later₁
      (m.world.perform (setup.client atOnce) call fun _ => .done))
    (hadvances : ∀ feed, ReflTransGen (Advances setup) (m.world.calm (text ++ feed), later)
      ((m.world.perform (setup.client atOnce) call fun _ => .done).calm feed, calls ++ later₁)) :
    ∃ later', (⟨w', m.typed ++ text, made⟩ : Moment κ ν).Sound setup atOnce later' := by
  obtain ⟨fuel, rfl, hagenda⟩ := World.settles_ofCall.1 hw'
  obtain ⟨later', hrests, hlater, -⟩ := hunderway.rests hagenda
  refine ⟨later', hrests, ?_, fun feed => ?_⟩
  · obtain ⟨fuel', hexec, -⟩ := hw'
    rw [← hexec]
    exact h.reachable.trans (World.run_exec ..)
  · rw [List.append_assoc]
    exact (h.advances (text ++ feed)).trans ((hadvances feed).trans (hlater feed))

/-- A move keeps a moment sound. -/
theorem Moment.Sound.play {m m' : Moment κ ν} (h : m.Sound setup atOnce later)
    (hplay : Play setup atOnce m m') : ∃ later', m'.Sound setup atOnce later' := by
  obtain ⟨⟨session, hunderway⟩, hrests⟩ := h.rests
  -- a piece of text and a task change nothing once all is calm, and a call is an advance
  cases hplay with
  | chunk text hw' =>
    obtain ⟨htyped, hcalm⟩ := hunderway.type text
    refine h.settle text hw' htyped fun feed => ?_
    rw [hcalm]
    exact .refl
  | task hw' =>
    obtain ⟨later', hsound⟩ := h.settle [] hw' (hunderway.push (.tasks 0)) fun _ => .refl
    refine ⟨later', ?_⟩
    rwa [List.append_nil] at hsound
  | answer hk hcall hw' =>
    obtain ⟨session', calls', later', hunderway', hadvances, -⟩ :=
      hunderway.answer hrests hk hcall
    obtain ⟨later'', hsound⟩ := h.settle [] hw' hunderway' hadvances
    refine ⟨later'', ?_⟩
    rwa [List.append_nil] at hsound

/-- The opening world is underway, whatever the client will do at once. -/
theorem Setup.rests_opening (setup : Setup κ) (atOnce : CompletionId → Nat) :
    Rests setup atOnce (fun _ => 0) [] (setup.opening : World κ ν) := by
  have htends : Tends (setup.silent : World κ ν) setup.session :=
    ⟨rfl, rfl, rfl, rfl, _, rfl, rfl, nofun⟩
  rw [setup.opening_eq]
  refine ⟨⟨setup.session, htends.write 0 _, ⟨[], ?_, nofun⟩, .nothing nofun, ?_,
    fun _ _ => rfl⟩, ?_⟩
  · rw [World.write_agenda]
    rfl
  · rw [World.write_completions]
    exact nofun
  · rw [World.write_agenda]
    rfl

theorem Setup.sound_start (setup : Setup κ) (atOnce : CompletionId → Nat) :
    (setup.start : Moment κ ν).Sound setup atOnce [] where
  rests := setup.rests_opening atOnce
  reachable := by
    have hpristine : (setup.blank : World κ ν).Pristine := by
      constructor <;> simp [blank]
    unfold start opening
    exact hpristine.reachable.trans (World.run_exec ..)
  advances := fun _ => .refl

/-- Every moment of a course is sound. -/
theorem Course.sound {m : Moment κ ν} (h : Course setup atOnce setup.start m) :
    ∃ later, m.Sound setup atOnce later := by
  induction h with
  | refl => exact ⟨[], setup.sound_start atOnce⟩
  | tail _ hplay ih =>
    obtain ⟨later, hsound⟩ := ih
    exact hsound.play hplay

/-! ### The end of a complete course -/

/-- At the end of a complete course no call is owed. -/
theorem Moment.Sound.later_eq_nil {m : Moment κ ν} (h : m.Sound setup atOnce later)
    (hcomplete : m.Complete setup atOnce) : later = [] := by
  obtain ⟨⟨session, hunderway⟩, -⟩ := h.rests
  cases hunderway.owes with
  | nothing _ => rfl
  | completion hexpects _ _ =>
    have hdue := hunderway.books.due _ _ hexpects.lookup
    rw [if_pos hexpects.last, List.drop_eq_nil_of_le (hcomplete.calls _ _ hexpects.lookup)] at hdue
    exact hdue.symm

/-- At the end of a complete course, the world is as calm as it can be. -/
theorem Moment.Sound.calm_nil {m : Moment κ ν} (h : m.Sound setup atOnce later)
    (hcomplete : m.Complete setup atOnce) : m.world.calm [] = m.world := by
  have hconnections : m.world.connections.map ({ · with tasks := [] }) = m.world.connections := by
    refine (List.map_congr_left fun conn hconn => ?_).trans (List.map_id _)
    rw [← hcomplete.tasks conn hconn]
    rfl
  have hsessions : m.world.sessions.map (·.fed []) = m.world.sessions := by
    simp
  unfold World.calm
  rw [hconnections, hsessions, ← h.rests.2]

/-- At the end of a complete course there is no way to advance, since no wake-up is lost. -/
theorem Moment.Sound.stuck {m : Moment κ ν} (h : m.Sound setup atOnce later)
    (hcomplete : m.Complete setup atOnce) {b : World κ ν × List (Call κ ν)} :
    ¬ Advances setup (m.world, []) b := by
  intro hadvances
  cases hadvances with
  | @event _ session _ _ _ _ _ hh =>
    -- a session that is ready would have a task, and no task is left
    have hready : session.Ready := by
      refine ⟨⟨_, hh.phase⟩, ?_⟩
      rw [← Keys.Decoder.isSome_next, hh.next]
      rfl
    obtain ⟨conn, hconn, hseen⟩ := h.reachable.awake 0 session _ hh.lookup hh.connection
    rcases hseen hready with hin | hin
    · rw [h.rests.2] at hin
      cases hin
    · rw [hcomplete.tasks conn (List.mem_of_getElem? hconn)] at hin
      cases hin

/-- There is one end of all that is typed. -/
theorem Moment.Sound.world_eq {atOnce' : CompletionId → Nat} {m m' : Moment κ ν}
    {later' : List (Call κ ν)} (h : m.Sound setup atOnce later)
    (h' : m'.Sound setup atOnce' later') (htyped : m.typed = m'.typed)
    (hcomplete : m.Complete setup atOnce) (hcomplete' : m'.Complete setup atOnce') :
    m.world = m'.world := by
  -- both ends lie on the one way from the opening world, and from neither it goes on
  have hadvances := h.advances []
  have hadvances' := h'.advances []
  rw [h.calm_nil hcomplete, h.later_eq_nil hcomplete] at hadvances
  rw [h'.calm_nil hcomplete', h'.later_eq_nil hcomplete', ← htyped] at hadvances'
  have hunique : Relator.RightUnique (Advances (ν := ν) setup) := fun _ _ _ => Advances.unique
  rcases ReflTransGen.total_of_right_unique hunique hadvances hadvances' with hon | hon
  · rcases hon.cases_head with heq | ⟨b, hb, -⟩
    · exact congrArg Prod.fst heq
    · exact absurd hb (h.stuck hcomplete)
  · rcases hon.cases_head with heq | ⟨b, hb, -⟩
    · exact congrArg Prod.fst heq.symm
    · exact absurd hb (h'.stuck hcomplete')

/-! ### Completing a course -/

/-- What a call comes to that is made at rest. -/
theorem Underway.exists_settles {call : Call κ ν}
    (h : Underway setup atOnce made session calls later
      (w.perform (setup.client atOnce) call fun _ => .done)) :
    ∃ w' later', w.Settles (setup.client atOnce) (.ofCall call) w' ∧
      Rests setup atOnce made later' w' ∧ ReflGen Lower (w'.weight later')
        ((w.perform (setup.client atOnce) call fun _ => .done).weight (calls ++ later)) := by
  obtain ⟨fuel, hagenda⟩ := h.settles
  obtain ⟨later', hrests, -, hnot⟩ := h.rests hagenda
  exact ⟨_, later', World.settles_ofCall.2 ⟨fuel, rfl, hagenda⟩, hrests, hnot⟩

/-- A text can be typed at any moment. -/
theorem Rests.exists_type (h : Rests setup atOnce made later w) (text : List Char) :
    ∃ w', w.Settles (setup.client atOnce) (.ofCall (.type 0 text)) w' := by
  obtain ⟨⟨session, hunderway⟩, -⟩ := h
  obtain ⟨w', -, hsettles, -⟩ := (hunderway.type text).1.exists_settles
  exact ⟨w', hsettles⟩

/-- A task that is queued can be run, and then less is left to do. -/
theorem Rests.exists_task (h : Rests setup atOnce made later w)
    (htasks : ¬ ∀ conn ∈ w.connections, conn.tasks = []) :
    ∃ w' later', w.Settles (setup.client atOnce) (.ofCall (.runTasks 0 (some 1))) w' ∧
      Rests setup atOnce made later' w' ∧ Lower (w'.weight later') (w.weight later) := by
  obtain ⟨⟨session, hunderway⟩, hrests⟩ := h
  obtain ⟨conn, hconn, -⟩ := hunderway.tends.wired
  obtain ⟨t, tasks, htask⟩ : ∃ t tasks, conn.tasks = t :: tasks := by
    refine List.exists_cons_of_ne_nil fun hnil => htasks fun other hother => ?_
    rw [hconn] at hother
    rw [List.mem_singleton.1 hother, hnil]
  have hstart := hunderway.push (.tasks 0)
  obtain ⟨session₁, calls₁, later₁, hunderway₁, -, hlower⟩ := hstart.progress nofun
  obtain ⟨fuel, hagenda⟩ := hunderway₁.settles
  obtain ⟨later', hrests', -, hnot⟩ := hunderway₁.rests hagenda
  refine ⟨_, later', World.settles_ofCall.2 ⟨fuel + 1, rfl, hagenda⟩, hrests', ?_⟩
  refine Lower.trans_reflGen ?_ hnot
  -- the jobs that run the task are lighter than the task was
  have hless : (((w.push (.tasks 0 (some 1) 0 fun _ => .done)).step (setup.client atOnce)).weight
      (calls₁ ++ later₁)).2.2 < (w.weight later).2.2 := by
    simp [World.weight, World.step, World.nextTask, World.push, World.changeConnection, hconn,
      htask, hrests, Job.load]
    omega
  rcases hlower with hpending | ⟨hpending, howed | ⟨howed, -⟩⟩
  · exact .inl hpending
  · exact .inr ⟨hpending, .inl howed⟩
  · exact .inr ⟨hpending, .inr ⟨howed, hless⟩⟩

/-- A call that is owed can be made, and then less is left to do. -/
theorem Rests.exists_answer (h : Rests setup atOnce made later w) (hlater : later ≠ []) :
    ∃ (k : CompletionId) (completion : Completion) (call : Call κ ν) (w' : World κ ν) (later' : _),
      w.completions[k]? = some completion ∧
        (setup.calls k completion)[atOnce k + made k]? = some call ∧
        w.Settles (setup.client atOnce) (.ofCall call) w' ∧
        Rests setup atOnce (fun j => if j = k then made j + 1 else made j) later' w' ∧
        Lower (w'.weight later') (w.weight later) := by
  obtain ⟨⟨session, hunderway⟩, hrests⟩ := h
  cases hunderway.owes with
  | nothing _ => exact absurd rfl hlater
  | @completion k completion _ _ _ _ hexpects _ _ =>
    obtain ⟨call, rest, rfl⟩ := List.exists_cons_of_ne_nil hlater
    have hcall : (setup.calls k completion)[atOnce k + made k]? = some call := by
      have hdue := hunderway.books.due k completion hexpects.lookup
      rw [if_pos hexpects.last] at hdue
      rw [← List.head?_drop, hdue]
      rfl
    obtain ⟨session₁, calls₁, later₁, hunderway₁, -, hlower⟩ :=
      hunderway.answer hrests hexpects.lookup hcall
    obtain ⟨w', later', hsettles, hrests', hnot⟩ := hunderway₁.exists_settles
    exact ⟨k, completion, call, w', later', hexpects.lookup, hcall, hsettles, hrests',
      hlower.trans_reflGen hnot⟩

/-- A course can be completed, without anything more being typed. -/
theorem Rests.exists_complete (h : Rests setup atOnce made later w) (typed : List Char) :
    ∃ m : Moment κ ν, Course setup atOnce ⟨w, typed, made⟩ m ∧ m.typed = typed ∧
      m.Complete setup atOnce := by
  generalize hweight : w.weight later = weight
  induction weight using lower_wellFounded.induction generalizing made later w with
  | _ weight ih =>
    subst hweight
    -- tasks are run while there are any, and then the next call is made
    by_cases htasks : ∀ conn ∈ w.connections, conn.tasks = []
    · by_cases hlater : later = []
      · refine ⟨_, .refl, rfl, htasks, fun k completion hk => ?_⟩
        obtain ⟨⟨session, hunderway⟩, -⟩ := h
        have hdue := hunderway.books.due k completion hk
        rw [hlater, ite_self] at hdue
        exact List.drop_eq_nil_iff.1 hdue
      · obtain ⟨k, completion, call, w', later', hk, hcall, hsettles, hrests, hlower⟩ :=
          h.exists_answer hlater
        obtain ⟨m, hcourse, htyped, hcomplete⟩ := ih _ hlower hrests rfl
        exact ⟨m, .head (.answer hk hcall hsettles) hcourse, htyped, hcomplete⟩
    · obtain ⟨w', later', hsettles, hrests, hlower⟩ := h.exists_task htasks
      obtain ⟨m, hcourse, htyped, hcomplete⟩ := ih _ hlower hrests rfl
      exact ⟨m, .head (.task hsettles) hcourse, htyped, hcomplete⟩

/-- **Timing independence.** At any moment of a course any text can be typed, and from any moment
the course can be completed. When it is complete, nothing of the world depends on when things
happened: another complete course of the same text ends in the same world, with all that was
written, the lines that were delivered, the completions that were asked for, and the session. -/
theorem Setup.timing_independent (setup : Setup κ) (atOnce : CompletionId → Nat) {m : Moment κ ν}
    (h : Course setup atOnce setup.start m) :
    (∀ text, ∃ w', Play setup atOnce m ⟨w', m.typed ++ text, m.made⟩) ∧
      (∃ m', Course setup atOnce m m' ∧ m'.typed = m.typed ∧ m'.Complete setup atOnce) ∧
      ∀ (atOnce' : CompletionId → Nat) (m' : Moment κ ν), Course setup atOnce' setup.start m' →
        m.typed = m'.typed → m.Complete setup atOnce → m'.Complete setup atOnce' →
          m.world = m'.world := by
  obtain ⟨later, hsound⟩ := h.sound
  refine ⟨fun text => ?_, hsound.rests.exists_complete m.typed, fun atOnce' m' h' => ?_⟩
  · obtain ⟨w', hsettles⟩ := hsound.rests.exists_type text
    exact ⟨w', .chunk text hsettles⟩
  · obtain ⟨later', hsound'⟩ := Course.sound h'
    exact hsound.world_eq hsound'

/-- A setup in which Tab inserts a letter, and line after line is asked for. -/
private def inserting : Setup Unit where
  keymap := .standard
  functions := {}
  history := .initial
  continuation := ['>', ' ']
  size? := none
  request := { prompt := ['>'], onLine := (), onComplete? := some () }
  again _ := true
  plan _ _ := .insertion ['b'] true

/-- What comes of a call that is made at rest, when a client makes the same number of calls at once
for every completion. -/
private def after (atOnce : Nat) (call : Call Unit Unit) (w : World Unit Unit) : World Unit Unit :=
  w.exec (inserting.client fun _ => atOnce) 40 (.ofCall call)

/-- All is typed at once, and every completion is dealt with at once. -/
private def hasty : Moment Unit Unit where
  world := after 2 (.runTasks 0 (some 1)) <|
    after 2 (.type 0 ['a', Keys.tab, 'c', Keys.enter]) inserting.opening
  typed := ['a', Keys.tab, 'c', Keys.enter]
  made _ := 0

/-- The text is typed in two pieces, and only then is the completion ended. -/
private def leisurely : Moment Unit Unit where
  world := after 1 (.runTasks 0 (some 1)) <| after 1 (.finish (some 0)) <|
    after 1 (.type 0 ['c', Keys.enter]) <| after 1 (.type 0 ['a', Keys.tab]) inserting.opening
  typed := ['a', Keys.tab, 'c', Keys.enter]
  made k := if k = 0 then 1 else 0

private theorem course_hasty : Course inserting (fun _ => 2) inserting.start hasty := by
  refine .tail (.single (.chunk ['a', Keys.tab, 'c', Keys.enter] ⟨40, rfl, rfl⟩)) ?_
  exact .task ⟨40, rfl, rfl⟩

private theorem course_leisurely : Course inserting (fun _ => 1) inserting.start leisurely := by
  have htyped : Course inserting (fun _ => 1) (inserting.start : Moment Unit Unit)
      ⟨after 1 (.type 0 ['c', Keys.enter]) <| after 1 (.type 0 ['a', Keys.tab]) inserting.opening,
        ['a', Keys.tab, 'c', Keys.enter], fun _ => 0⟩ :=
    .tail (.single (.chunk ['a', Keys.tab] ⟨40, rfl, rfl⟩))
      (.chunk ['c', Keys.enter] ⟨40, rfl, rfl⟩)
  refine htyped.tail (.answer (k := 0) rfl rfl ⟨40, rfl, rfl⟩) |>.tail ?_
  exact .task ⟨40, rfl, rfl⟩

/-- The hasty course and the leisurely one are complete, and end in the same world, in which the
completed line has been delivered. -/
theorem timing_independent_inserting :
    (Course inserting (fun _ => 2) inserting.start hasty ∧
      hasty.Complete inserting fun _ => 2) ∧
    (Course inserting (fun _ => 1) inserting.start leisurely ∧
      leisurely.Complete inserting fun _ => 1) ∧ hasty.world = leisurely.world ∧
    .delivered 0 0 ['a', 'b', ' ', 'c'] ∈ leisurely.world.record := by
  have hcomplete : hasty.Complete inserting fun _ => 2 := by
    constructor
    · decide
    · exact fun k completion _ => Nat.le_add_right 2 _
  have hcomplete' : leisurely.Complete inserting fun _ => 1 := by
    constructor
    · decide
    · intro k completion hk
      have hlength : leisurely.world.completions.length = 1 := by decide
      obtain rfl : k = 0 := Nat.lt_one_iff.1 (hlength ▸ (List.getElem?_eq_some_iff.1 hk).1)
      exact Nat.le_refl 2
  have hindependent := (inserting.timing_independent _ course_hasty).2.2 _ _ course_leisurely
  exact ⟨⟨course_hasty, hcomplete⟩, ⟨course_leisurely, hcomplete'⟩,
    hindependent rfl hcomplete hcomplete', List.mem_of_getElem? (i := 1) rfl⟩

end LineEditor
