import LineEditor.Proofs.Session.Ownership
import LineEditor.Text.Width.Table

/-!
# No wake-up is lost

A session deals with its input when it is *roused*: by what is typed, or by a task that waits on
its connection. Tasks are queued at two places only, when a request is made and when a completion
ends. That this is enough is an invariant: a session that edits an entry, and holds an event that
can be decoded, is on the agenda or among the tasks of its connection (`SeenTo`).

While something is running the agenda alone may hold the session, so the invariant speaks of both;
once nothing is running the tasks remain, which is `Reachable.no_lost_wakeup`. Running the tasks of
a connection to their end then leaves no such session there: the job that runs them stays below
everything that it sets in motion, until it finds no task (`Draining`).
-/

namespace LineEditor

variable {κ ν : Type}

/-- A session edits an entry and holds an event that can be decoded. -/
def Session.Ready (session : Session κ) : Prop :=
  (∃ entry, session.phase = .editing entry) ∧ session.decoder.hasNext = true

namespace World

variable {client : Client κ ν} {w w' : World κ ν} {s t : SessionId}

/-- Session `s`, if it is on a connection, is seen to there: when it is ready, it is about to deal
with its input or among the tasks. -/
def SeenTo (w : World κ ν) (s : SessionId) : Prop :=
  ∀ (session : Session κ) (c : ConnectionId), w.sessions[s]? = some session →
    session.connection? = some c → ∃ conn, w.connections[c]? = some conn ∧
      (session.Ready → .deliver s ∈ w.agenda ∨ s ∈ conn.tasks)

/-- Every session is seen to. -/
def Awake (w : World κ ν) : Prop := ∀ s, w.SeenTo s

/-! ### What elementary changes keep -/

/-- A session is seen to after a change that takes it off neither list, and makes it ready only
where it was. -/
theorem SeenTo.frame (h : w.SeenTo t)
    (hsession : ∀ session', w'.sessions[t]? = some session' → session'.connection? ≠ none →
      ∃ session, w.sessions[t]? = some session ∧
        session'.connection? = session.connection? ∧ (session'.Ready → session.Ready))
    (hagenda : .deliver t ∈ w.agenda → .deliver t ∈ w'.agenda)
    (htasks : ∀ (c : ConnectionId) (conn : Connection), w.connections[c]? = some conn →
      ∃ conn', w'.connections[c]? = some conn' ∧
        (t ∈ conn.tasks → .deliver t ∈ w'.agenda ∨ t ∈ conn'.tasks)) : w'.SeenTo t := by
  intro session' c hs hc
  obtain ⟨session, hs₀, hsame, hready⟩ := hsession session' hs (by simp [hc])
  obtain ⟨conn, hconn, hseen⟩ := h session c hs₀ (hsame ▸ hc)
  obtain ⟨conn', hconn', hkept⟩ := htasks c conn hconn
  refine ⟨conn', hconn', fun hr => ?_⟩
  rcases hseen (hready hr) with hin | hin
  · exact .inl (hagenda hin)
  · exact hkept hin

theorem SeenTo.push (h : w.SeenTo t) (job : Job κ ν) : (w.push job).SeenTo t := by
  refine h.frame (fun session hs _ => ⟨session, hs, rfl, id⟩) (List.mem_cons_of_mem job) ?_
  exact fun c conn hconn => ⟨conn, hconn, .inr⟩

theorem SeenTo.reply (h : w.SeenTo t) (next : Answer → Program κ ν) (a : Answer) :
    (w.reply next a).SeenTo t :=
  h.push _

theorem SeenTo.log (h : w.SeenTo t) (o : Occurrence ν) : (w.log o).SeenTo t := h

theorem SeenTo.write (h : w.SeenTo t) (c : ConnectionId) (text : List Char) :
    (w.write c text).SeenTo t := by
  unfold World.write
  split
  · exact h
  · exact h.log _

theorem SeenTo.setStatus (h : w.SeenTo t) (k : CompletionId) (status : Status) :
    (w.setStatus k status).SeenTo t := h

/-- A change of a connection that keeps its tasks. -/
theorem SeenTo.changeConnection (h : w.SeenTo t) {c : ConnectionId} {g : Connection → Connection}
    (hg : ∀ conn, t ∈ conn.tasks → t ∈ (g conn).tasks) : (w.changeConnection c g).SeenTo t := by
  refine h.frame (fun session hs _ => ⟨session, hs, rfl, id⟩) id fun d conn hconn => ?_
  refine ⟨if c = d then g conn else conn, ?_, fun hin => .inr ?_⟩
  · rw [getElem?_connections_changeConnection, hconn]
    rfl
  · split
    · exact hg conn hin
    · exact hin

theorem SeenTo.schedule (h : w.SeenTo t) (s : SessionId) : (w.schedule s).SeenTo t := by
  obtain heq | ⟨d, heq⟩ := w.schedule_eq_or s
  · rwa [heq]
  · rw [heq]
    exact h.changeConnection fun conn hin => List.mem_append_left _ hin

/-- A change of one session that moves it to no connection, and does not make it ready. -/
theorem SeenTo.changeSession (h : w.SeenTo t) {f : Session κ → Session κ}
    (hf : s = t → ∀ session, w.sessions[t]? = some session → (f session).connection? ≠ none →
      (f session).connection? = session.connection? ∧ ((f session).Ready → session.Ready)) :
    (w.changeSession s f).SeenTo t := by
  refine h.frame (fun session' hs hc => ?_) id fun c conn hconn => ⟨conn, hconn, .inr⟩
  rw [getElem?_sessions_changeSession] at hs
  obtain ⟨session, hs₀, rfl⟩ := Option.map_eq_some_iff.1 hs
  refine ⟨session, hs₀, ?_⟩
  by_cases hst : s = t
  · rw [if_pos hst] at hc ⊢
    exact hf hst session hs₀ hc
  · rw [if_neg hst]
    exact ⟨rfl, id⟩

/-- A session that is about to deal with its input may change, except for its connection. -/
theorem SeenTo.changeSession_of_mem (h : w.SeenTo t) {f : Session κ → Session κ}
    (hf : ∀ session, (f session).connection? = session.connection?)
    (hin : s = t → .deliver t ∈ w.agenda) : (w.changeSession s f).SeenTo t := by
  intro session' c hs hc
  rw [getElem?_sessions_changeSession] at hs
  obtain ⟨session, hs₀, rfl⟩ := Option.map_eq_some_iff.1 hs
  by_cases hst : s = t
  · rw [if_pos hst, hf] at hc
    obtain ⟨conn, hconn, -⟩ := h session c hs₀ hc
    exact ⟨conn, hconn, fun _ => .inl (hin hst)⟩
  · rw [if_neg hst] at hc ⊢
    exact h session c hs₀ hc

/-- **Queueing a task sees to a session**, whatever has become of it on its connection. -/
theorem SeenTo.changeSession_schedule (h : w.SeenTo t) {f : Session κ → Session κ}
    (hf : ∀ session, (f session).connection? = session.connection?) :
    ((w.changeSession s f).schedule s).SeenTo t := by
  by_cases hst : s = t
  · subst hst
    intro session' c hs hc
    rw [schedule_sessions] at hs
    obtain ⟨session, hs₀, hsession'⟩ := Option.map_eq_some_iff.1
      ((getElem?_sessions_changeSession ..).symm.trans hs)
    rw [if_pos rfl] at hsession'
    obtain ⟨conn, hconn, -⟩ := h session c hs₀ (by rw [← hf, hsession', hc])
    by_cases hnext : session'.decoder.hasNext = true
    · refine ⟨{ conn with tasks := conn.tasks ++ [s] }, ?_, fun _ => .inr (by simp)⟩
      simp only [World.schedule, hs, hnext, hc]
      rw [getElem?_connections_changeConnection, changeSession_connections, hconn]
      simp
    · refine ⟨conn, ?_, fun hready => absurd hready.2 hnext⟩
      simpa only [World.schedule, hs, hnext, changeSession_connections] using hconn
  · refine SeenTo.schedule (h.changeSession fun heq => ?_) s
    exact absurd heq hst

/-- A session on the agenda is seen to without that, if it is not ready. -/
theorem SeenTo.of_push (h : (w.push (.deliver s)).SeenTo t)
    (hs : ∀ session, w.sessions[s]? = some session → session.connection? ≠ none →
      ¬ session.Ready) : w.SeenTo t := by
  intro session c ht hc
  obtain ⟨conn, hconn, hseen⟩ := h session c ht hc
  refine ⟨conn, hconn, fun hready => ?_⟩
  rcases hseen hready with hin | hin
  · rcases List.mem_cons.1 hin with heq | hin
    · cases heq
      exact absurd hready (hs session ht (by simp [hc]))
    · exact .inl hin
  · exact .inr hin

/-- Other jobs see to no session. -/
theorem SeenTo.of_push_ne {job : Job κ ν} (h : (w.push job).SeenTo t)
    (hjob : ∀ s, job ≠ .deliver s) : w.SeenTo t := by
  intro session c ht hc
  obtain ⟨conn, hconn, hseen⟩ := h session c ht hc
  refine ⟨conn, hconn, fun hready => ?_⟩
  rcases hseen hready with hin | hin
  · rcases List.mem_cons.1 hin with heq | hin
    · exact absurd heq.symm (hjob t)
    · exact .inl hin
  · exact .inr hin

/-- A session that has handled an event is about to deal with its input again. -/
theorem SeenTo.afterEvent (h : (w.push (.deliver s)).SeenTo t) (c : ConnectionId)
    (handled : Handled κ) (decoder : Keys.Decoder) (phase : Phase κ) :
    (w.afterEvent s c handled decoder phase).SeenTo t := by
  have hchanged : ((w.push (.deliver s)).changeSession s
      ({ · with phase, decoder, history := handled.history })).SeenTo t := by
    refine h.changeSession_of_mem (fun _ => rfl) ?_
    rintro rfl
    exact List.mem_cons_self
  unfold World.afterEvent World.write
  split
  · exact hchanged
  · exact hchanged.log _

/-- A task is taken from a connection, and its session is about to deal with its input. -/
theorem SeenTo.nextTask (h : w.SeenTo t) {c : ConnectionId} {conn : Connection}
    {rest : List SessionId} (hc : w.connections[c]? = some conn) (htasks : conn.tasks = s :: rest)
    (job : Job κ ν) :
    (((w.changeConnection c ({ · with tasks := rest })).push job).push (.deliver s)).SeenTo t := by
  refine h.frame (fun session hs _ => ⟨session, hs, rfl, id⟩) ?_ fun d conn' hd => ?_
  · exact fun hin => List.mem_cons_of_mem _ (List.mem_cons_of_mem _ hin)
  · refine ⟨if c = d then { conn' with tasks := rest } else conn', ?_, fun hin => ?_⟩
    · simp only [push_connections]
      rw [getElem?_connections_changeConnection, hd]
      rfl
    · split
      · rename_i hcd
        subst hcd
        rw [hc] at hd
        cases hd
        rw [htasks] at hin
        rcases List.mem_cons.1 hin with rfl | hin
        · exact .inl List.mem_cons_self
        · exact .inr hin
      · exact .inr hin

/-! ### What every turn keeps -/

/-- **Step lemma.** Every turn keeps all sessions seen to. -/
theorem Turn.awake {job : Job κ ν} (hturn : Turn client w job w') (howned : Owned w)
    (h : Awake (w.push job)) : Awake w' := by
  intro t
  replace h := h t
  -- any other job than a delivery can be taken off the agenda at once
  have hpop : (∀ s, job ≠ .deliver s) → w.SeenTo t := h.of_push_ne
  cases hturn with
  | rest => exact hpop nofun
  | answer call next a => exact (hpop nofun).reply next a
  | aside call next a ho => exact ((hpop nofun).log _).reply next a
  | write c text next => exact ((hpop nofun).write c text).reply next _
  | listen c label next =>
    refine SeenTo.reply ((hpop nofun).changeConnection ?_) next _
    exact fun _ => id
  | adjust call next a s hf =>
    refine SeenTo.reply ((hpop nofun).changeSession fun _ session _ _ => ?_) next a
    refine ⟨hf.connection session, fun hready => ?_⟩
    rwa [Session.Ready, hf.phase, hf.decoder] at hready
  | resize c size next s handler =>
    refine SeenTo.push (SeenTo.log (SeenTo.reply ((hpop nofun).changeSession ?_) next _) _) _
    exact fun _ _ _ _ => ⟨rfl, id⟩
  | type c text next s =>
    refine SeenTo.changeSession_of_mem (((hpop nofun).reply next .done).push (.deliver s)) ?_ ?_
    · exact fun _ => rfl
    · rintro rfl
      exact List.mem_cons_self
  | schedule s next => exact ((hpop nofun).schedule s).reply next _
  | deliver s next => exact ((hpop nofun).reply next _).push _
  | runTasks c limit? next => exact (hpop nofun).push _
  | install s c next hs hfree hc =>
    rename_i session conn
    refine SeenTo.reply ?_ next _
    refine SeenTo.changeConnection ?_ fun _ => id
    intro session' d ht hd
    rw [getElem?_sessions_changeSession] at ht
    obtain ⟨session₀, ht₀, rfl⟩ := Option.map_eq_some_iff.1 ht
    by_cases hst : s = t
    · -- a session that was on no connection was idle, and still is
      subst hst
      rw [hs] at ht₀
      cases ht₀
      rw [if_pos rfl] at hd ⊢
      cases hd
      refine ⟨conn, hc, ?_⟩
      rintro ⟨⟨entry, hphase⟩, -⟩
      have hidle := Phase.stage_eq_idle.1 ((howned s session hs).stage_eq_idle hfree)
      simp [hidle] at hphase
    · rw [if_neg hst] at hd ⊢
      exact hpop nofun session₀ d ht₀ hd
  | uninstall s next hs hc =>
    refine SeenTo.reply ?_ next _
    refine SeenTo.changeSession (SeenTo.changeConnection (hpop nofun) ?_) ?_
    · exact fun _ => id
    · exact fun _ _ _ hconnected => absurd rfl hconnected
  | request s r next hs hc hidle =>
    rw [← changeSession_write]
    refine SeenTo.reply (SeenTo.changeSession_schedule ((hpop nofun).write _ _) ?_) next _
    exact fun _ => rfl
  | move call next a k status hk hmove hwait => exact ((hpop nofun).setStatus k status).reply next a
  | insert k? text terminal next hk? hk hpending hwait hline =>
    refine SeenTo.reply (SeenTo.write ?_ _ _) next _
    refine ((hpop nofun).setStatus _ .inlining).changeSession fun _ _ _ _ => ⟨rfl, ?_⟩
    rintro ⟨⟨entry, hphase⟩, -⟩
    cases hphase
  | suggest k? text next hk? hk hstatus hwait =>
    exact (((hpop nofun).setStatus _ .completing).write _ _).reply next _
  | resume k? next hk? hk hopen hs hphase hid hc =>
    refine SeenTo.reply (SeenTo.changeSession_schedule (SeenTo.write ?_ _ _) ?_) next _
    · exact (hpop nofun).setStatus _ .completed
    · exact fun _ => rfl
  | stop s hstop =>
    refine h.of_push fun session hs hconnected => ?_
    rintro ⟨⟨entry, hphase⟩, hnext⟩
    rcases hstop session hs with hnone | ⟨_, hwaits⟩ | ⟨hidle, -⟩ | ⟨_, -, hfree⟩
    · rw [← Keys.Decoder.isSome_next, hnone] at hnext
      cases hnext
    · simp [hphase] at hwaits
    · simp [hphase] at hidle
    · exact hconnected hfree
  | forward s hs hidle hread hnext =>
    refine SeenTo.push (SeenTo.log ?_ _) _
    exact SeenTo.changeSession_of_mem h (fun _ => rfl) fun hst => by simp [hst]
  | edit s hh hhandled hgoes => exact SeenTo.afterEvent h _ _ _ _
  | submit s hh hhandled hsubmitted =>
    refine SeenTo.push (SeenTo.log ?_ _) _
    exact SeenTo.afterEvent h _ _ _ _
  | ask s hh hhandled hasked hcompletion =>
    refine SeenTo.push (SeenTo.log ?_ _) _
    exact SeenTo.afterEvent h _ _ _ _
  | tasksOver c limit? count next hover => exact (hpop nofun).reply next _
  | nextTask c limit? count next hlimit hc htasks =>
    exact (hpop nofun).nextTask hc htasks _

theorem Pristine.awake (h : Pristine w) : Awake w := by
  intro s session c hs hc
  have hfree := (h.idle session (List.mem_of_getElem? hs)).1
  rw [hfree] at hc
  cases hc

/-- **Run lemma.** In every reachable world all sessions are seen to. -/
theorem Reachable.awake (h : Reachable w) : Awake w := by
  have hboth : Owned w ∧ Awake w := by
    refine h.induction (P := fun v => Owned v ∧ Awake v) (fun v hv => ⟨hv.owned, hv.awake⟩) ?_ ?_
    · exact fun v p hv => ⟨hv.1, fun t => (hv.2 t).push _⟩
    · intro client v job rest v' hagenda hturn ⟨howned, hawake⟩
      refine ⟨hturn.owned howned, hturn.awake howned ?_⟩
      rw [show ({ v with agenda := rest } : World κ ν).push job = v by
        unfold World.push; rw [← hagenda]]
      exact hawake
  exact hboth.2

/-! ### Running tasks to their end -/

/-- What a turn sets in motion stands in front of what was running. -/
theorem Turn.suffix {job : Job κ ν} (hturn : Turn client w job w') : w.agenda <:+ w'.agenda := by
  cases hturn with
  | rest | stop => exact List.suffix_refl _
  | answer | aside | write | listen | adjust | schedule | runTasks | install | uninstall | request
  | move | insert | suggest | resume | tasksOver =>
    simp [List.suffix_cons]
  | resize | type | deliver | forward | nextTask =>
    exact ⟨[_, _], rfl⟩
  | edit => simp [List.suffix_cons]
  | submit | ask =>
    simp only [push_agenda, log_agenda, afterEvent_agenda]
    exact ⟨[_, _], rfl⟩

/-- Connection `c` has no task. -/
def NoTasks (w : World κ ν) (c : ConnectionId) : Prop :=
  ∀ conn, w.connections[c]? = some conn → conn.tasks = []

/-- All tasks of connection `c` are being run, below whatever that sets in motion, or have been
run. -/
def Draining (w : World κ ν) (c : ConnectionId) : Prop :=
  (∃ count, [.tasks c none count fun _ => .done] <:+ w.agenda) ∨
    (w.agenda = [.run .done] ∨ w.agenda = []) ∧ w.NoTasks c

/-- Every step drains on. -/
theorem Draining.step {c : ConnectionId} (h : w.Draining c) (client : Client κ ν) :
    (w.step client).Draining c := by
  obtain ⟨count, front, hfront⟩ | ⟨hrest | hnil, hnone⟩ := h
  · cases front with
    | nil =>
      -- the tasks themselves are taken up
      have hturn := turn_step client hfront.symm
      generalize w.step client = w' at hturn
      cases hturn with
      | tasksOver _ _ _ _ hover => exact .inr ⟨.inl rfl, hover.resolve_left nofun⟩
      | nextTask => exact .inl ⟨count + 1, [.deliver _], rfl⟩
    | cons job front =>
      refine .inl ⟨count, List.IsSuffix.trans ?_ (turn_step client hfront.symm).suffix⟩
      exact List.suffix_append front _
  · have hturn := turn_step client hrest
    generalize w.step client = w' at hturn
    cases hturn
    exact .inr ⟨.inr rfl, hnone⟩
  · rw [step_of_agenda_nil client hnil]
    exact .inr ⟨.inr hnil, hnone⟩

theorem Draining.settle {c : ConnectionId} (h : w.Draining c) (client : Client κ ν) (fuel : Nat) :
    (w.settle client fuel).Draining c := by
  induction fuel generalizing w with
  | zero => exact h
  | succ fuel ih =>
    rw [World.settle]
    split
    · exact h
    · exact ih (h.step client)

/-- When the tasks of a connection have been run to their end, none is left. -/
theorem noTasks_of_exec_runTasks {c : ConnectionId} {fuel : Nat} (hw : w.agenda = [])
    (hend : (w.exec client fuel (.ofCall (.runTasks c none))).agenda = []) :
    (w.exec client fuel (.ofCall (.runTasks c none))).NoTasks c := by
  unfold exec at hend ⊢
  cases fuel with
  | zero => simp [World.settle] at hend
  | succ fuel =>
    rw [World.settle, if_neg (by simp)] at hend ⊢
    have hstart : ((w.push (.run (.ofCall (.runTasks c none)))).step client).Draining c := by
      have hagenda : ((w.push (.run (.ofCall (.runTasks c none)))).step client).agenda =
          [.tasks c none 0 fun _ => .done] := congrArg (_ :: ·) hw
      exact .inl ⟨0, [], hagenda.symm⟩
    obtain ⟨count, front, hfront⟩ | ⟨-, hnone⟩ := hstart.settle client fuel
    · rw [hend] at hfront
      simp at hfront
    · exact hnone

/-- **No wake-up is lost.** When nothing is running, a session that edits an entry and holds an
event that can be decoded is among the tasks of its connection; and when the tasks of a connection
have been run to their end, there is no such session there. -/
theorem Reachable.no_lost_wakeup (h : Reachable w) (hw : w.agenda = []) :
    (∀ (s : SessionId) (session : Session κ), w.sessions[s]? = some session → session.Ready →
      ∃ c conn, session.connection? = some c ∧ w.connections[c]? = some conn ∧
        s ∈ conn.tasks) ∧
    ∀ (client : Client κ ν) (fuel : Nat) (c : ConnectionId),
      (w.exec client fuel (.ofCall (.runTasks c none))).agenda = [] →
        ∀ (s : SessionId) (session : Session κ),
          (w.exec client fuel (.ofCall (.runTasks c none))).sessions[s]? = some session →
            session.connection? = some c → ¬ session.Ready := by
  have htask : ∀ {v : World κ ν}, Reachable v → v.agenda = [] →
      ∀ (s : SessionId) (session : Session κ), v.sessions[s]? = some session → session.Ready →
        ∃ c conn, session.connection? = some c ∧ v.connections[c]? = some conn ∧
          s ∈ conn.tasks := by
    intro v hv hagenda s session hs hready
    obtain ⟨entry, hphase⟩ := hready.1
    obtain ⟨c, hc⟩ := Option.ne_none_iff_exists'.1
      ((hv.owned s session hs).connected (by simp [hphase]))
    obtain ⟨conn, hconn, hseen⟩ := hv.awake s session c hs hc
    refine ⟨c, conn, hc, hconn, (hseen hready).resolve_left ?_⟩
    rw [hagenda]
    exact List.not_mem_nil
  refine ⟨htask h hw, fun client fuel c hend s session hs hc hready => ?_⟩
  obtain ⟨d, conn, hd, hconn, hin⟩ := htask (h.trans (run_exec ..)) hend s session hs hready
  rw [hc] at hd
  cases hd
  rw [noTasks_of_exec_runTasks hw hend conn hconn] at hin
  exact absurd hin List.not_mem_nil

/-- A letter was typed ahead, and then a request was made. -/
private def typedAhead : World Unit Unit :=
  exec { onLine _ _ := .done, onComplete _ _ _ := .done, onRead _ _ := .done,
         onResize _ _ := .done } 20 { sessions := [{}], connections := [{}] } <|
    .andThen (.install 0 0) <|
      .andThen (.type 0 ['a']) <|
        .ofCall (.request 0 { prompt := ['>'], onLine := (), onComplete? := none })

private theorem reachable_typedAhead : Reachable typedAhead := by
  refine Reachable.trans (Pristine.reachable ?_) (run_exec _ 20 _ _)
  constructor <;> simp

/-- The letter that was typed ahead waits with a task, and is dealt with when the tasks are run. -/
theorem no_lost_wakeup_typedAhead :
    typedAhead.agenda = [] ∧ (∃ session, typedAhead.sessions[0]? = some session ∧
      session.Ready ∧ ∃ c conn, session.connection? = some c ∧
        typedAhead.connections[c]? = some conn ∧ 0 ∈ conn.tasks) ∧
    ∀ client fuel, (typedAhead.exec client fuel (.ofCall (.runTasks 0 none))).agenda = [] →
      ∀ (s : SessionId) (session : Session Unit),
        (typedAhead.exec client fuel (.ofCall (.runTasks 0 none))).sessions[s]? = some session →
          session.connection? = some 0 → ¬ session.Ready := by
  have hawake := Reachable.no_lost_wakeup reachable_typedAhead rfl
  have hready : ∃ session, typedAhead.sessions[0]? = some session ∧ session.Ready :=
    ⟨_, rfl, ⟨_, rfl⟩, rfl⟩
  obtain ⟨session, hs, hready⟩ := hready
  exact ⟨rfl, ⟨session, hs, hready, hawake.1 0 session hs hready⟩,
    fun client fuel => hawake.2 client fuel 0⟩

end World

end LineEditor
