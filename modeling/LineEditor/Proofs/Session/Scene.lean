import LineEditor.Proofs.Session.Journal
import Mathlib.Logic.Function.Basic

/-!
# Who receives what

A session that is put on a connection becomes the receiver of everything there, and saves who was it
before; once it is taken off, the saved receivers come back. Of the whole world no more counts for
this than its `Scene`: whom the connections hand things to, where the sessions are and what they have
saved. A scene changes by a few `Shift`s, each of which stands in the innermost job as a call that is
not refused, and in no other way (`scene_step`).
-/

namespace LineEditor

variable {κ ν : Type}

/-! ### Scenes -/

/-- Whom a connection hands what is typed to, and whom it tells of changes of size. -/
abbrev ReceiverPair := Option Receiver × Option Receiver

/-- The receivers of a connection. -/
def Connection.receivers (conn : Connection) : ReceiverPair := (conn.input?, conn.resize?)

/-- Where a session is. -/
structure Place where
  /-- The connection that the session is installed on. -/
  connection? : Option ConnectionId
  /-- The receivers that it has saved. -/
  saved : ReceiverPair
  /-- Whether the client has given the session up. -/
  released : Bool

/-- The place of a session. -/
def Session.place (session : Session κ) : Place where
  connection? := session.connection?
  saved := (session.savedInput?, session.savedResize?)
  released := session.released

/-- What matters of a world to who receives what. -/
structure Scene where
  /-- The receivers of the connections. -/
  receivers? : ConnectionId → Option ReceiverPair
  /-- The places of the sessions. -/
  place? : SessionId → Option Place

/-- The scene of a world. -/
def World.scene (w : World κ ν) : Scene where
  receivers? c := w.connections[c]?.map Connection.receivers
  place? s := w.sessions[s]?.map Session.place

/-- A change of a scene. -/
inductive Shift where
  /-- A session is put on a connection. -/
  | installed (s : SessionId) (c : ConnectionId)
  /-- A session is taken off its connection. -/
  | uninstalled (s : SessionId) (c : ConnectionId)
  /-- The owner of a connection listens. -/
  | listened (c : ConnectionId) (label : List Char)
  /-- A session is given up. -/
  | released (s : SessionId)
  deriving DecidableEq

namespace Shift

/-- The connection whose receivers change. -/
def connection? : Shift → Option ConnectionId
  | .installed _ c | .uninstalled _ c | .listened c _ => some c
  | .released _ => none

/-- The session whose place changes. -/
def session? : Shift → Option SessionId
  | .installed s _ | .uninstalled s _ | .released s => some s
  | .listened _ _ => none

end Shift

namespace Scene

/-- The scene after a shift. -/
def after (scene : Scene) : Shift → Scene
  | .installed s c =>
    { receivers? :=
        Function.update scene.receivers? c (some (some (.session s), some (.session s)))
      place? :=
        Function.update scene.place? s
          (some ⟨some c, (scene.receivers? c).getD (none, none), false⟩) }
  | .uninstalled s c =>
    { receivers? :=
        Function.update scene.receivers? c
          ((scene.receivers? c).map fun _ => ((scene.place? s).map Place.saved).getD (none, none))
      place? := Function.update scene.place? s (some ⟨none, (none, none), false⟩) }
  | .listened c label =>
    { scene with
      receivers? :=
        Function.update scene.receivers? c
          ((scene.receivers? c).map fun _ => (some (.owner label), some (.owner label))) }
  | .released s =>
    { scene with
      place? :=
        Function.update scene.place? s
          ((scene.place? s).map fun place => { place with released := true }) }

/-- What holds when a shift comes. -/
def Admits (scene : Scene) : Shift → Prop
  | .installed s c =>
    (∃ place, scene.place? s = some place ∧ place.connection? = none) ∧
      ∃ receivers, scene.receivers? c = some receivers
  | .uninstalled s c => ∃ place, scene.place? s = some place ∧ place.connection? = some c
  | .listened c _ => ∃ receivers, scene.receivers? c = some receivers
  | .released _ => True

section After

variable (scene : Scene) (s : SessionId) (c : ConnectionId) (label : List Char)

/-- A shift changes the receivers of its connection only. -/
theorem receivers?_after_of_ne {shift : Shift} (h : shift.connection? ≠ some c) :
    (scene.after shift).receivers? c = scene.receivers? c := by
  cases shift with
  | installed t d | uninstalled t d | listened d label =>
    exact Function.update_of_ne (fun hc => h (congrArg some hc.symm)) ..
  | released t => rfl

/-- A shift changes the place of its session only. -/
theorem place?_after_of_ne {shift : Shift} (h : shift.session? ≠ some s) :
    (scene.after shift).place? s = scene.place? s := by
  cases shift with
  | installed t d | uninstalled t d | released t =>
    exact Function.update_of_ne (fun hs => h (congrArg some hs.symm)) ..
  | listened d label => rfl

theorem receivers?_after_installed :
    (scene.after (.installed s c)).receivers? c =
      some (some (.session s), some (.session s)) :=
  Function.update_self ..

theorem place?_after_installed :
    (scene.after (.installed s c)).place? s =
      some ⟨some c, (scene.receivers? c).getD (none, none), false⟩ :=
  Function.update_self ..

theorem receivers?_after_uninstalled :
    (scene.after (.uninstalled s c)).receivers? c =
      (scene.receivers? c).map fun _ => ((scene.place? s).map Place.saved).getD (none, none) :=
  Function.update_self ..

theorem place?_after_uninstalled :
    (scene.after (.uninstalled s c)).place? s = some ⟨none, (none, none), false⟩ :=
  Function.update_self ..

theorem receivers?_after_listened :
    (scene.after (.listened c label)).receivers? c =
      (scene.receivers? c).map fun _ => (some (.owner label), some (.owner label)) :=
  Function.update_self ..

theorem place?_after_released :
    (scene.after (.released s)).place? s =
      (scene.place? s).map fun place => { place with released := true } :=
  Function.update_self ..

end After

end Scene

namespace World

variable {client : Client κ ν} {w : World κ ν} {s : SessionId} {c : ConnectionId}
  {next : Answer → Program κ ν}

/-- The shift that a call brings. Installing and uninstalling must not be refused. -/
def shiftOf? (w : World κ ν) : Call κ ν → Option Shift
  | .install s c =>
    (w.session? s).bind fun _ =>
      match (w.install s c).2 with
      | .ok () => some (.installed s c)
      | .error _ => none
  | .uninstall s =>
    (w.session? s).bind fun session => session.connection?.map (.uninstalled s)
  | .listen c label => w.connections[c]?.map fun _ => .listened c label
  | .release s => some (.released s)
  | _ => none

/-- The shift that comes when the innermost job is taken up. -/
def shift? (w : World κ ν) : Option Shift :=
  match w.agenda with
  | .run (.call call _) :: rest => ({ w with agenda := rest } : World κ ν).shiftOf? call
  | _ => none

/-- The shifts along a run. -/
def shifts (w : World κ ν) (choices : List (Choice κ ν)) : List Shift :=
  (w.stepped choices).filterMap shift?

/-! ### The scenes of changed worlds -/

section Scenes

variable (w : World κ ν) (s : SessionId) (c : ConnectionId) (job : Job κ ν) (o : Occurrence ν)
  (text : List Char) (k : CompletionId) (status : Status) (a : Answer)

@[simp] theorem scene_push : (w.push job).scene = w.scene := rfl
@[simp] theorem scene_reply : (w.reply next a).scene = w.scene := rfl
@[simp] theorem scene_log : (w.log o).scene = w.scene := rfl
@[simp] theorem scene_setStatus : (w.setStatus k status).scene = w.scene := rfl

@[simp]
theorem scene_write : (w.write c text).scene = w.scene := by
  unfold World.write
  split <;> rfl

theorem scene_changeSession (f : Session κ → Session κ) :
    (w.changeSession s f).scene =
      { w.scene with
        place? := Function.update w.scene.place? s (w.sessions[s]?.map fun session =>
          (f session).place) } := by
  refine congrArg (Scene.mk w.scene.receivers?) (funext fun t => ?_)
  rw [getElem?_sessions_changeSession, Function.update_apply]
  by_cases h : t = s
  · subst h
    rw [if_pos rfl]
    cases w.sessions[t]? with
    | none => rfl
    | some session => simp
  · rw [if_neg h]
    cases hs : w.sessions[t]? with
    | none => simp [scene, hs]
    | some session => simp [scene, hs, Ne.symm h]

theorem scene_changeConnection (g : Connection → Connection) :
    (w.changeConnection c g).scene =
      { w.scene with
        receivers? := Function.update w.scene.receivers? c (w.connections[c]?.map fun conn =>
          (g conn).receivers) } := by
  refine congrArg (Scene.mk · w.scene.place?) (funext fun d => ?_)
  rw [getElem?_connections_changeConnection, Function.update_apply]
  by_cases h : d = c
  · subst h
    rw [if_pos rfl]
    cases w.connections[d]? with
    | none => rfl
    | some conn => simp
  · rw [if_neg h]
    cases hc : w.connections[d]? with
    | none => simp [scene, hc]
    | some conn => simp [scene, hc, Ne.symm h]

end Scenes

/-! ### Steps that are no shifts -/

section Frames

variable {v : World κ ν}

/-- A session that stays where it is does not change the scene. -/
theorem scene_changeSession_of_place {f : Session κ → Session κ}
    (hf : ∀ session, (f session).place = session.place) : (w.changeSession s f).scene = w.scene := by
  rw [scene_changeSession]
  refine congrArg (Scene.mk w.scene.receivers?) (Function.update_eq_self_iff.2 ?_)
  exact congrArg (Option.map · w.sessions[s]?) (funext hf)

/-- A connection that keeps its receivers does not change the scene. -/
theorem scene_changeConnection_of_receivers {g : Connection → Connection}
    (hg : ∀ conn, (g conn).receivers = conn.receivers) :
    (w.changeConnection c g).scene = w.scene := by
  rw [scene_changeConnection]
  refine congrArg (Scene.mk · w.scene.place?) (Function.update_eq_self_iff.2 ?_)
  exact congrArg (Option.map · w.connections[c]?) (funext hg)

@[simp]
theorem scene_schedule (w : World κ ν) (s : SessionId) : (w.schedule s).scene = w.scene := by
  obtain h | ⟨d, h⟩ := w.schedule_eq_or s
  · rw [h]
  · rw [h]
    exact scene_changeConnection_of_receivers fun _ => rfl

theorem scene_onSession {act : Session κ → World κ ν}
    (h : ∀ session, w.session? s = some session → (act session).scene = w.scene) :
    (w.onSession s next act).scene = w.scene := by
  unfold World.onSession
  split
  next => rfl
  next session hs => exact h session hs

theorem scene_onCompletion {k? : Option CompletionId} {act : CompletionId → Completion → World κ ν}
    (h : ∀ k completion, (act k completion).scene = w.scene) :
    (w.onCompletion k? next act).scene = w.scene := by
  unfold World.onCompletion
  split
  next => rfl
  next completion _ => exact h _ completion

theorem scene_request (r : Request κ) : (w.request s r).1.scene = w.scene := by
  unfold World.request
  split
  next => rfl
  next session _ =>
    split
    next => rfl
    next d _ =>
      split
      next =>
        rw [scene_schedule, scene_write]
        exact scene_changeSession_of_place fun _ => rfl
      next => rfl

theorem scene_complete (k : CompletionId) (completion : Completion) (text : List Char)
    (terminal : Bool) : (w.complete k completion text terminal).1.scene = w.scene := by
  unfold World.complete
  split
  next => rfl
  next =>
    split
    next => rfl
    next =>
      dsimp only
      split
      next => rfl
      next d entry _ =>
        split
        next => rfl
        next =>
          rw [scene_write]
          exact scene_changeSession_of_place fun _ => rfl

theorem scene_suggest (k : CompletionId) (completion : Completion) (text : List Char) :
    (w.suggest k completion text).1.scene = w.scene := by
  unfold World.suggest
  split
  next =>
    dsimp only
    split
    next => rfl
    next d entry _ => exact scene_write ..
  next => rfl

theorem scene_finish (k : CompletionId) (completion : Completion) :
    (w.finish k completion).1.scene = w.scene := by
  unfold World.finish
  split
  next => rfl
  next =>
    dsimp only
    split
    next => rfl
    next session _ =>
      split
      next entry _ =>
        split
        next =>
          rw [scene_schedule]
          refine (scene_changeSession_of_place ?_).trans ?_
          · exact fun _ => rfl
          · split
            next => exact scene_write ..
            next => rfl
        next => rfl
      next => rfl

theorem scene_type (text : List Char) : (w.type c text next).scene = w.scene := by
  unfold World.type
  split
  next => rfl
  next => rfl
  next t _ =>
    split
    next => rfl
    next => exact scene_changeSession_of_place (w := w.reply next .done) fun _ => rfl

theorem scene_resize (size : Size) : (w.resize client c size next).scene = w.scene := by
  unfold World.resize
  split
  next => rfl
  next => rfl
  next t _ =>
    split
    next => rfl
    next session _ =>
      dsimp only
      split
      next => exact scene_changeSession_of_place (w := w.reply next .done) fun _ => rfl
      next => exact scene_changeSession_of_place (w := w.reply next .done) fun _ => rfl

/-- Dealing with input does not change the scene. -/
theorem scene_deliver : (w.deliver client s).scene = w.scene := by
  have hturn := turn_deliver client w s
  generalize w.deliver client s = w' at hturn ⊢
  -- whatever session handles an event stays where it is
  have hevent : ∀ {d : ConnectionId} {handled : Handled κ} {decoder : Keys.Decoder}
      {phase : Phase κ}, (w.afterEvent s d handled decoder phase).scene = w.scene := by
    intro d handled decoder phase
    rw [afterEvent, scene_push, scene_write]
    exact scene_changeSession_of_place fun _ => rfl
  cases hturn with
  | stop => rfl
  | forward =>
    rw [scene_push, scene_log, scene_push]
    exact scene_changeSession_of_place fun _ => rfl
  | edit | submit | ask => exact hevent

theorem scene_nextTask {limit? : Option Nat} {count : Nat} :
    (w.nextTask c limit? count next).scene = w.scene := by
  unfold nextTask
  split
  next => rfl
  next =>
    split
    next => exact scene_changeConnection_of_receivers fun _ => rfl
    next => rfl

end Frames

/-! ### Shifts -/

theorem session?_eq_some {session : Session κ} (h : w.session? s = some session) :
    w.sessions[s]? = some session ∧ session.released = false := by
  obtain ⟨hs, hkept⟩ := Option.filter_eq_some_iff.1 h
  exact ⟨hs, by simpa using hkept⟩

/-- Installing changes the scene, or it is refused. -/
theorem install_cases {session : Session κ} (hs : w.session? s = some session) (c : ConnectionId) :
    (w.scene.Admits (.installed s c) ∧ (w.install s c).2 = .ok () ∧
        (w.install s c).1.scene = w.scene.after (.installed s c)) ∨
      ∃ why, w.install s c = (w, .error why) := by
  obtain ⟨hs, hkept⟩ := session?_eq_some hs
  unfold World.install
  rw [hs]
  cases hc : w.connections[c]? with
  | none => exact .inr ⟨.notInstalled, rfl⟩
  | some conn =>
    dsimp only
    split
    next => exact .inr ⟨.alreadyInstalled, rfl⟩
    next hfree =>
      refine .inl ⟨⟨⟨session.place, ?_, ?_⟩, conn.receivers, ?_⟩, rfl, ?_⟩
      · simp [scene, hs]
      · exact Option.not_isSome_iff_eq_none.1 hfree
      · simp [scene, hc]
      · rw [scene_changeConnection, scene_changeSession]
        simp [Scene.after, scene, hs, hc, hkept, Connection.receivers, Session.place]

/-- Uninstalling changes the scene, or it is refused. -/
theorem uninstall_scene {session : Session κ} (hs : w.session? s = some session) :
    match session.connection? with
    | some c => w.scene.Admits (.uninstalled s c) ∧
        (w.uninstall s).1.scene = w.scene.after (.uninstalled s c)
    | none => (w.uninstall s).1 = w := by
  obtain ⟨hs, hkept⟩ := session?_eq_some hs
  unfold World.uninstall
  rw [hs]
  dsimp only
  cases hc : session.connection? with
  | none => rfl
  | some c =>
    refine ⟨⟨session.place, ?_, hc⟩, ?_⟩
    · simp [scene, hs]
    · dsimp only
      rw [scene_changeSession, scene_changeConnection]
      cases hconn : w.connections[c]? <;>
        simp [Scene.after, scene, hs, hconn, hkept, Connection.receivers, Session.place]

/-- A call changes the scene by its shift, if it brings one. -/
theorem scene_perform (call : Call κ ν) :
    (w.perform client call next).scene = (w.shiftOf? call).elim w.scene w.scene.after := by
  unfold perform
  cases call with
  | install s c =>
    dsimp only [shiftOf?]
    unfold World.onSession
    cases hs : w.session? s with
    | none => rfl
    | some session =>
      obtain ⟨-, hok, hscene⟩ | ⟨why, hrefused⟩ := install_cases hs c
      · rw [scene_reply, hscene, Option.bind_some, hok]
        rfl
      · rw [scene_reply, Option.bind_some, hrefused]
        rfl
  | uninstall s =>
    dsimp only [shiftOf?]
    unfold World.onSession
    cases hs : w.session? s with
    | none => rfl
    | some session =>
      have hscene := uninstall_scene hs
      rw [Option.bind_some]
      dsimp only
      rw [scene_reply]
      cases hc : session.connection? with
      | none =>
        rw [hc] at hscene
        exact congrArg scene hscene
      | some c =>
        rw [hc] at hscene
        exact hscene.2
  | listen c label =>
    dsimp only [shiftOf?]
    rw [scene_reply, scene_changeConnection]
    cases hc : w.connections[c]? with
    | none =>
      refine congrArg (Scene.mk · w.scene.place?) (Function.update_eq_self_iff.2 ?_)
      simp [scene, hc]
    | some conn => simp [Scene.after, scene, hc, Connection.receivers]
  | release s =>
    dsimp only [shiftOf?]
    rw [scene_reply, scene_changeSession]
    cases hs : w.sessions[s]? <;> simp [Scene.after, scene, hs, Session.place]
  | request s r => exact scene_onSession fun _ _ => scene_request r
  | deliver | history | handlers => exact scene_onSession fun _ _ => rfl
  | schedule s => exact scene_onSession fun _ _ => scene_schedule w s
  | setContinuation | addFunction | addBuiltins | changeHistory | setOnRead | setOnResize =>
    refine scene_onSession fun _ _ => (scene_reply ..).trans ?_
    exact scene_changeSession_of_place fun _ => rfl
  | type c text => exact scene_type text
  | resize c size => exact scene_resize size
  | write c text => exact scene_write ..
  | runTasks | note => rfl
  | complete k? text terminal =>
    exact scene_onCompletion fun k completion => scene_complete k completion text terminal
  | suggest k? text => exact scene_onCompletion fun k completion => scene_suggest k completion text
  | finish k? => exact scene_onCompletion fun k completion => scene_finish k completion
  | inspect k? => exact scene_onCompletion fun _ _ => rfl

/-- A shift comes only when the scene admits it. -/
theorem admits_shiftOf? {call : Call κ ν} {shift : Shift} (h : w.shiftOf? call = some shift) :
    w.scene.Admits shift := by
  cases call with
  | install s c =>
    obtain ⟨session, hs, hshift⟩ := Option.bind_eq_some_iff.1 h
    obtain ⟨hadmits, hok, -⟩ | ⟨why, hrefused⟩ := install_cases hs c
    · rw [hok] at hshift
      cases hshift
      exact hadmits
    · rw [hrefused] at hshift
      cases hshift
  | uninstall s =>
    obtain ⟨session, hs, hshift⟩ := Option.bind_eq_some_iff.1 h
    obtain ⟨c, hc, rfl⟩ := Option.map_eq_some_iff.1 hshift
    have hscene := uninstall_scene hs
    rw [hc] at hscene
    exact hscene.1
  | listen c label =>
    obtain ⟨conn, hc, rfl⟩ := Option.map_eq_some_iff.1 h
    exact ⟨conn.receivers, congrArg (Option.map _) hc⟩
  | release s =>
    cases h
    trivial
  | request | deliver | schedule | setContinuation | addFunction | addBuiltins | changeHistory
  | history | setOnRead | setOnResize | handlers | type | resize | write | runTasks | complete
  | suggest | finish | inspect | note => cases h

/-- **Step lemma.** A step changes the scene by its shift, if one comes. -/
theorem scene_step (client : Client κ ν) (w : World κ ν) :
    (w.step client).scene = w.shift?.elim w.scene w.scene.after := by
  unfold World.step shift?
  cases w.agenda with
  | nil => rfl
  | cons job rest =>
    cases job with
    | run p =>
      cases p with
      | done => rfl
      | call call next => exact scene_perform call
    | deliver s => exact scene_deliver
    | tasks c limit? count next => exact scene_nextTask

theorem admits_of_shift? {shift : Shift} (h : w.shift? = some shift) : w.scene.Admits shift := by
  unfold shift? at h
  split at h
  next call next rest _ => exact admits_shiftOf? (w := { w with agenda := rest }) h
  next => cases h

end World

end LineEditor
