import LineEditor.Proofs.Session.Calm
import Mathlib.Logic.Relation

/-!
# The course of a session

One session on one connection, one request, which may be made again for line after line, and a
client whose answers are settled in advance: a `Setup`. What is left open is *when* things happen.
Text is typed in pieces; the tasks of the connection are run one by one; and of the calls that it
owes for a completion, the client makes some at once and the others later. A `Play` is one of these
moves, after which nothing is running; a course is any sequence of them.

Beside it stands a machine that knows no time, `Advances`: it makes the calls that are owed, and
when there are none it handles the next event of all that has been typed. There is never more than
one way to advance (`Advances.unique`).
-/

namespace LineEditor

open Relation

variable {κ ν : Type}

/-! ### What is settled in advance -/

/-- What a client does for a completion. -/
inductive Plan where
  /-- It puts text into the line; a terminal one ends its word. -/
  | insertion (text : List Char) (terminal : Bool)
  /-- It lists suggestions. -/
  | listing (texts : List (List Char))

/-- The calls of a plan for a completion, the last of which ends it. -/
def Plan.calls (k : CompletionId) : Plan → List (Call κ ν)
  | .insertion text terminal => [.complete (some k) text terminal, .finish (some k)]
  | .listing texts => texts.map (.suggest (some k)) ++ [.finish (some k)]

/-- Calls made one after another. -/
def Program.ofCalls : List (Call κ ν) → Program κ ν
  | [] => .done
  | c :: calls => .andThen c (.ofCalls calls)

/-- A session and a client whose answers are settled in advance. -/
structure Setup (κ : Type) where
  /-- The key bindings of the session. -/
  keymap : Keymap
  /-- Its editing functions. -/
  functions : FunctionTable
  /-- The lines that were entered before. -/
  history : History
  /-- The prompt of further physical lines. -/
  continuation : List Char
  /-- The size of the terminal, when it is known. -/
  size? : Option Size
  /-- The request. -/
  request : Request κ
  /-- Whether the same request is made again after a line. -/
  again : List Char → Bool
  /-- What is done for a completion of a line and a word. -/
  plan : List Char → List Char → Plan

namespace Setup

variable (setup : Setup κ)

/-- The calls that are owed for a completion. -/
def calls (k : CompletionId) (completion : Completion) : List (Call κ ν) :=
  (setup.plan completion.snapshot.line completion.snapshot.word).calls k

/-- The client that makes the first `atOnce k` calls for completion `k` as soon as it is asked. -/
def client (atOnce : CompletionId → Nat) : Client κ ν where
  onLine _ line := if setup.again line then .ofCall (.request 0 setup.request) else .done
  onComplete _ k completion := .ofCalls ((setup.calls k completion).take (atOnce k))
  onRead _ _ := .done
  onResize _ _ := .done

/-- The world before anything has happened: a session, and a connection. -/
def blank : World κ ν where
  sessions :=
    [{ continuation := setup.continuation
       decoder := .ofKeymap setup.keymap
       functions := setup.functions
       history := setup.history
       size? := setup.size? }]
  connections := [{}]

/-- The world in which the session has been installed and the request has just been made. -/
def opening : World κ ν :=
  setup.blank.exec (setup.client fun _ => 0) 4 <|
    .andThen (.install 0 0) (.ofCall (.request 0 setup.request))

/-- The session when the request has been made. -/
def session : Session κ where
  connection? := some 0
  phase := .editing { id := 0, request := setup.request }
  continuation := setup.continuation
  decoder := .ofKeymap setup.keymap
  functions := setup.functions
  history := setup.history
  size? := setup.size?
  nextId := 1

/-- The world in which the request has been made, but for the prompt. -/
def silent : World κ ν where
  sessions := [setup.session]
  connections := [{ input? := some (.session 0), resize? := some (.session 0) }]

/-- In the opening world the session edits, and the prompt has been written. -/
theorem opening_eq : (setup.opening : World κ ν) = setup.silent.write 0 setup.request.prompt := by
  have hinstall : ((setup.blank : World κ ν).push (.run (.andThen (.install 0 0)
      (.ofCall (.request 0 setup.request))))).step (setup.client fun _ => 0) =
        { (setup.silent : World κ ν) with
          sessions := [{ setup.session with phase := .idle, nextId := 0 }]
          agenda := [.run (.ofCall (.request 0 setup.request))] } := rfl
  have hrequest : ({ (setup.silent : World κ ν) with
      sessions := [{ setup.session with phase := .idle, nextId := 0 }]
      agenda := [.run (.ofCall (.request 0 setup.request))] } : World κ ν).step
        (setup.client fun _ => 0) =
          ((setup.silent.write 0 setup.request.prompt).schedule 0).push (.run .done) := rfl
  -- nothing has been typed, so no task is queued
  have hschedule : (setup.silent.write 0 setup.request.prompt : World κ ν).schedule 0 =
      setup.silent.write 0 setup.request.prompt := by
    have hwaits : setup.session.decoder.hasNext = false := rfl
    simp [World.schedule, silent, hwaits]
  have hdone : ((setup.silent.write 0 setup.request.prompt : World κ ν).push (.run .done)).step
      (setup.client fun _ => 0) = setup.silent.write 0 setup.request.prompt := rfl
  unfold opening World.exec
  rw [World.settle, if_neg (by simp), hinstall, World.settle, if_neg (by simp), hrequest,
    hschedule, World.settle, if_neg (by simp), hdone, World.settle, if_pos]
  simp [silent]

end Setup

/-! ### What is left open -/

/-- Client code runs to its end. -/
def World.Settles (client : Client κ ν) (w : World κ ν) (p : Program κ ν) (w' : World κ ν) : Prop :=
  ∃ fuel, w.exec client fuel p = w' ∧ w'.agenda = []

/-- A moment of a course, between two moves: what the world is like, what has been typed so far, and
how many calls have been made later than at once for each completion. -/
structure Moment (κ ν : Type) where
  world : World κ ν
  typed : List Char
  made : CompletionId → Nat

/-- One move of a course, in which the client makes the first `atOnce k` calls for completion `k` at
once. -/
inductive Play (setup : Setup κ) (atOnce : CompletionId → Nat) :
    Moment κ ν → Moment κ ν → Prop where
  /-- A piece of text is typed. -/
  | chunk {w w' : World κ ν} {typed made} (text : List Char)
      (h : w.Settles (setup.client atOnce) (.ofCall (.type 0 text)) w') :
      Play setup atOnce ⟨w, typed, made⟩ ⟨w', typed ++ text, made⟩
  /-- The first task of the connection is run. -/
  | task {w w' : World κ ν} {typed made}
      (h : w.Settles (setup.client atOnce) (.ofCall (.runTasks 0 (some 1))) w') :
      Play setup atOnce ⟨w, typed, made⟩ ⟨w', typed, made⟩
  /-- The next call is made that is owed for a completion. -/
  | answer {w w' : World κ ν} {typed made} {k : CompletionId} {completion : Completion}
      {call : Call κ ν} (hk : w.completions[k]? = some completion)
      (hcall : (setup.calls k completion)[atOnce k + made k]? = some call)
      (h : w.Settles (setup.client atOnce) (.ofCall call) w') :
      Play setup atOnce ⟨w, typed, made⟩
        ⟨w', typed, fun j => if j = k then made j + 1 else made j⟩

/-- The moment at which every course begins. -/
def Setup.start (setup : Setup κ) : Moment κ ν := ⟨setup.opening, [], fun _ => 0⟩

/-- A course of moves. -/
abbrev Course (setup : Setup κ) (atOnce : CompletionId → Nat) : Moment κ ν → Moment κ ν → Prop :=
  ReflTransGen (Play setup atOnce)

/-- A course is complete when no task is left and all calls have been made. -/
structure Moment.Complete (m : Moment κ ν) (setup : Setup κ) (atOnce : CompletionId → Nat) :
    Prop where
  tasks : ∀ conn ∈ m.world.connections, conn.tasks = []
  calls : ∀ (k : CompletionId) (completion : Completion),
    m.world.completions[k]? = some completion →
      (setup.calls k completion : List (Call κ ν)).length ≤ atOnce k + m.made k

/-! ### The machine that knows no time -/

/-- The calls that an event makes the client owe, when it begins completion `k`. -/
def Setup.owed (setup : Setup κ) (k : CompletionId) : Outcome κ → List (Call κ ν)
  | .goesOn => []
  | .submitted line => if setup.again line then [.request 0 setup.request] else []
  | .asked _ snapshot => (setup.plan snapshot.line snapshot.word).calls k

/-- One advance: the next call that is owed is made, or an event is handled when there is none. What
is queued and running is forgotten at once. -/
inductive Advances (setup : Setup κ) :
    World κ ν × List (Call κ ν) → World κ ν × List (Call κ ν) → Prop where
  | call {w : World κ ν} {call : Call κ ν} {owed} (client : Client κ ν) (next)
      (hcall : call.Answers) :
      Advances setup (w, call :: owed) ((w.perform client call next).calm [], owed)
  | event {w : World κ ν} {session entry c event decoder} (client : Client κ ν)
      (h : w.Handles 0 session entry c event decoder) :
      Advances setup (w, [])
        ((w.handleEvent client 0 session entry c event decoder).calm [],
          setup.owed w.completions.length
            (entry.handle session.functions session.history session.continuation event).outcome)

/-- There is one way to advance. -/
theorem Advances.unique {setup : Setup κ} {a b b' : World κ ν × List (Call κ ν)}
    (h : Advances setup a b) (h' : Advances setup a b') : b = b' := by
  cases h with
  | call client next hcall =>
    cases h' with
    | call client' next' _ =>
      rw [World.calm_perform hcall client next next, World.calm_perform hcall client next' next]
  | event client h =>
    cases h' with
    | event client' h' =>
      obtain ⟨hs, hphase, hc, hnext⟩ := h
      obtain ⟨hs', hphase', hc', hnext'⟩ := h'
      cases hs.symm.trans hs'
      cases hphase.symm.trans hphase'
      cases hc.symm.trans hc'
      cases hnext.symm.trans hnext'
      refine congrArg (·, _) ?_
      exact (World.calm_handleEvent client).trans (World.calm_handleEvent client).symm

end LineEditor
