import LineEditor.Session.World

/-!
# The dispatch queue

One queue carries everything that reaches the program: typed input, changes of the terminal's size,
tasks, and the request to quit. `run` takes the messages in order, each of which may put further
messages at the end of the queue, until it meets a request to quit, and leaves the rest for the next
run.
-/

namespace LineEditor.Dispatch

/-- A message of the queue; `τ` are the tasks. -/
inductive Message (τ : Type) where
  /-- Typed input. -/
  | input (text : List Char)
  /-- A change of the terminal's size. -/
  | resize (size : Size)
  /-- A task. -/
  | task (t : τ)
  /-- The request to quit. -/
  | quit
  deriving DecidableEq, Repr

/-- What is done with the messages, in a state `σ`. The result is the state afterwards and the
messages that are put at the end of the queue. -/
structure Receivers (σ τ : Type) where
  /-- What is done with input, if anything. -/
  onInput? : Option (List Char → σ → σ × List (Message τ))
  /-- What is done with a change of size, if anything. -/
  onResize? : Option (Size → σ → σ × List (Message τ))
  /-- How a task is run. -/
  onTask : τ → σ → σ × List (Message τ)

variable {σ τ : Type}

/-- Dispatches one message. One that nobody receives is without effect, and so is, here, the request
to quit. -/
def Receivers.dispatch (r : Receivers σ τ) (message : Message τ) (state : σ) :
    σ × List (Message τ) :=
  match message with
  | .input text => r.onInput?.elim (state, []) (· text state)
  | .resize size => r.onResize?.elim (state, []) (· size state)
  | .task t => r.onTask t state
  | .quit => (state, [])

/-- How a run of the queue has ended. -/
structure Ended (σ τ : Type) where
  /-- The state at the end. -/
  state : σ
  /-- The messages that are left. -/
  queue : List (Message τ)
  /-- Whether the run met a request to quit. -/
  quit : Bool

/-- Dispatches the messages of a queue up to the first request to quit, at most `fuel` of them. -/
def run (r : Receivers σ τ) : Nat → σ → List (Message τ) → Ended σ τ
  | 0, state, queue => { state, queue, quit := false }
  | _ + 1, state, [] => { state, queue := [], quit := false }
  | _ + 1, state, .quit :: queue => { state, queue, quit := true }
  | fuel + 1, state, message :: queue =>
    let (state, more) := r.dispatch message state
    run r fuel state (queue ++ more)

end LineEditor.Dispatch
