import LineEditor.Proofs.Session.Turn
import Mathlib.Logic.Relation
import Mathlib.Tactic.Common

/-!
# Reachable worlds

A *pristine* world has sessions that are nowhere installed, connections without tasks, and no
completions. From there the world moves: client code begins to run, at any time, or the innermost
job is taken up. A step may take any client, so that the handlers that clients hand over may do
something else each time that they are called: whatever is proved of all reachable worlds holds
whatever callbacks do.

`Reachable.induction` is the one induction over moves. It asks what every `Turn` keeps.
-/

namespace LineEditor.World

open Relation

variable {κ ν : Type}

/-- A world in which nothing has happened yet. -/
structure Pristine (w : World κ ν) : Prop where
  idle : ∀ session ∈ w.sessions, session.connection? = none ∧ session.phase = .idle
  calm : ∀ conn ∈ w.connections, conn.tasks = []
  completions : w.completions = []
  agenda : w.agenda = []

variable [Text.Widths]

/-- One move: client code begins to run, or the innermost job is taken up. -/
inductive Moves : World κ ν → World κ ν → Prop where
  | run (w : World κ ν) (p : Program κ ν) : Moves w (w.push (.run p))
  | step (w : World κ ν) (client : Client κ ν) : Moves w (w.step client)

/-- Any number of moves. -/
abbrev Run : World κ ν → World κ ν → Prop := ReflTransGen Moves

/-- A world that moves lead to from a pristine one. -/
def Reachable (w : World κ ν) : Prop := ∃ w₀, Pristine w₀ ∧ Run w₀ w

theorem Pristine.reachable {w : World κ ν} (h : Pristine w) : Reachable w := ⟨w, h, .refl⟩

theorem Reachable.trans {w w' : World κ ν} (h : Reachable w) (hrun : Run w w') :
    Reachable w' := by
  obtain ⟨w₀, h₀, hw⟩ := h
  exact ⟨w₀, h₀, hw.trans hrun⟩

theorem Reachable.run {w : World κ ν} (h : Reachable w) (p : Program κ ν) :
    Reachable (w.push (.run p)) :=
  h.trans (.single (.run w p))

theorem Reachable.step {w : World κ ν} (h : Reachable w) (client : Client κ ν) :
    Reachable (w.step client) :=
  h.trans (.single (.step w client))

/-- What client code and every turn keep, a run keeps. -/
theorem Run.induction {P : World κ ν → Prop} {w w' : World κ ν} (hrun : Run w w')
    (run : ∀ v p, P v → P (v.push (.run p)))
    (turn : ∀ client v job rest v', v.agenda = job :: rest →
      Turn client { v with agenda := rest } job v' → P v → P v')
    (start : P w) : P w' := by
  induction hrun with
  | refl => exact start
  | tail _ hmove ih =>
    cases hmove with
    | run p => exact run _ p ih
    | step client =>
      rename_i v _
      cases hagenda : v.agenda with
      | nil => rwa [step_of_agenda_nil client hagenda]
      | cons job rest => exact turn client v job rest _ hagenda (turn_step client hagenda) ih

/-- **Invariants.** What holds of pristine worlds and is kept by client code and by every turn holds
of all reachable worlds. -/
theorem Reachable.induction {P : World κ ν → Prop} {w : World κ ν} (h : Reachable w)
    (start : ∀ v, Pristine v → P v) (run : ∀ v p, P v → P (v.push (.run p)))
    (turn : ∀ client v job rest v', v.agenda = job :: rest →
      Turn client { v with agenda := rest } job v' → P v → P v') : P w := by
  obtain ⟨w₀, h₀, hrun⟩ := h
  exact hrun.induction run turn (start w₀ h₀)

/-! ### Running to the end -/

theorem run_settle (client : Client κ ν) (fuel : Nat) (w : World κ ν) :
    Run w (w.settle client fuel) := by
  induction fuel generalizing w with
  | zero => exact .refl
  | succ fuel ih =>
    rw [settle]
    split
    · exact .refl
    · exact .head (.step w client) (ih _)

theorem run_exec (client : Client κ ν) (fuel : Nat) (w : World κ ν) (p : Program κ ν) :
    Run w (w.exec client fuel p) :=
  .head (.run w p) (run_settle client fuel _)

end LineEditor.World
