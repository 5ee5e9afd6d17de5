import LineEditor.Proofs.Session.Reachable
import LineEditor.Text.Width.Table

/-!
# Runs by their choices

A run is determined by the world in which it begins and by what is chosen on the way: which client
code begins to run, and which client the innermost job is taken up with. `World.play` follows a list
of such choices, and every run follows one (`run_iff_play`).

What happens in a run can then be read off the worlds in which a job is taken up, in the order in
which this is done (`World.stepped`): each shows in its innermost job what the next step does. What
handlers have got is on record, too (`World.told`), and gets there when a session deals with its
input.
-/

namespace LineEditor

variable {κ ν : Type}

/-- What one move of a run is to be. -/
inductive Choice (κ ν : Type) where
  /-- Client code begins to run. -/
  | run (p : Program κ ν)
  /-- The innermost job is taken up. -/
  | step (client : Client κ ν)

namespace World

variable {w w' : World κ ν}

/-- The world after a move. -/
def move (w : World κ ν) : Choice κ ν → World κ ν
  | .run p => w.push (.run p)
  | .step client => w.step client

/-- The world after some moves. -/
def play (w : World κ ν) : List (Choice κ ν) → World κ ν
  | [] => w
  | choice :: rest => (w.move choice).play rest

/-- The worlds in which a job is taken up, the earliest first. -/
def stepped (w : World κ ν) : List (Choice κ ν) → List (World κ ν)
  | [] => []
  | .run p :: rest => (w.push (.run p)).stepped rest
  | .step client :: rest => w :: (w.step client).stepped rest

theorem play_append (earlier later : List (Choice κ ν)) :
    w.play (earlier ++ later) = (w.play earlier).play later := by
  induction earlier generalizing w with
  | nil => rfl
  | cons choice earlier ih => exact ih

@[simp]
theorem play_concat (choices : List (Choice κ ν)) (choice : Choice κ ν) :
    w.play (choices ++ [choice]) = (w.play choices).move choice :=
  play_append choices [choice]

theorem stepped_append (w : World κ ν) (earlier later : List (Choice κ ν)) :
    w.stepped (earlier ++ later) = w.stepped earlier ++ (w.play earlier).stepped later := by
  induction earlier generalizing w with
  | nil => rfl
  | cons choice earlier ih =>
    cases choice with
    | run p => exact ih (w.push (.run p))
    | step client => exact congrArg (w :: ·) (ih (w.step client))

theorem moves_move (w : World κ ν) (choice : Choice κ ν) : Moves w (w.move choice) := by
  cases choice with
  | run p => exact .run w p
  | step client => exact .step w client

theorem run_play (w : World κ ν) (choices : List (Choice κ ν)) : Run w (w.play choices) := by
  induction choices generalizing w with
  | nil => exact .refl
  | cons choice choices ih => exact .head (moves_move w choice) (ih _)

/-- **Runs are plays.** -/
theorem run_iff_play : Run w w' ↔ ∃ choices, w.play choices = w' := by
  constructor
  · intro hrun
    induction hrun with
    | refl => exact ⟨[], rfl⟩
    | tail _ hmove ih =>
      obtain ⟨choices, rfl⟩ := ih
      cases hmove with
      | run p => exact ⟨choices ++ [.run p], play_concat ..⟩
      | step client => exact ⟨choices ++ [.step client], play_concat ..⟩
  · rintro ⟨choices, rfl⟩
    exact run_play w choices

theorem Pristine.reachable_play {w₀ : World κ ν} (h : Pristine w₀) (choices : List (Choice κ ν)) :
    Reachable (w₀.play choices) :=
  ⟨w₀, h, run_play w₀ choices⟩

/-! ### What is on record -/

section Told

variable {α : Type} {f : Occurrence ν → Option α}

/-- What the occurrences on record tell, the earliest first. -/
def told (w : World κ ν) (f : Occurrence ν → Option α) : List α := w.record.reverse.filterMap f

/-- What is told of the handlers of sessions: neither what was written, nor what happened to the
size of a terminal, nor what tells of no session counts. -/
structure OfHandlers (f : Occurrence ν → Option α) : Prop where
  wrote : ∀ c text, f (.wrote c text) = none
  aside : ∀ o, o.IsAside → f o = none
  resized : ∀ s size, f (.resized s size) = none

/-- Only what is on record counts. -/
theorem told_congr (h : w'.record = w.record) : w'.told f = w.told f := by
  rw [told, h, told]

theorem told_schedule (w : World κ ν) (s : SessionId) : (w.schedule s).told f = w.told f :=
  told_congr (schedule_record w s)

theorem told_log (w : World κ ν) (o : Occurrence ν) :
    (w.log o).told f = w.told f ++ (f o).toList := by
  simp only [told, log_record, List.reverse_cons, List.filterMap_append]
  cases h : f o <;> simp [h]

theorem told_log_of_none {o : Occurrence ν} (h : f o = none) : (w.log o).told f = w.told f := by
  rw [told_log, h]
  exact List.append_nil _

theorem told_write (hf : OfHandlers f) (c : ConnectionId) (text : List Char) :
    (w.write c text).told f = w.told f := by
  unfold World.write
  split
  · rfl
  · exact told_log_of_none (hf.wrote c text)

theorem told_afterEvent (hf : OfHandlers f) (s : SessionId) (c : ConnectionId)
    (handled : Handled κ) (decoder : Keys.Decoder) (phase : Phase κ) :
    (w.afterEvent s c handled decoder phase).told f = w.told f :=
  told_write hf ..

/-- Handlers get something only when a session deals with its input. -/
theorem Turn.told_eq {client : Client κ ν} {job : Job κ ν} (hturn : Turn client w job w')
    (hf : OfHandlers f) (hjob : ∀ s, job ≠ .deliver s) : w'.told f = w.told f := by
  cases hturn with
  | rest => rfl
  | answer | listen | adjust | schedule | deliver | runTasks | install | uninstall | type | move
  | tasksOver | nextTask => exact told_congr (by simp)
  | aside _ _ _ ho => exact told_log_of_none (hf.aside _ ho)
  | resize => exact told_log_of_none (hf.resized _ _)
  | write | insert | suggest => exact told_write hf ..
  | request | resume => exact (told_schedule ..).trans (told_write hf ..)
  | stop s | forward s | edit s | submit s | ask s => exact absurd rfl (hjob s)

end Told

end World

end LineEditor
