import LineEditor.Proofs.Application.Stage

/-!
# Messages

Between two messages nothing is running, and the state of the program is that of a sitting that has
dealt with all that it could (`State.Presents`). A message with a text types this text, and no other
message makes a difference to the sitting (`State.Presents.dispatch`). What a message queues in
turn are tasks of the session, and the request to quit exactly if it has brought the shell to its
end.
-/

namespace LineEditor

namespace Dispatch.Message

variable {τ : Type}

/-- The text that a message types. -/
def text : Message τ → List Char
  | .input text => text
  | _ => []

@[simp]
theorem text_resize (size : Size) : (resize size : Message τ).text = [] := rfl

@[simp]
theorem text_task (t : τ) : (task t).text = [] := rfl

@[simp]
theorem text_quit : (quit : Message τ).text = [] := rfl

end Dispatch.Message

namespace Application

open World (Within)

/-- A message asks for no other session than the one there is. -/
def IsOwn (message : Message) : Prop := ∀ t, message = .task t → t = session

/-- The messages that are queued while one sitting becomes another, with so many tasks. -/
def between (s s' : Sitting) (count : Nat) : List Message :=
  List.replicate count (.task session) ++
    if ¬ s.IsOver ∧ s'.IsOver then [.quit] else []

section Between

variable {s s' : Sitting} {count : Nat} {message : Message}

theorem mem_between (h : message ∈ between s s' count) :
    message = .task session ∨ message = .quit ∧ s'.IsOver := by
  rcases List.mem_append.1 h with htask | hquit
  · exact .inl (List.eq_of_mem_replicate htask)
  · split at hquit
    next hends => exact .inr ⟨List.mem_singleton.1 hquit, hends.2⟩
    next => cases hquit

theorem isOwn_between (h : message ∈ between s s' count) : IsOwn message := by
  rintro t rfl
  rcases mem_between h with heq | ⟨heq, -⟩
  · exact Dispatch.Message.task.inj heq
  · cases heq

theorem text_between (h : message ∈ between s s' count) : message.text = [] := by
  rcases mem_between h with rfl | ⟨rfl, -⟩ <;> rfl

theorem quit_mem_between (hbefore : ¬ s.IsOver) (hafter : s'.IsOver) :
    .quit ∈ between s s' count := by
  refine List.mem_append_right _ ?_
  rw [if_pos ⟨hbefore, hafter⟩]
  exact List.mem_singleton_self _

end Between

/-! ### States -/

namespace State

/-- Nothing is running, and the state is that of a sitting that has dealt with all that it could. -/
structure Presents (state : State) (desk : Desk) (s : Sitting) : Prop where
  /-- The world is that of the sitting. -/
  world : ∃ size? completions,
    state.world = stage (s.editor desk size? s.phase) { completions } []
  /-- What has been written is the sitting's output. -/
  output : state.output = s.output
  /-- The entry is that of a request of the shell's. -/
  fits : s.Fits desk.request
  /-- All that can be dealt with has been dealt with. -/
  drained : desk.drain s = s

variable {state : State} {characters n : Nat} {p : Program Handler Signal}

/-- What client code does, as far as the messages are concerned, when it comes to its end in
time. -/
theorem run_eq {editor : Session Handler} {b : Backstage}
    (hruns : Within client n (state.world.push (.run p)) (stage editor b []))
    (hn : n ≤ stepBound (waiting state.world + characters)) :
    state.run characters p =
      ({ world := stage editor { completions := b.completions } []
         output := state.output ++ b.text },
        b.tasks.map .task ++ if quits b.record then [.quit] else []) := by
  have hexec : state.world.exec client (stepBound (waiting state.world + characters)) p =
      stage editor b [] := hruns.settle_eq rfl hn
  unfold run
  rw [hexec]
  refine congrArg₂ Prod.mk rfl ?_
  exact congrArg (· ++ _) (List.append_nil _)

namespace Presents

variable {desk : Desk} {s : Sitting}

theorem waiting_eq (h : state.Presents desk s) :
    waiting state.world = s.decoder.pending.length := by
  obtain ⟨size?, completions, hworld⟩ := h.world
  rw [hworld]
  rfl

/-- Client code that lets the session deal with its input, after a text has been typed. -/
theorem run_type (h : state.Presents desk s) (text : List Char)
    (hfirst : ∀ size? completions,
      Within client 1
        ((stage (s.editor desk size? s.phase) { completions } []).push (.run p))
        (stage ((s.append text).editor desk size? s.phase) { completions }
          [.deliver session, .run .done])) :
    ∃ count, (state.run text.length p).1.Presents desk (desk.type s text) ∧
      (state.run text.length p).2 = between s (desk.type s text) count ∧
        (state.run text.length p).2.length + (desk.type s text).decoder.pending.length ≤
          s.decoder.pending.length + text.length := by
  obtain ⟨size?, completions, hworld⟩ := h.world
  have hfits : (s.append text).Fits desk.request := h.fits
  obtain ⟨b, hdrain, haccounts, hbalance⟩ :=
    within_drain hfits size? { completions } [.run .done]
  have hruns : Within client (1 + (7 * (s.append text).decoder.pending.length + 1) + 1)
      (state.world.push (.run p))
      (stage ((desk.type s text).editor desk size? (desk.type s text).phase) b []) := by
    rw [hworld]
    exact ((hfirst size? completions).trans hdrain).trans within_done
  have hpending : (s.append text).decoder.pending.length =
      s.decoder.pending.length + text.length := List.length_append
  have hn : 1 + (7 * (s.append text).decoder.pending.length + 1) + 1 ≤
      stepBound (waiting state.world + text.length) := by
    rw [h.waiting_eq, hpending, stepBound, stepsPerEvent]
    omega
  -- the record of the run alone counts, and it begins empty
  have hquits : quits b.record = true ↔ ¬ s.IsOver ∧ (desk.type s text).IsOver :=
    haccounts.quits.trans (or_iff_right nofun)
  obtain ⟨count, htasks⟩ := haccounts.tasks
  have hmessages : b.tasks.map Dispatch.Message.task ++ (if quits b.record then [.quit] else []) =
      between s (desk.type s text) count := by
    rw [htasks, List.nil_append, List.map_replicate, between]
    simp only [hquits]
  obtain ⟨written, houtput, htext⟩ := haccounts.written
  rw [run_eq hruns hn]
  refine ⟨count, ⟨⟨size?, b.completions, rfl⟩, ?_, Desk.fits_type h.fits text, ?_⟩, hmessages, ?_⟩
  · have hwritten : b.text = written := htext
    have houtput : (desk.type s text).output = s.output ++ written := houtput
    exact (congrArg₂ (· ++ ·) h.output hwritten).trans houtput.symm
  · exact Desk.drain_type ..
  · have hlength : (b.tasks.map Dispatch.Message.task ++
        if quits b.record then [Dispatch.Message.quit] else []).length = b.messages := by
      rw [List.length_append, List.length_map, Backstage.messages]
      cases quits b.record <;> rfl
    have hnone : ({ completions } : Backstage).messages = 0 := rfl
    rw [hnone, Nat.zero_add, hpending] at hbalance
    rw [hlength]
    exact hbalance

/-- Typed text is typed in the sitting. -/
theorem dispatch_input (h : state.Presents desk s) (text : List Char) :
    ∃ count, (receivers.dispatch (.input text) state).1.Presents desk (desk.type s text) ∧
      (receivers.dispatch (.input text) state).2 = between s (desk.type s text) count ∧
        (receivers.dispatch (.input text) state).2.length +
            (desk.type s text).decoder.pending.length ≤
          s.decoder.pending.length + text.length :=
  h.run_type text fun _ _ => .one rfl rfl

theorem type_nil (h : state.Presents desk s) : desk.type s [] = s := by
  rw [Desk.type_nil, h.drained]

/-- A task of the session finds nothing to do. -/
theorem dispatch_task (h : state.Presents desk s) :
    ∃ count, (receivers.dispatch (.task session) state).1.Presents desk (desk.type s []) ∧
      (receivers.dispatch (.task session) state).2 = between s (desk.type s []) count ∧
        (receivers.dispatch (.task session) state).2.length +
            (desk.type s []).decoder.pending.length ≤
          s.decoder.pending.length + 0 := by
  refine h.run_type [] fun size? completions => ?_
  rw [Desk.append_nil]
  exact .one rfl rfl

/-- A change of size makes no difference to the sitting. -/
theorem dispatch_resize (h : state.Presents desk s) (size : Size) :
    (receivers.dispatch (.resize size) state).1.Presents desk s ∧
      (receivers.dispatch (.resize size) state).2 = [] := by
  obtain ⟨size?, completions, hworld⟩ := h.world
  have htold : Within client 1 (state.world.push (.run (.ofCall (.resize terminal size))))
      (stage (s.editor desk (some size) s.phase) { completions } [.run .done]) := by
    rw [hworld]
    exact .one rfl rfl
  have hn : 1 + 1 ≤ stepBound (waiting state.world + 0) := by
    rw [stepBound, stepsPerEvent]
    omega
  have hrun : state.run 0 (.ofCall (.resize terminal size)) = (_, _) :=
    run_eq (htold.trans within_done) hn
  refine ⟨?_, congrArg Prod.snd hrun⟩
  have hstate : (receivers.dispatch (.resize size) state).1 = _ := congrArg Prod.fst hrun
  rw [hstate]
  exact ⟨⟨some size, completions, rfl⟩, (List.append_nil _).trans h.output, h.fits, h.drained⟩

/-- **What a message does.** Its text is typed, and what is queued in turn are tasks of the session
and, at the end of the shell, the request to quit. There are no more messages than there are
characters that have been dealt with. -/
theorem dispatch (h : state.Presents desk s) {message : Message} (hown : IsOwn message) :
    ∃ count, (receivers.dispatch message state).1.Presents desk (desk.type s message.text) ∧
      (receivers.dispatch message state).2 = between s (desk.type s message.text) count ∧
        (receivers.dispatch message state).2.length +
            (desk.type s message.text).decoder.pending.length ≤
          s.decoder.pending.length + message.text.length := by
  have hsame : between s s 0 = [] := by
    cases hentry : s.entry? <;> simp [between, hentry]
  cases message with
  | input text => exact h.dispatch_input text
  | resize size =>
    obtain ⟨hpresents, hmessages⟩ := h.dispatch_resize size
    rw [Dispatch.Message.text_resize, h.type_nil, hmessages]
    exact ⟨0, hpresents, hsame.symm, Nat.le_of_eq (Nat.add_comm ..)⟩
  | task t =>
    obtain rfl : t = session := hown t rfl
    rw [Dispatch.Message.text_task]
    exact h.dispatch_task
  | quit =>
    rw [Dispatch.Message.text_quit, h.type_nil]
    exact ⟨0, h, hsame.symm, Nat.le_of_eq (Nat.add_comm ..)⟩

/-- The program that has quit leaves with a new row, since its session comes off the terminal. -/
theorem leave?_eq {r : Running} (h : r.state.Presents desk s) (hquit : r.quit = true) :
    r.leave? = some { exitCode := 0, output := s.output ++ newRow } := by
  obtain ⟨size?, completions, hworld⟩ := h.world
  have huninstall : (r.state.world.uninstall session).2 = .ok () := by
    rw [hworld]
    rfl
  unfold Running.leave?
  rw [if_pos hquit, huninstall, h.output]

end Presents

end State

/-! ### The first request -/

/-- What stays the same in the sittings of a program. -/
def Desk.of (settings : Settings) (prompt : List Char) : Desk where
  prompt
  continuation := settings.continuation
  functions := FunctionTable.insertBuiltins {}

/-- The sitting when the first line is asked for. -/
def Desk.opening (settings : Settings) (prompt : List Char) : Sitting :=
  (Desk.of settings prompt).ask
    { decoder := .ofKeymap settings.keymap, history := .empty settings.historyCap }

/-- The first line is asked for, and no message is queued. -/
theorem run_ask (settings : Settings) (prompt : List Char) :
    ((Running.fresh settings).state.run 0 (ask prompt)).1.Presents (.of settings prompt)
        (Desk.opening settings prompt) ∧
      ((Running.fresh settings).state.run 0 (ask prompt)).2 = [] := by
  let blank : Sitting :=
    { decoder := .ofKeymap settings.keymap, history := .empty settings.historyCap }
  have hfresh : (Running.fresh settings).state.world.push (.run (ask prompt)) =
      stage (blank.editor (.of settings prompt) none .idle) {} [.run (ask prompt)] := rfl
  have hruns : Within client 2 ((Running.fresh settings).state.world.push (.run (ask prompt)))
      (stage ((Desk.opening settings prompt).editor (.of settings prompt) none
          (Desk.opening settings prompt).phase)
        ((({} : Backstage).write prompt).schedule false) []) := by
    rw [hfresh]
    exact within_ask blank {} []
  have hn : 2 ≤ stepBound (waiting (Running.fresh settings).state.world + 0) := by
    rw [stepBound, stepsPerEvent]
    omega
  have hquits : quits ((({} : Backstage).write prompt).schedule false).record = false := by
    rw [record_schedule, quits_write]
    rfl
  rw [State.run_eq hruns hn, hquits]
  refine ⟨⟨⟨none, [], rfl⟩, ?_, ?_, ?_⟩, rfl⟩
  · rw [text_schedule, text_write]
    rfl
  · rintro entry ⟨⟩
    rfl
  · exact Desk.drain_of_waits (Keys.Decoder.next_eq_none_of_pending_nil rfl)

end Application

end LineEditor
