import LineEditor.Proofs.Application.Interleaving
import Mathlib.Algebra.Ring.Nat

/-!
# The transcript of the program

The program dispatches all messages before it takes the next block of input. This is one of the
orders that a `Process` allows (`Process.Sound.reaches_dispatched`), and the number of messages that
it dispatches is enough, since each message costs at least one of the characters that wait or one of
the messages that are queued (`dispatchBound_eq`).

So the program comes to its end exactly when its input ends, holds an interrupt or brings the shell
to its end, and has written then what the sitting has written in which all that the blocks type is
typed at once, and a new row (`transcript?_eq_some_iff`). In every other order, too, the end can be
reached at any time (`Process.Reachable.exists_left`).
-/

namespace LineEditor.Application

open Relation

/-! ### The number of messages -/

theorem messageWeight_eq (message : Message) : messageWeight message = message.text.length + 1 := by
  cases message <;> rfl

theorem dispatchBound_eq (characters : Nat) (queue : List Message) :
    dispatchBound characters queue = (queue.map messageWeight).sum + (characters + 1) := by
  induction queue with
  | nil => exact (Nat.zero_add _).symm
  | cons message queue ih =>
    rw [dispatchBound, ih, List.map_cons, List.sum_cons, Nat.add_assoc]

/-- What types nothing counts once. -/
theorem sum_messageWeight {queue : List Message} (h : ∀ message ∈ queue, message.text = []) :
    (queue.map messageWeight).sum = queue.length := by
  induction queue with
  | nil => rfl
  | cons message queue ih =>
    have hfirst : messageWeight message = 1 := by
      rw [messageWeight_eq, h message List.mem_cons_self]
      rfl
    have hrest := ih fun later hlater => h later (List.mem_cons_of_mem _ hlater)
    rw [List.map_cons, List.sum_cons, hrest, hfirst, List.length_cons, Nat.add_comm]

namespace Process

variable {desk : Desk} {total s : Sitting} {p p' : Process}

theorem Sound.run (h : p.Sound desk total s) (hrun : ReflTransGen Moves p p') :
    ∃ s', p'.Sound desk total s' := by
  induction hrun with
  | refl => exact ⟨s, h⟩
  | tail _ hmoves ih =>
    obtain ⟨s', hsound⟩ := ih
    exact hsound.moves hmoves

/-- The program queues all that it is to queue. -/
theorem reaches_queued (p : Process) :
    ReflTransGen Moves p { p with queue := p.queue ++ p.outgoing, outgoing := [] } := by
  obtain ⟨state, queue, outgoing, decoder, unread, reading, left⟩ := p
  induction outgoing generalizing queue with
  | nil =>
    rw [List.append_nil]
  | cons message outgoing ih =>
    refine .head (.queues rfl) ?_
    have hrest := ih (queue ++ [message])
    rwa [← List.append_cons] at hrest

/-- The program after it has dispatched its messages, at most `fuel` of them. -/
def dispatched (p : Process) (fuel : Nat) : Process :=
  let ended := Dispatch.run receivers fuel p.state p.queue
  { p with state := ended.state, queue := ended.queue, left := ended.quit }

/-- A message is taken, and all is queued that it asks for. -/
def taken (p : Process) (message : Message) (queue : List Message) : Process :=
  { p with
    state := (receivers.dispatch message p.state).1
    queue := queue ++ (receivers.dispatch message p.state).2
    outgoing := [] }

theorem dispatched_cons {message : Message} {queue : List Message}
    (hqueue : p.queue = message :: queue) (hmessage : message ≠ .quit) (hidle : p.outgoing = [])
    (fuel : Nat) : p.dispatched (fuel + 1) = (p.taken message queue).dispatched fuel := by
  unfold dispatched taken
  rw [hqueue, ← hidle]
  cases message with
  | quit => exact absurd rfl hmessage
  | input text => rfl
  | resize size => rfl
  | task t => rfl

/-- A message that is taken takes at least one from the bound. -/
theorem Sound.bound_taken (h : p.Sound desk total s) {message : Message} {queue : List Message}
    (hqueue : p.queue = message :: queue) :
    dispatchBound (waiting (p.taken message queue).state.world) (p.taken message queue).queue <
      dispatchBound (waiting p.state.world) p.queue := by
  have hown : IsOwn message := by
    apply h.queued
    rw [hqueue]
    exact List.mem_cons_self
  obtain ⟨count, hpresents, hmessages, hbalance⟩ := h.presents.dispatch hown
  have hweight : ((receivers.dispatch message p.state).2.map messageWeight).sum =
      (receivers.dispatch message p.state).2.length := by
    refine sum_messageWeight fun later hlater => ?_
    rw [hmessages] at hlater
    exact text_between hlater
  have hwaiting : waiting (p.taken message queue).state.world =
      (desk.type s message.text).decoder.pending.length := hpresents.waiting_eq
  rw [dispatchBound_eq, dispatchBound_eq, hqueue, hwaiting, h.presents.waiting_eq]
  simp only [taken, List.map_append, List.sum_append, hweight, List.map_cons, List.sum_cons,
    messageWeight_eq]
  omega

theorem reaches_taken {message : Message} {queue : List Message} (hleft : p.left = false)
    (hidle : p.outgoing = []) (hqueue : p.queue = message :: queue) (hmessage : message ≠ .quit) :
    ReflTransGen Moves p (p.taken message queue) :=
  .head (.takes hleft hidle hqueue hmessage) (reaches_queued _)

/-- **Dispatching is moving**: with enough messages allowed, the program takes them one after
another, until it has quit or no message is left. -/
theorem Sound.reaches_dispatched (h : p.Sound desk total s) (hidle : p.outgoing = [])
    (hleft : p.left = false) {fuel : Nat}
    (hfuel : dispatchBound (waiting p.state.world) p.queue ≤ fuel) :
    ReflTransGen Moves p (p.dispatched fuel) ∧
      ((p.dispatched fuel).left = true ∨ (p.dispatched fuel).queue = []) := by
  induction fuel generalizing p s with
  | zero =>
    rw [dispatchBound_eq] at hfuel
    omega
  | succ fuel ih =>
    cases hqueue : p.queue with
    | nil =>
      have hended : Dispatch.run receivers (fuel + 1) p.state [] =
          { state := p.state, queue := p.queue, quit := p.left } := by
        rw [hqueue, hleft]
        rfl
      have hsame : p.dispatched (fuel + 1) = p := by
        unfold dispatched
        rw [hqueue, hended]
      rw [hsame]
      exact ⟨.refl, .inr hqueue⟩
    | cons message queue =>
      by_cases hmessage : message = .quit
      · subst hmessage
        have hquit : p.dispatched (fuel + 1) = { p with queue, left := true } := by
          unfold dispatched
          rw [hqueue]
          rfl
        rw [hquit]
        exact ⟨.single (.quits hleft hidle hqueue), .inl rfl⟩
      · have htaken := reaches_taken hleft hidle hqueue hmessage
        obtain ⟨s', hsound⟩ := h.run htaken
        have hbound := h.bound_taken hqueue
        have hfuel' := Nat.le_of_lt_succ (Nat.lt_of_lt_of_le hbound hfuel)
        obtain ⟨hrun, hends⟩ := ih hsound rfl hleft hfuel'
        rw [dispatched_cons hqueue hmessage hidle]
        exact ⟨htaken.trans hrun, hends⟩

end Process

/-! ### The program between two blocks -/

namespace Running

open Process (Moves Reachable)

/-- The program with a reader. -/
def process (r : Running) (unread : List (List UInt8)) (reading : Bool) : Process where
  state := r.state
  queue := r.queue
  decoder := r.decoder
  unread
  reading
  left := r.quit

/-- The program is that of a process which has quit or waits for input. -/
structure Rests (settings : Settings) (prompt : List Char) (size? : Option Size)
    (blocks : List (List UInt8)) (r : Running) (unread : List (List UInt8)) (reading : Bool) :
    Prop where
  /-- The process comes from the start of the program. -/
  reachable : Reachable settings prompt size? blocks (r.process unread reading)
  /-- Either the program has quit, or no message waits. -/
  done : r.quit = true ∨ r.queue = []

variable {settings : Settings} {prompt : List Char} {size? : Option Size}
  {blocks : List (List UInt8)} {r : Running} {unread : List (List UInt8)} {reading : Bool}

/-- After a dispatch the program rests. -/
theorem rests_dispatch (h : Reachable settings prompt size? blocks (r.process unread reading))
    (hquit : r.quit = false) : Rests settings prompt size? blocks r.dispatch unread reading := by
  obtain ⟨s, hsound⟩ := h.sound
  obtain ⟨hrun, hends⟩ := hsound.reaches_dispatched rfl hquit (Nat.le_refl _)
  have hprocess : r.dispatch.process unread reading = (r.process unread reading).dispatched
      (dispatchBound (waiting r.state.world) r.queue) := by
    unfold dispatch process Process.dispatched
    rw [hquit]
    rfl
  refine ⟨?_, hends.imp ?_ ?_⟩
  · rw [hprocess]
    exact h.trans hrun
  · exact fun hleft => (congrArg Process.left hprocess).trans hleft
  · exact fun hqueue => (congrArg Process.queue hprocess).trans hqueue

/-- The program rests when it has started. -/
theorem rests_start (settings : Settings) (prompt : List Char) (size? : Option Size)
    (blocks : List (List UInt8)) :
    Rests settings prompt size? blocks (start settings prompt size?) blocks true :=
  rests_dispatch (r := { fresh settings with
    state := ((fresh settings).state.run 0 (ask prompt)).1
    queue := size?.toList.map .resize ++ ((fresh settings).state.run 0 (ask prompt)).2 })
    (Process.reaches_queued (.start settings prompt size? blocks)) rfl

namespace Rests

theorem queue_eq_nil (h : Rests settings prompt size? blocks r unread reading)
    (hquit : r.quit = false) : r.queue = [] :=
  h.done.resolve_left (by simp [hquit])

/-- The program that rests can be asked to quit, and quits. -/
theorem post_quit (h : Rests settings prompt size? blocks r unread true) (hquit : r.quit = false)
    (hstops : ∀ block ∈ unread.head?, interrupt ∈ block) :
    Rests settings prompt size? blocks (r.post [.quit]) unread false ∧
      (r.post [.quit]).quit = true := by
  have hstop : Reachable settings prompt size? blocks
      ({ r with queue := r.queue ++ [Dispatch.Message.quit] }.process unread false) :=
    h.reachable.tail (.stops rfl hstops)
  refine ⟨rests_dispatch hstop hquit, ?_⟩
  have hbound : dispatchBound (waiting r.state.world) [Dispatch.Message.quit] =
      dispatchBound (waiting r.state.world) [] + 1 := Nat.add_comm ..
  unfold post dispatch
  dsimp only
  rw [h.queue_eq_nil hquit, List.nil_append, hbound, hquit]
  rfl

/-- A block with an interrupt makes the program quit. -/
theorem receive_interrupt {block : List UInt8}
    (h : Rests settings prompt size? blocks r (block :: unread) true) (hquit : r.quit = false)
    (hinterrupt : interrupt ∈ block) :
    Rests settings prompt size? blocks (r.receive block) (block :: unread) false ∧
      (r.receive block).quit = true := by
  have hreceive : r.receive block = r.post [.quit] := by
    unfold receive
    rw [if_neg (by simp [hquit]), if_pos (List.contains_iff_mem.2 hinterrupt)]
  rw [hreceive]
  refine h.post_quit hquit ?_
  rintro _ ⟨⟩
  exact hinterrupt

/-- Any other block is typed. -/
theorem receive_calm {block : List UInt8}
    (h : Rests settings prompt size? blocks r (block :: unread) true) (hquit : r.quit = false)
    (hcalm : interrupt ∉ block) :
    Rests settings prompt size? blocks (r.receive block) unread true := by
  have hreceive : r.receive block = { r with decoder := (Utf8.decode r.decoder block).1 }.post
      (inputs (Utf8.decode r.decoder block).2) := by
    unfold receive
    rw [if_neg (by simp [hquit]), if_neg (by simpa using hcalm)]
    rfl
  rw [hreceive]
  exact rests_dispatch (h.reachable.tail (.reads rfl rfl hcalm)) hquit

/-- The program comes to something exactly when it has quit, and to what the blocks alone say. -/
theorem leave?_eq_some_iff (h : Rests settings prompt size? blocks r unread reading)
    {outcome : CallOutcome} :
    r.leave? = some outcome ↔
      r.quit = true ∧
        outcome =
          { exitCode := 0, output := (sitting settings prompt blocks).output ++ newRow } := by
  cases hquit : r.quit with
  | false =>
    have hwaits : r.leave? = none := if_neg (by simp [hquit])
    rw [hwaits]
    exact ⟨nofun, nofun⟩
  | true =>
    have hleaves : r.leave? = some _ := h.reachable.leave?_of_left hquit
    rw [hleaves, Option.some_inj, eq_comm]
    exact (and_iff_right rfl).symm

/-- At the end of the input the program quits. -/
theorem close (h : Rests settings prompt size? blocks r unread reading)
    (hends : r.quit = true ∨ unread = [] ∧ reading = true) :
    ∃ reading, Rests settings prompt size? blocks r.close unread reading ∧ r.close.quit = true := by
  cases hquit : r.quit with
  | true =>
    have hclose : r.close = r := if_pos hquit
    rw [hclose]
    exact ⟨reading, h, hquit⟩
  | false =>
    have hclose : r.close = r.post [.quit] := if_neg (by simp [hquit])
    obtain ⟨rfl, rfl⟩ := hends.resolve_left (by simp [hquit])
    rw [hclose]
    exact ⟨false, h.post_quit hquit nofun⟩

end Rests

/-- A program that has quit takes no block. -/
theorem foldl_receive_of_quit (hquit : r.quit = true) (blocks : List (List UInt8)) :
    blocks.foldl receive r = r := by
  induction blocks with
  | nil => rfl
  | cons block blocks ih =>
    have hreceive : r.receive block = r := if_pos hquit
    rw [List.foldl_cons, hreceive, ih]

/-- **Run lemma.** After all blocks the program rests. Either it has quit, or it has read them all
without an interrupt and reads on; and without an interrupt it reads on anyway. -/
theorem Rests.foldl (h : Rests settings prompt size? blocks r unread true) :
    ∃ left reading, Rests settings prompt size? blocks (unread.foldl receive r) left reading ∧
      ((unread.foldl receive r).quit = true ∨
        (left = [] ∧ reading = true) ∧ ∀ block ∈ unread, interrupt ∉ block) ∧
        ((∀ block ∈ unread, interrupt ∉ block) → reading = true) := by
  -- the first interrupt and the end of the shell are the two ways not to read all blocks
  induction unread generalizing r with
  | nil => exact ⟨[], true, h, .inr ⟨⟨rfl, rfl⟩, nofun⟩, fun _ => rfl⟩
  | cons block unread ih =>
    rw [List.foldl_cons]
    cases hquit : r.quit with
    | true =>
      have hreceive : r.receive block = r := if_pos hquit
      rw [hreceive, foldl_receive_of_quit hquit]
      exact ⟨block :: unread, true, h, .inl hquit, fun _ => rfl⟩
    | false =>
      by_cases hinterrupt : interrupt ∈ block
      · obtain ⟨hrests, hleft⟩ := h.receive_interrupt hquit hinterrupt
        rw [foldl_receive_of_quit hleft]
        refine ⟨block :: unread, false, hrests, .inl hleft, fun hcalm => ?_⟩
        exact absurd hinterrupt (hcalm block List.mem_cons_self)
      · obtain ⟨left, reading, hrests, hdone, hcalm⟩ := ih (h.receive_calm hquit hinterrupt)
        refine ⟨left, reading, hrests, hdone.imp id (And.imp_right fun hrest => ?_),
          fun hall => hcalm fun later hlater => ?_⟩
        · exact List.forall_mem_cons.2 ⟨hinterrupt, hrest⟩
        · exact hall later (List.mem_cons_of_mem _ hlater)

end Running

/-! ### The transcript -/

section Whole

variable (settings : Settings) (prompt : List Char) (size? : Option Size) (input : List UInt8)

/-- When the program is given some bytes, it quits exactly when they hold an interrupt or bring the
shell to its end. -/
theorem quit_foldl_iff :
    ((blocks input).foldl Running.receive (Running.start settings prompt size?)).quit = true ↔
      Running.interrupt ∈ input ∨ (sitting settings prompt (blocks input)).IsOver := by
  obtain ⟨unread, reading, hrests, hdone, hreading⟩ :=
    (Running.rests_start settings prompt size? (blocks input)).foldl
  obtain ⟨s, hsound⟩ := hrests.reachable.sound
  constructor
  · intro hquit
    refine or_iff_not_imp_left.2 fun hcalm => ?_
    rw [← flatten_blocks input] at hcalm
    exact hsound.over_of_left hquit (hreading (calm_of_flatten hcalm))
  · intro hends
    by_contra hquit
    obtain ⟨⟨rfl, -⟩, hcalm⟩ := hdone.resolve_left hquit
    rcases hends with hinterrupt | hover
    · rw [← flatten_blocks input] at hinterrupt
      obtain ⟨block, hblock, hin⟩ := List.mem_flatten.1 hinterrupt
      exact hcalm block hblock hin
    · exact hquit (hsound.left_of_over (hrests.done.resolve_left hquit) rfl rfl hover)

/-- **The transcript.** The program comes to its end exactly when its input ends, holds an interrupt
or brings the shell to its end. Its exit code is zero then, and it has written what the sitting has
written in which all is typed at once, and a new row. -/
theorem transcript?_eq_some_iff (ends : Bool) {outcome : CallOutcome} :
    transcript? settings prompt size? input ends = some outcome ↔
      (ends = true ∨ Running.interrupt ∈ input ∨
          (sitting settings prompt (blocks input)).IsOver) ∧
        outcome =
          { exitCode := 0
            output := (sitting settings prompt (blocks input)).output ++ newRow } := by
  obtain ⟨unread, reading, hrests, hdone, -⟩ :=
    (Running.rests_start settings prompt size? (blocks input)).foldl
  rw [← quit_foldl_iff settings prompt size? input]
  unfold transcript? Running.outcome?
  dsimp only
  cases ends with
  | true =>
    obtain ⟨reading', hrests', hquit⟩ := hrests.close (hdone.imp id And.left)
    rw [if_pos rfl, hrests'.leave?_eq_some_iff]
    exact and_congr_left' (iff_of_true hquit (.inl rfl))
  | false =>
    rw [if_neg Bool.false_ne_true, hrests.leave?_eq_some_iff, or_iff_right Bool.false_ne_true]

variable {settings prompt input} in
/-- What the program comes to, once there is a reason to quit. -/
theorem transcript?_eq_some {ends : Bool}
    (h : ends = true ∨ Running.interrupt ∈ input ∨
      (sitting settings prompt (blocks input)).IsOver) :
    transcript? settings prompt size? input ends =
      some
        { exitCode := 0
          output := (sitting settings prompt (blocks input)).output ++ newRow } :=
  (transcript?_eq_some_iff settings prompt size? input ends).2 ⟨h, rfl⟩

end Whole

/-- The program starts exactly when the system grants it what it needs: its session can always be
installed. -/
theorem Running.launch_eq_ok_iff {settings : Settings} {prompt : List Char} {host : Host}
    {r : Running} :
    launch settings prompt host = .ok r ↔ host.Grants ∧ start settings prompt host.size? = r := by
  constructor
  · obtain ⟨rawMode, reader, watcher, size?⟩ := host
    intro hlaunch
    cases rawMode with
    | error why => cases hlaunch
    | ok _ =>
      cases reader with
      | error why => cases hlaunch
      | ok _ =>
        cases watcher with
        | error why => cases hlaunch
        | ok _ => exact ⟨⟨rfl, rfl, rfl⟩, Except.ok.inj hlaunch⟩
  · rintro ⟨⟨hrawMode, hreader, hwatcher⟩, rfl⟩
    unfold launch
    rw [hrawMode, hreader, hwatcher]
    rfl

/-! ### The way to the end -/

namespace Process

variable {settings : Settings} {prompt : List Char} {size? : Option Size}
  {blocks : List (List UInt8)} {p p' : Process}

/-- A reader that has stopped has asked the program to quit. -/
def Asks (p : Process) : Prop := p.reading = false → p.left = true ∨ .quit ∈ p.queue

theorem Asks.moves (h : p.Asks) (hmoves : p.Moves p') : p'.Asks := by
  intro hstopped
  cases hmoves with
  | reads hreading hunread hcalm => exact (h hstopped).imp id (List.mem_append_left _)
  | stops hreading hstops => exact .inr List.mem_concat_self
  | resizes size => exact (h hstopped).imp id (List.mem_append_left _)
  | takes hleft hidle hqueue hmessage =>
    have hasked := (h hstopped).resolve_left (by simp [hleft])
    rw [hqueue] at hasked
    exact .inr (List.mem_of_ne_of_mem hmessage.symm hasked)
  | queues houtgoing => exact (h hstopped).imp id (List.mem_append_left _)
  | quits hleft hidle hqueue => exact .inl rfl

theorem Asks.run (h : p.Asks) (hrun : ReflTransGen Moves p p') : p'.Asks := by
  induction hrun with
  | refl => exact h
  | tail _ hmoves ih => exact ih.moves hmoves

/-- The reader can come to its end. -/
theorem reaches_stopped (p : Process) :
    ∃ p', ReflTransGen Moves p p' ∧ p'.reading = false ∧ p'.outgoing = p.outgoing ∧
      p'.left = p.left := by
  obtain ⟨state, queue, outgoing, decoder, unread, reading, left⟩ := p
  cases reading with
  | false => exact ⟨_, .refl, rfl, rfl, rfl⟩
  | true =>
    induction unread generalizing queue decoder with
    | nil => exact ⟨_, .single (.stops rfl nofun), rfl, rfl, rfl⟩
    | cons block unread ih =>
      by_cases hinterrupt : Running.interrupt ∈ block
      · refine ⟨_, .single (.stops rfl ?_), rfl, rfl, rfl⟩
        rintro _ ⟨⟩
        exact hinterrupt
      · obtain ⟨p', hrun, hends⟩ := ih (queue ++ inputs (Utf8.decode decoder block).2)
          (Utf8.decode decoder block).1
        exact ⟨p', .head (.reads rfl rfl hinterrupt) hrun, hends⟩

/-- **Whatever has happened**, the program can come to its end. -/
theorem Reachable.exists_left (h : Reachable settings prompt size? blocks p) :
    ∃ p', ReflTransGen Moves p p' ∧ p'.left = true := by
  have hasks : (start settings prompt size? blocks).Asks := nofun
  cases hleft : p.left with
  | true => exact ⟨p, .refl, hleft⟩
  | false =>
    -- all is queued, the reader stops, and all messages are dispatched
    obtain ⟨q, hstopped, hreading, hidle, hsame⟩ :=
      reaches_stopped { p with queue := p.queue ++ p.outgoing, outgoing := [] }
    have hrun := (reaches_queued p).trans hstopped
    obtain ⟨s, hsound⟩ := Reachable.sound (h.trans hrun)
    obtain ⟨hdispatch, hends⟩ :=
      hsound.reaches_dispatched hidle (hsame.trans hleft) (Nat.le_refl _)
    refine ⟨_, hrun.trans hdispatch, ?_⟩
    rcases hends with hquit | hqueue
    · exact hquit
    · have hasked := hasks.run ((h.trans hrun).trans hdispatch) hreading
      rw [hqueue] at hasked
      exact hasked.resolve_right List.not_mem_nil

end Process

end LineEditor.Application
