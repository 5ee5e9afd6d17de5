import LineEditor.Dispatch.Errand
import Mathlib.Data.List.Basic
import Mathlib.Logic.Function.Iterate
import Mathlib.Tactic.Common

/-!
# The order of the queue

A run takes the messages in front of the first request to quit, its *block*, and this request. What
the messages of the block put in the queue stands behind all that has been there, the request
included, and so it is for later runs (`run_block`). From this it follows what a number of runs
does, each of which finds one more request to quit at the end of the queue: the blocks and requests
that they take are, one after the other, what has been put in the queue, in the same order
(`in_order`).
-/

namespace LineEditor.Dispatch

variable {σ τ : Type}

/-- Whether a message is the request to quit. -/
def Message.isQuit : Message τ → Bool
  | .quit => true
  | _ => false

/-! ### Dispatching without a queue -/

namespace Receivers

variable (r : Receivers σ τ)

/-- Whether there is a receiver of a message. -/
def hears : Message τ → Bool
  | .input _ => r.onInput?.isSome
  | .resize _ => r.onResize?.isSome
  | .task _ => true
  | .quit => false

/-- Whether a message makes a difference to a run. -/
def heeds (message : Message τ) : Bool := message.isQuit || r.hears message

/-- Dispatches messages one after another. The result is the state afterwards and all that is put at
the end of the queue. -/
def dispatchAll : List (Message τ) → σ → σ × List (Message τ)
  | [], state => (state, [])
  | message :: later, state =>
    let (state, more) := r.dispatch message state
    let (state, further) := dispatchAll later state
    (state, more ++ further)

/-- Receivers that also keep a journal of what they receive. -/
def journaling : Receivers (σ × List (Message τ)) τ where
  onInput? := r.onInput?.map fun receive text (state, journal) =>
    ((receive text state).map (·, journal ++ [.input text]) id)
  onResize? := r.onResize?.map fun receive size (state, journal) =>
    ((receive size state).map (·, journal ++ [.resize size]) id)
  onTask t := fun (state, journal) => (r.onTask t state).map (·, journal ++ [.task t]) id

variable {r} {message : Message τ}

@[simp]
theorem dispatchAll_nil (state : σ) : r.dispatchAll [] state = (state, []) := rfl

theorem dispatchAll_cons (message : Message τ) (later : List (Message τ)) (state : σ) :
    r.dispatchAll (message :: later) state =
      ((r.dispatchAll later (r.dispatch message state).1).1,
        (r.dispatch message state).2 ++
          (r.dispatchAll later (r.dispatch message state).1).2) := rfl

/-- What nobody receives has no effect. -/
theorem dispatch_of_not_hears (h : r.hears message = false) (state : σ) :
    r.dispatch message state = (state, []) := by
  cases message with
  | input text | resize size =>
    rw [dispatch, Option.isNone_iff_eq_none.1 (Option.isSome_eq_false_iff.1 h), Option.elim_none]
  | task t => cases h
  | quit => rfl

/-- It can be left out. -/
theorem dispatchAll_filter_heeds (messages : List (Message τ)) (state : σ) :
    r.dispatchAll (messages.filter r.heeds) state = r.dispatchAll messages state := by
  induction messages generalizing state with
  | nil => rfl
  | cons message later ih =>
    cases h : r.heeds message with
    | true => rw [List.filter_cons_of_pos h, dispatchAll_cons, dispatchAll_cons, ih]
    | false =>
      rw [List.filter_cons_of_neg (by simp [h]), ih, dispatchAll_cons,
        dispatch_of_not_hears (Bool.or_eq_false_iff.1 h).2]
      rfl

/-- The journal gets what is received, and does not change what is done. -/
theorem dispatch_journaling (message : Message τ) (state : σ) (journal : List (Message τ)) :
    r.journaling.dispatch message (state, journal) =
      (((r.dispatch message state).1, journal ++ [message].filter r.hears),
        (r.dispatch message state).2) := by
  cases message with
  | input text => cases h : r.onInput? <;> simp [dispatch, journaling, hears, h, Prod.map]
  | resize size => cases h : r.onResize? <;> simp [dispatch, journaling, hears, h, Prod.map]
  | task t => rfl
  | quit => simp [dispatch, hears]

theorem dispatchAll_journaling (messages : List (Message τ)) (state : σ)
    (journal : List (Message τ)) :
    r.journaling.dispatchAll messages (state, journal) =
      (((r.dispatchAll messages state).1, journal ++ messages.filter r.hears),
        (r.dispatchAll messages state).2) := by
  induction messages generalizing state journal with
  | nil => simp
  | cons message later ih =>
    rw [dispatchAll_cons, dispatch_journaling, ih, dispatchAll_cons, List.append_assoc,
      ← List.filter_append, List.singleton_append]

end Receivers

/-! ### One run -/

theorem run_cons {r : Receivers σ τ} {message : Message τ} (h : message.isQuit = false)
    (fuel : Nat) (state : σ) (queue : List (Message τ)) :
    run r (fuel + 1) state (message :: queue) =
      run r fuel (r.dispatch message state).1 (queue ++ (r.dispatch message state).2) := by
  cases message with
  | quit => cases h
  | input text | resize size | task t => rfl

/-- **Step lemma.** A run dispatches the messages in front of the first request to quit and takes
this request; the others stay, and what comes of the run is behind them. -/
theorem run_block (r : Receivers σ τ) {block : List (Message τ)}
    (hblock : ∀ message ∈ block, message.isQuit = false) (later : List (Message τ)) (state : σ)
    {fuel : Nat} (hfuel : block.length < fuel) :
    run r fuel state (block ++ .quit :: later) =
      { state := (r.dispatchAll block state).1,
        queue := later ++ (r.dispatchAll block state).2,
        quit := true } := by
  induction block generalizing state later fuel with
  | nil =>
    obtain ⟨fuel, rfl⟩ := Nat.exists_eq_add_one_of_ne_zero (Nat.ne_of_gt hfuel)
    rw [Receivers.dispatchAll_nil, List.append_nil]
    rfl
  | cons message block ih =>
    obtain ⟨hmessage, hblock⟩ := List.forall_mem_cons.1 hblock
    obtain ⟨fuel, rfl⟩ := Nat.exists_eq_add_one_of_ne_zero (Nat.ne_zero_of_lt hfuel)
    -- what the message puts in the queue is behind the request to quit already
    rw [List.cons_append, run_cons hmessage, List.append_assoc, List.cons_append,
      ih hblock _ _ (Nat.lt_of_succ_lt_succ hfuel), Receivers.dispatchAll_cons, List.append_assoc]

/-! ### Runs one after another -/

/-- How things stand between two runs. -/
structure Standing (σ τ : Type) where
  /-- The state. -/
  state : σ
  /-- The messages that are queued. -/
  queue : List (Message τ)

namespace Standing

/-- What the next run finds in the queue: there is one more request to quit at the end. -/
def asked (s : Standing σ τ) : List (Message τ) := s.queue ++ [.quit]

/-- The messages in front of the first request to quit. -/
def block (s : Standing σ τ) : List (Message τ) := s.asked.takeWhile (!·.isQuit)

/-- The messages behind the first request to quit. -/
def later (s : Standing σ τ) : List (Message τ) := (s.asked.dropWhile (!·.isQuit)).tail

/-- What the messages of the block put in the queue. -/
def followUps (r : Receivers σ τ) (s : Standing σ τ) : List (Message τ) :=
  (r.dispatchAll s.block s.state).2

/-- How things stand after the next run. -/
def next (r : Receivers σ τ) (s : Standing σ τ) : Standing σ τ :=
  let ended := run r s.asked.length s.state s.asked
  { state := ended.state, queue := ended.queue }

/-- How things stand after a number of runs. -/
def after (r : Receivers σ τ) (s : Standing σ τ) (n : Nat) : Standing σ τ := (next r)^[n] s

/-- What a number of runs take out of the queue. -/
def taken (r : Receivers σ τ) (s : Standing σ τ) (n : Nat) : List (Message τ) :=
  (List.range n).flatMap fun k => (s.after r k).block ++ [.quit]

/-- What has been put in the queue up to the end of a number of runs, in this order: what it holds
at first, and for each run the request to quit and then what its messages put there. -/
def posted (r : Receivers σ τ) (s : Standing σ τ) (n : Nat) : List (Message τ) :=
  s.queue ++ (List.range n).flatMap fun k => .quit :: (s.after r k).followUps r

variable {r : Receivers σ τ} {s : Standing σ τ}

theorem after_succ (n : Nat) : s.after r (n + 1) = (s.after r n).next r :=
  Function.iterate_succ_apply' ..

theorem taken_succ (n : Nat) :
    s.taken r (n + 1) = s.taken r n ++ ((s.after r n).block ++ [.quit]) := by
  rw [taken, List.range_succ, List.flatMap_append, List.flatMap_singleton]
  rfl

theorem posted_succ (n : Nat) :
    s.posted r (n + 1) = s.posted r n ++ .quit :: (s.after r n).followUps r := by
  rw [posted, List.range_succ, List.flatMap_append, List.flatMap_singleton, ← List.append_assoc]
  rfl

/-- There is one way to cut a queue at the first request to quit. -/
theorem eq_of_asked_eq {front rest : List (Message τ)} (h : s.asked = front ++ .quit :: rest)
    (hfront : ∀ message ∈ front, message.isQuit = false) : s.block = front ∧ s.later = rest := by
  have hpass : ∀ message ∈ front, (!message.isQuit) = true := fun message hmem => by
    rw [hfront message hmem, Bool.not_false]
  rw [block, later, h, List.takeWhile_append_of_pos hpass, List.dropWhile_append_of_pos hpass]
  exact ⟨List.append_nil front, rfl⟩

/-- The next run finds a request to quit, so its block is in front of one. -/
theorem asked_eq (s : Standing σ τ) :
    s.asked = s.block ++ .quit :: s.later ∧ ∀ message ∈ s.block, message.isQuit = false := by
  obtain ⟨front, rest, h, hnot⟩ : ∃ front rest, s.asked = front ++ .quit :: rest ∧ .quit ∉ front :=
    List.eq_append_cons_of_mem (List.mem_append_right _ (List.mem_singleton_self _))
  have hfront : ∀ message ∈ front, message.isQuit = false := by
    intro message hmem
    cases message with
    | quit => exact absurd hmem hnot
    | input text | resize size | task t => rfl
  obtain ⟨rfl, rfl⟩ := eq_of_asked_eq h hfront
  exact ⟨h, hfront⟩

theorem length_block_lt (s : Standing σ τ) : s.block.length < s.asked.length := by
  rw [s.asked_eq.1, List.length_append, List.length_cons]
  omega

/-- A run in whatever state, with whatever bound that is not below the number of messages. -/
theorem run_asked (r : Receivers σ τ) (s : Standing σ τ) (state : σ) {fuel : Nat}
    (hfuel : s.asked.length ≤ fuel) :
    run r fuel state s.asked =
      { state := (r.dispatchAll s.block state).1,
        queue := s.later ++ (r.dispatchAll s.block state).2,
        quit := true } := by
  have hblock : s.block.length < fuel := Nat.lt_of_lt_of_le s.length_block_lt hfuel
  rw [s.asked_eq.1, run_block r s.asked_eq.2 _ _ hblock]

theorem next_eq (s : Standing σ τ) :
    s.next r =
      { state := (r.dispatchAll s.block s.state).1, queue := s.later ++ s.followUps r } := by
  rw [next, run_asked r s _ (Nat.le_refl _), followUps]

/-- A run takes its block and the request from the front of the queue, and puts what comes of the
block at the end. -/
theorem asked_append_followUps (s : Standing σ τ) :
    s.asked ++ s.followUps r = s.block ++ [.quit] ++ (s.next r).queue := by
  rw [s.asked_eq.1, next_eq, List.append_assoc, List.append_assoc, List.cons_append,
    List.singleton_append]

/-- **Run lemma.** What has been put in the queue is what has been taken out and what is left. -/
theorem posted_eq (n : Nat) : s.posted r n = s.taken r n ++ (s.after r n).queue := by
  induction n with
  | zero => exact List.append_nil _
  | succ n ih =>
    have hrun := (s.after r n).asked_append_followUps (r := r)
    rw [asked, List.append_assoc, List.singleton_append] at hrun
    rw [posted_succ, ih, List.append_assoc, hrun, taken_succ, after_succ,
      ← List.append_assoc (s.taken r n)]

end Standing

/-! ### The single order -/

/-- The first messages in the order of the queue: what a message puts there stands behind everything
that is queued when it is dispatched. Behind a request to quit that is taken there is another one
put, for the next run. -/
def lineup (r : Receivers σ τ) : Nat → σ → List (Message τ) → List (Message τ)
  | 0, _, _ => []
  | _ + 1, _, [] => []
  | count + 1, state, message :: queue =>
    let (state, more) := r.dispatch message state
    message :: lineup r count state (queue ++ more ++ if message.isQuit then [.quit] else [])

namespace Standing

variable {r : Receivers σ τ} {s : Standing σ τ}

/-- The order begins with the messages in front of a request to quit, and this request. -/
theorem lineup_block {front : List (Message τ)}
    (hfront : ∀ message ∈ front, message.isQuit = false) (rest : List (Message τ)) (state : σ)
    (count : Nat) :
    lineup r (front.length + 1 + count) state (front ++ .quit :: rest) =
      front ++ .quit :: lineup r count (r.dispatchAll front state).1
        (rest ++ (r.dispatchAll front state).2 ++ [.quit]) := by
  induction front generalizing state rest with
  | nil =>
    rw [List.length_nil, Nat.zero_add, Nat.add_comm]
    rfl
  | cons message front ih =>
    obtain ⟨hmessage, hfront⟩ := List.forall_mem_cons.1 hfront
    have hcount : (message :: front).length + 1 + count = (front.length + 1 + count) + 1 := by
      rw [List.length_cons]
      omega
    rw [hcount, List.cons_append, lineup, hmessage]
    simp only [Bool.false_eq_true, if_false, List.append_nil, List.append_assoc, List.cons_append,
      ih hfront, Receivers.dispatchAll_cons]

/-- **Run lemma.** The order begins with what any number of runs takes, and goes on as it does for
the queue that they leave. -/
theorem lineup_taken (n count : Nat) :
    lineup r ((s.taken r n).length + count) s.state s.asked =
      s.taken r n ++ lineup r count (s.after r n).state (s.after r n).asked := by
  induction n generalizing count with
  | zero => exact congrArg (lineup r · s.state s.asked) (Nat.zero_add count)
  | succ n ih =>
    obtain ⟨hasked, hblock⟩ := (s.after r n).asked_eq
    rw [taken_succ, List.length_append, List.length_append, List.length_singleton, Nat.add_assoc,
      ih, hasked, lineup_block hblock, after_succ, next_eq, asked,
      List.append_assoc _ _ (lineup ..), List.append_assoc _ [_]]
    rfl

/-! ### Messages that nobody receives -/

/-- How things stand without the messages that nobody receives. -/
def heeded (r : Receivers σ τ) (s : Standing σ τ) : Standing σ τ :=
  { s with queue := s.queue.filter r.heeds }

theorem cut_heeded (s : Standing σ τ) :
    (s.heeded r).block = s.block.filter r.heeds ∧ (s.heeded r).later = s.later.filter r.heeds := by
  obtain ⟨hasked, hblock⟩ := s.asked_eq
  refine eq_of_asked_eq ?_ fun message hmem => hblock message (List.mem_of_mem_filter hmem)
  have hfilter : (s.heeded r).asked = s.asked.filter r.heeds := by
    rw [asked, asked, List.filter_append]
    rfl
  rw [hfilter, hasked, List.filter_append]
  rfl

/-- Without them, the next run does the same. -/
theorem heeded_next (s : Standing σ τ) : ((s.heeded r).next r).heeded r = (s.next r).heeded r := by
  obtain ⟨hblock, hlater⟩ := s.cut_heeded (r := r)
  have hdispatch : r.dispatchAll (s.heeded r).block (s.heeded r).state =
      r.dispatchAll s.block s.state := by
    rw [hblock, Receivers.dispatchAll_filter_heeds]
    rfl
  rw [next_eq, next_eq, followUps, followUps, hdispatch, hlater, heeded, heeded, List.filter_append,
    List.filter_append, List.filter_filter]
  simp only [Bool.and_self]

theorem heeded_after (s : Standing σ τ) (n : Nat) :
    ((s.heeded r).after r n).heeded r = (s.after r n).heeded r := by
  induction n with
  | zero =>
    simp only [after, heeded, Function.iterate_zero_apply, List.filter_filter, Bool.and_self]
  | succ n ih => rw [after_succ, after_succ, ← heeded_next, ih, heeded_next]

/-! ### The journal of what is received -/

theorem next_journaling (s : Standing σ τ) (journal : List (Message τ)) :
    next r.journaling { state := (s.state, journal), queue := s.queue } =
      { state := ((s.next r).state, journal ++ s.block.filter r.hears),
        queue := (s.next r).queue } := by
  have hblock : block { state := (s.state, journal), queue := s.queue } = s.block := rfl
  rw [next_eq, next_eq, followUps, hblock, Receivers.dispatchAll_journaling]
  rfl

/-- With a journal, runs do the same, and it gets of all that they take what has a receiver. -/
theorem after_journaling (s : Standing σ τ) (n : Nat) :
    after r.journaling { state := (s.state, []), queue := s.queue } n =
      { state := ((s.after r n).state, (s.taken r n).filter r.hears),
        queue := (s.after r n).queue } := by
  induction n with
  | zero => rfl
  | succ n ih =>
    have hjournal : ((s.after r n).block ++ [Message.quit]).filter r.hears =
        (s.after r n).block.filter r.hears := by
      rw [List.filter_append]
      exact List.append_nil _
    rw [after_succ, ih, next_journaling, after_succ, taken_succ, List.filter_append, hjournal]

end Standing

/-- What runs do to a queue, when each of them finds one more request to quit at its end. -/
structure InOrder (r : Receivers σ τ) (s : Standing σ τ) : Prop where
  /-- Every run ends at a request to quit, with whatever bound that is not below the number of
  messages it finds, -/
  ends : ∀ n fuel, (s.after r n).asked.length ≤ fuel →
    run r fuel (s.after r n).state (s.after r n).asked =
      { state := (s.after r (n + 1)).state, queue := (s.after r (n + 1)).queue, quit := true }
  /-- namely at the first that it meets. It has dispatched the messages in front of it once each and
  in this order, and leaves those behind it, and behind them what has come of its own. -/
  cuts : ∀ n, ∃ block later,
    (s.after r n).asked = block ++ .quit :: later ∧
      (∀ message ∈ block, message.isQuit = false) ∧
      s.taken r (n + 1) = s.taken r n ++ block ++ [.quit] ∧
      s.after r (n + 1) =
        { state := (r.dispatchAll block (s.after r n).state).1,
          queue := later ++ (r.dispatchAll block (s.after r n).state).2 }
  /-- What is taken in all the runs is the beginning of one order, in which what a message puts in
  the queue stands behind everything that is queued when it is dispatched. -/
  order : ∀ n count, (s.taken r n).length ≤ count →
    s.taken r n <+: lineup r count s.state s.asked
  /-- Nothing is lost and nothing is taken twice: what has been put in the queue, in order, is what
  has been taken, in order, and what is still there. -/
  once : ∀ n, s.posted r n = s.taken r n ++ (s.after r n).queue
  /-- The receivers are called for exactly those messages that are taken and have a receiver, once
  for each of them and in the same order. -/
  received : ∀ n, Standing.after r.journaling { state := (s.state, []), queue := s.queue } n =
    { state := ((s.after r n).state, (s.taken r n).filter r.hears),
      queue := (s.after r n).queue }
  /-- Messages without a receiver make no difference, wherever they stand in the queue: when queues
  differ by such messages, the runs have the same effects, and leave queues that differ by such
  messages. -/
  undisturbed : ∀ queue, queue.filter r.heeds = s.queue.filter r.heeds →
    ∀ n, (Standing.after r { s with queue } n).state = (s.after r n).state ∧
      (Standing.after r { s with queue } n).queue.filter r.heeds =
        (s.after r n).queue.filter r.heeds

/-- **Dispatch is in order, and once for each message**, for all receivers that there may be or not,
whatever tasks do and put in the queue, and over any number of runs. -/
theorem in_order (r : Receivers σ τ) (s : Standing σ τ) : InOrder r s where
  ends n fuel hfuel := by
    rw [Standing.run_asked r _ _ hfuel, Standing.after_succ, Standing.next_eq, Standing.followUps]
  cuts n := by
    obtain ⟨hasked, hblock⟩ := (s.after r n).asked_eq
    refine ⟨_, _, hasked, hblock, ?_, ?_⟩
    · rw [Standing.taken_succ, List.append_assoc]
    · rw [Standing.after_succ, Standing.next_eq, Standing.followUps]
  order n count hcount := by
    obtain ⟨more, rfl⟩ := Nat.exists_eq_add_of_le hcount
    rw [Standing.lineup_taken]
    exact List.prefix_append _ _
  once := Standing.posted_eq
  received := s.after_journaling
  undisturbed queue hqueue n := by
    have hheeded : Standing.heeded r { s with queue } = s.heeded r := by
      rw [Standing.heeded, Standing.heeded, hqueue]
    have hafter : (Standing.after r { s with queue } n).heeded r = (s.after r n).heeded r := by
      rw [← Standing.heeded_after, hheeded, Standing.heeded_after]
    exact Standing.mk.inj hafter

/-! ### Errands -/

section Errands

/-- What is recorded when a message is dispatched. -/
def recordOf (input resize : Bool) (message : Message Errand) : List Dispatched :=
  ((recorders input resize).dispatch message []).1

variable {input resize : Bool}

/-- A message adds to the record, and puts the same in the queue whatever is on record. -/
theorem dispatch_recorders (message : Message Errand) (record : List Dispatched) :
    (recorders input resize).dispatch message record =
      (record ++ recordOf input resize message,
        ((recorders input resize).dispatch message []).2) := by
  cases message with
  | input text => cases input <;> simp [recordOf, recorders, Receivers.dispatch]
  | resize size => cases resize <;> simp [recordOf, recorders, Receivers.dispatch]
  | task errand =>
    cases errand with
    | nil => exact Prod.ext (List.append_nil _).symm rfl
    | cons label rest => cases rest <;> rfl
  | quit => exact Prod.ext (List.append_nil _).symm rfl

theorem dispatchAll_recorders (messages : List (Message Errand)) (record : List Dispatched) :
    (recorders input resize).dispatchAll messages record =
      (record ++ messages.flatMap (recordOf input resize),
        ((recorders input resize).dispatchAll messages []).2) := by
  induction messages generalizing record with
  | nil => exact Prod.ext (List.append_nil _).symm rfl
  | cons message later ih =>
    rw [Receivers.dispatchAll_cons, Receivers.dispatchAll_cons, dispatch_recorders message record,
      ih, ih ((recorders input resize).dispatch message []).1, List.flatMap_cons, List.append_assoc]

theorem length_le_totalWeight (queue : List (Message Errand)) :
    queue.length ≤ totalWeight queue := by
  induction queue with
  | nil => exact Nat.le_refl _
  | cons message queue ih =>
    have hweight : 1 ≤ weight message := by
      cases message with
      | task errand => exact Nat.le_add_left ..
      | input text | resize size | quit => exact Nat.le_refl _
    rw [List.length_cons, totalWeight]
    omega

/-- What `rounds` tells of each run is what the messages of its block record. -/
theorem rounds_eq (s : Standing (List Dispatched) Errand) (n : Nat) :
    rounds (recorders input resize) n s.queue =
      (List.range n).map fun k =>
        (s.after (recorders input resize) k).block.flatMap (recordOf input resize) := by
  induction n generalizing s with
  | zero => rfl
  | succ n ih =>
    -- the record is empty at first in every run, which makes no difference to the queue
    have hrun : run (recorders input resize) (totalWeight s.asked) [] s.asked =
        { state := s.block.flatMap (recordOf input resize),
          queue := (s.next (recorders input resize)).queue,
          quit := true } := by
      rw [Standing.run_asked _ _ _ (length_le_totalWeight _), Standing.next_eq, Standing.followUps,
        dispatchAll_recorders _ s.state, dispatchAll_recorders _ [], List.nil_append]
    rw [rounds, ← Standing.asked, hrun, ih (s.next _), List.range_succ_eq_map, List.map_cons,
      List.map_map]
    rfl

/-- What an errand queues is behind the request to quit of the same run. -/
example :
    rounds (recorders true false) 3 [.task [['a'], ['b']], .quit, .resize ⟨1, 1⟩, .input ['c']] =
      [[.errand ['a']], [.input ['c']], [.errand ['b']]] := by
  decide

end Errands

end LineEditor.Dispatch
