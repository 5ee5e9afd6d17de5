import LineEditor.Proofs.Application.Messages
import Mathlib.Logic.Relation

/-!
# The program and its reader

Blocks are read and queued on a thread of their own, the terminal may change its size at any time,
and what a message queues in turn is put at the end of the queue while all this goes on. A `Process`
is the program with its reader, and `Process.Moves` allows every order of these events.

What the program writes does not depend on the order, nor on how the bytes come in blocks: when it
has quit, it has written what a sitting writes in which all that was typed before the first block
with an interrupt is typed at once (`Process.Reachable.leave?_of_left`). The invariant is that what
is queued and what is still to be read, typed in the sitting so far, come to that sitting, and that
nothing of it is lost behind a request to quit (`Process.Sound`).
-/

namespace LineEditor.Application

open Relation

/-! ### What is typed -/

/-- The bytes of the blocks before the first one with an interrupt. -/
def heard (blocks : List (List UInt8)) : List UInt8 :=
  (blocks.takeWhile (!·.contains Running.interrupt)).flatten

/-- What is typed by blocks of input. -/
def typed (blocks : List (List UInt8)) : List Char := (Utf8.decode none (heard blocks)).2

/-- The sitting in which all that the blocks type has been dealt with. -/
def sitting (settings : Settings) (prompt : List Char) (blocks : List (List UInt8)) : Sitting :=
  (Desk.of settings prompt).type (Desk.opening settings prompt) (typed blocks)

section Heard

variable {block : List UInt8} {rest : List (List UInt8)}

theorem heard_of_stops (h : ∀ block ∈ rest.head?, Running.interrupt ∈ block) : heard rest = [] := by
  cases rest with
  | nil => rfl
  | cons block rest =>
    have hinterrupt : Running.interrupt ∈ block := h block rfl
    simp [heard, hinterrupt]

theorem heard_cons (h : Running.interrupt ∉ block) :
    heard (block :: rest) = block ++ heard rest := by
  simp [heard, h]

/-- Bytes without an interrupt come in blocks without one. -/
theorem calm_of_flatten (h : Running.interrupt ∉ rest.flatten) :
    ∀ block ∈ rest, Running.interrupt ∉ block :=
  fun _ hblock hinterrupt => h (List.mem_flatten_of_mem hblock hinterrupt)

/-- Without an interrupt all bytes are heard. -/
theorem heard_of_calm (h : Running.interrupt ∉ rest.flatten) : heard rest = rest.flatten := by
  induction rest with
  | nil => rfl
  | cons block rest ih =>
    rw [List.flatten_cons, List.mem_append, not_or] at h
    rw [heard_cons h.1, ih h.2, List.flatten_cons]

end Heard

/-- The message that types a text, unless the text is empty. -/
def inputs (text : List Char) : List Message := if text.isEmpty then [] else [.input text]

theorem text_inputs (text : List Char) : (inputs text).flatMap Dispatch.Message.text = text := by
  cases text with
  | nil => rfl
  | cons c text => exact List.append_nil _

/-! ### Processes -/

/-- The program with its reader. -/
structure Process where
  /-- What the messages act on. -/
  state : State
  /-- The messages that wait. -/
  queue : List Message := []
  /-- What the message that was taken last is still to queue. -/
  outgoing : List Message := []
  /-- The decoder of the input. -/
  decoder : Utf8.Decoder := none
  /-- The blocks that are to be read. -/
  unread : List (List UInt8)
  /-- Whether the reader still reads. -/
  reading : Bool := true
  /-- Whether the program has quit. -/
  left : Bool := false

namespace Process

/-- The program without its reader. -/
def running (p : Process) : Running where
  state := p.state
  queue := p.queue
  decoder := p.decoder
  quit := p.left

/-- The program as it starts, with the size of the terminal if that is known, and input in
blocks. -/
def start (settings : Settings) (prompt : List Char) (size? : Option Size)
    (blocks : List (List UInt8)) : Process :=
  let asked := (Running.fresh settings).state.run 0 (ask prompt)
  { state := asked.1, queue := size?.toList.map .resize, outgoing := asked.2, unread := blocks }

/-- One move of the reader, of the terminal or of the program. -/
inductive Moves (p : Process) : Process → Prop where
  /-- A block is read, decoded and queued. -/
  | reads {block : List UInt8} {unread : List (List UInt8)} (hreading : p.reading = true)
      (hunread : p.unread = block :: unread) (hcalm : Running.interrupt ∉ block) :
      Moves p
        { p with
          queue := p.queue ++ inputs (Utf8.decode p.decoder block).2
          decoder := (Utf8.decode p.decoder block).1
          unread }
  /-- At the end of the input, or at a block with an interrupt, the reader asks to quit. -/
  | stops (hreading : p.reading = true)
      (hstops : ∀ block ∈ p.unread.head?, Running.interrupt ∈ block) :
      Moves p { p with queue := p.queue ++ [.quit], reading := false }
  /-- The terminal changes its size. -/
  | resizes (size : Size) : Moves p { p with queue := p.queue ++ [.resize size] }
  /-- The program takes a message. -/
  | takes {message : Message} {queue : List Message} (hleft : p.left = false)
      (hidle : p.outgoing = []) (hqueue : p.queue = message :: queue) (hmessage : message ≠ .quit) :
      Moves p
        { p with
          state := (receivers.dispatch message p.state).1
          queue
          outgoing := (receivers.dispatch message p.state).2 }
  /-- The program queues a message. -/
  | queues {message : Message} {outgoing : List Message}
      (houtgoing : p.outgoing = message :: outgoing) :
      Moves p { p with queue := p.queue ++ [message], outgoing }
  /-- The program takes the request to quit. -/
  | quits {queue : List Message} (hleft : p.left = false) (hidle : p.outgoing = [])
      (hqueue : p.queue = .quit :: queue) : Moves p { p with queue, left := true }

/-- The process comes from the start of the program. -/
def Reachable (settings : Settings) (prompt : List Char) (size? : Option Size)
    (blocks : List (List UInt8)) (p : Process) : Prop :=
  ReflTransGen Moves (start settings prompt size? blocks) p

/-- What is going to be typed. -/
def toCome (p : Process) : List Char :=
  p.queue.flatMap Dispatch.Message.text ++
    if p.reading then (Utf8.decode p.decoder (heard p.unread)).2 else []

/-- Nothing is typed behind a request to quit. -/
structure Orderly (p : Process) : Prop where
  /-- Only the reader has asked to quit. -/
  asked : .quit ∈ p.queue → p.reading = false
  /-- What is queued behind the request to quit types nothing. -/
  behind : p.queue.Pairwise fun message later => message = .quit → later.text = []
  /-- The program does not ask to quit. -/
  outgoing : .quit ∉ p.outgoing
  /-- What is queued when the program has quit types nothing. -/
  left : p.left = true → p.reading = false ∧ ∀ message ∈ p.queue, message.text = []

/-- The sitting `s` of the process and what is to come make up the sitting `total`. -/
structure Sound (desk : Desk) (total s : Sitting) (p : Process) : Prop where
  /-- The state is that of a sitting. -/
  presents : p.state.Presents desk s
  /-- What is to come brings it to the total. -/
  completes : desk.type s p.toCome = total
  /-- All tasks in the queue are the session's. -/
  queued : ∀ message ∈ p.queue, IsOwn message
  /-- The program queues tasks of the session, and does not type. -/
  outgoing : ∀ message ∈ p.outgoing, IsOwn message ∧ message.text = []
  /-- Nothing is lost behind a request to quit, but when the shell has come to its end. -/
  orderly : s.IsOver ∨ p.Orderly
  /-- When the shell has come to its end, the request to quit is under way. -/
  ending : s.IsOver → p.left = true ∨ .quit ∈ p.queue ++ p.outgoing

variable {desk : Desk} {total s : Sitting} {p p' : Process}

/-! ### Order in the queue -/

namespace Orderly

variable {message : Message} {outgoing : List Message}

/-- Until the reader has asked to quit, nobody has, and the program goes on. -/
theorem of_reading (h : p.Orderly) (hreading : p.reading = true) :
    .quit ∉ p.queue ∧ p.left = false := by
  have hasked : .quit ∉ p.queue := by
    intro hquit
    rw [h.asked hquit] at hreading
    cases hreading
  refine ⟨hasked, Bool.eq_false_iff.2 fun hleft => ?_⟩
  rw [(h.left hleft).1] at hreading
  cases hreading

/-- While the reader reads, anything may be queued. -/
theorem append (h : p.Orderly) (hreading : p.reading = true) {more : List Message}
    (hmore : .quit ∉ more) (decoder : Utf8.Decoder) (unread : List (List UInt8)) :
    Orderly { p with queue := p.queue ++ more, decoder, unread } := by
  obtain ⟨hasked, hleft⟩ := h.of_reading hreading
  -- nobody has asked to quit, so that no message stands behind such a request
  have hnone : .quit ∉ p.queue ++ more := by
    rw [List.mem_append]
    exact not_or.2 ⟨hasked, hmore⟩
  refine ⟨fun hquit => absurd hquit hnone, ?_, h.outgoing, fun hlate => ?_⟩
  · refine List.pairwise_of_forall_mem_list fun message hmessage _ _ hquit => ?_
    exact absurd (hquit ▸ hmessage) hnone
  · have hleft' : p.left = true := hlate
    rw [hleft] at hleft'
    cases hleft'

/-- What types nothing may be queued at any time. -/
theorem push (h : p.Orderly) (hmessage : message ≠ .quit) (htext : message.text = [])
    (houtgoing : .quit ∉ outgoing) :
    Orderly { p with queue := p.queue ++ [message], outgoing } := by
  refine ⟨fun hquit => ?_, ?_, houtgoing, fun hleft => ⟨(h.left hleft).1, ?_⟩⟩
  · rcases List.mem_append.1 hquit with hqueued | hnew
    · exact h.asked hqueued
    · exact absurd (List.mem_singleton.1 hnew).symm hmessage
  · refine List.pairwise_append.2 ⟨h.behind, List.pairwise_singleton .., ?_⟩
    rintro _ - _ hnew -
    rw [List.mem_singleton.1 hnew, htext]
  · intro later hlater
    rcases List.mem_append.1 hlater with hqueued | hnew
    · exact (h.left hleft).2 later hqueued
    · rw [List.mem_singleton.1 hnew, htext]

/-- The reader may ask to quit. -/
theorem stop (h : p.Orderly) (hreading : p.reading = true) :
    Orderly { p with queue := p.queue ++ [.quit], reading := false } := by
  obtain ⟨hasked, hleft⟩ := h.of_reading hreading
  refine ⟨fun _ => rfl, ?_, h.outgoing, fun hlate => ?_⟩
  · refine List.pairwise_append.2 ⟨h.behind, List.pairwise_singleton .., ?_⟩
    rintro _ hqueued _ - rfl
    exact absurd hqueued hasked
  · have hleft' : p.left = true := hlate
    rw [hleft] at hleft'
    cases hleft'

/-- The first message may be taken, unless it is the request to quit. -/
theorem take (h : p.Orderly) (hleft : p.left = false) {queue : List Message}
    (hqueue : p.queue = message :: queue) (state : State) (houtgoing : .quit ∉ outgoing) :
    Orderly { p with state, queue, outgoing } := by
  have hbehind := h.behind
  rw [hqueue] at hbehind
  refine ⟨fun hquit => h.asked ?_, hbehind.of_cons, houtgoing, fun hlate => ?_⟩
  · rw [hqueue]
    exact List.mem_cons_of_mem _ hquit
  · have hleft' : p.left = true := hlate
    rw [hleft] at hleft'
    cases hleft'

/-- The request to quit may be taken. -/
theorem quit (h : p.Orderly) {queue : List Message} (hqueue : p.queue = .quit :: queue) :
    Orderly { p with queue, left := true } := by
  have hbehind := h.behind
  rw [hqueue] at hbehind
  have hasked : p.reading = false := by
    apply h.asked
    rw [hqueue]
    exact List.mem_cons_self
  refine ⟨fun _ => hasked, hbehind.of_cons, h.outgoing, fun _ => ⟨hasked, ?_⟩⟩
  intro later hlater
  exact List.rel_of_pairwise_cons hbehind hlater rfl

end Orderly

/-! ### One move -/

/-- What waits still waits when more is queued. -/
theorem mem_append_of_mem {message : Message} {queue outgoing : List Message} (more : List Message)
    (h : message ∈ queue ++ outgoing) : message ∈ (queue ++ more) ++ outgoing := by
  rcases List.mem_append.1 h with hqueued | hoffered
  · exact List.mem_append_left _ (List.mem_append_left _ hqueued)
  · exact List.mem_append_right _ hoffered

namespace Sound

theorem reads (h : p.Sound desk total s) {block : List UInt8} {unread : List (List UInt8)}
    (hreading : p.reading = true) (hunread : p.unread = block :: unread)
    (hcalm : Running.interrupt ∉ block) :
    Sound desk total s
      { p with
        queue := p.queue ++ inputs (Utf8.decode p.decoder block).2
        decoder := (Utf8.decode p.decoder block).1
        unread } := by
  have hcome : Process.toCome
      { p with
        queue := p.queue ++ inputs (Utf8.decode p.decoder block).2
        decoder := (Utf8.decode p.decoder block).1
        unread } = p.toCome := by
    unfold Process.toCome
    rw [if_pos hreading, if_pos hreading, hunread, heard_cons hcalm, Utf8.decode_append,
      List.flatMap_append, text_inputs, List.append_assoc]
  have hinputs : ∀ message ∈ inputs (Utf8.decode p.decoder block).2,
      ∃ text, message = .input text := by
    intro message hmessage
    unfold inputs at hmessage
    split at hmessage
    · cases hmessage
    · exact ⟨_, List.mem_singleton.1 hmessage⟩
  refine ⟨h.presents, hcome ▸ h.completes, ?_, h.outgoing, ?_, fun hover => ?_⟩
  · intro message hmessage
    rcases List.mem_append.1 hmessage with hqueued | hnew
    · exact h.queued message hqueued
    · obtain ⟨text, rfl⟩ := hinputs message hnew
      exact nofun
  · refine h.orderly.imp id fun horderly => horderly.append hreading ?_ _ _
    intro hquit
    obtain ⟨text, htext⟩ := hinputs _ hquit
    cases htext
  · exact (h.ending hover).imp id (mem_append_of_mem _)

theorem stops (h : p.Sound desk total s) (hreading : p.reading = true)
    (hstops : ∀ block ∈ p.unread.head?, Running.interrupt ∈ block) :
    Sound desk total s { p with queue := p.queue ++ [.quit], reading := false } := by
  have hcome : Process.toCome { p with queue := p.queue ++ [.quit], reading := false } =
      p.toCome := by
    unfold Process.toCome
    rw [if_pos hreading, heard_of_stops hstops, List.flatMap_append]
    exact List.append_assoc ..
  refine ⟨h.presents, hcome ▸ h.completes, ?_, h.outgoing, ?_, fun hover => ?_⟩
  · intro message hmessage
    rcases List.mem_append.1 hmessage with hqueued | hnew
    · exact h.queued message hqueued
    · rw [List.mem_singleton.1 hnew]
      exact nofun
  · exact h.orderly.imp id fun horderly => horderly.stop hreading
  · exact (h.ending hover).imp id (mem_append_of_mem _)

/-- What types nothing may be queued at any time, be it new or offered by the program. -/
theorem push (h : p.Sound desk total s) {message : Message} {outgoing : List Message}
    (hown : IsOwn message) (htext : message.text = []) (hquit : message = .quit → s.IsOver)
    (houtgoing : p.outgoing = outgoing ∨ p.outgoing = message :: outgoing) :
    Sound desk total s { p with queue := p.queue ++ [message], outgoing } := by
  have hcome : Process.toCome { p with queue := p.queue ++ [message], outgoing } = p.toCome := by
    unfold Process.toCome
    rw [List.flatMap_append, List.flatMap_singleton, htext, List.append_nil]
  have hsubset : ∀ later ∈ outgoing, later ∈ p.outgoing := by
    intro later hlater
    rcases houtgoing with hsame | hfirst
    · exact hsame ▸ hlater
    · exact hfirst ▸ List.mem_cons_of_mem _ hlater
  refine ⟨h.presents, hcome ▸ h.completes, ?_, fun later hlater => ?_, ?_, fun hover => ?_⟩
  · intro later hlater
    rcases List.mem_append.1 hlater with hqueued | hnew
    · exact h.queued later hqueued
    · rw [List.mem_singleton.1 hnew]
      exact hown
  · exact h.outgoing later (hsubset later hlater)
  · by_cases hmessage : message = .quit
    · exact .inl (hquit hmessage)
    · refine h.orderly.imp id fun horderly => horderly.push hmessage htext fun hout => ?_
      exact horderly.outgoing (hsubset _ hout)
  · refine (h.ending hover).imp id fun hunder => ?_
    rcases houtgoing with hsame | hfirst
    · rw [hsame] at hunder
      exact mem_append_of_mem _ hunder
    · rwa [hfirst, List.append_cons] at hunder

theorem takes (h : p.Sound desk total s) {message : Message} {queue : List Message}
    (hleft : p.left = false) (hidle : p.outgoing = []) (hqueue : p.queue = message :: queue)
    (hmessage : message ≠ .quit) :
    Sound desk total (desk.type s message.text)
      { p with
        state := (receivers.dispatch message p.state).1
        queue
        outgoing := (receivers.dispatch message p.state).2 } := by
  have hqueued := h.queued
  rw [hqueue] at hqueued
  obtain ⟨count, hpresents, hmessages, -⟩ :=
    h.presents.dispatch (hqueued message List.mem_cons_self)
  have hcome : p.toCome = message.text ++ Process.toCome { p with queue } := by
    unfold Process.toCome
    rw [hqueue, List.flatMap_cons, List.append_assoc]
  refine ⟨hpresents, ?_, fun later hlater => hqueued later (List.mem_cons_of_mem _ hlater), ?_, ?_,
    fun hover => .inr ?_⟩
  · rw [← h.completes, hcome, ← Desk.type_type]
    rfl
  · intro later hlater
    have hbetween : later ∈ between s (desk.type s message.text) count := hmessages ▸ hlater
    exact ⟨isOwn_between hbetween, text_between hbetween⟩
  · -- unless this is the end of the shell, the program does not ask to quit
    by_cases hover : (desk.type s message.text).IsOver
    · exact .inl hover
    · have hlive : ¬ s.IsOver := by
        intro hnone
        rw [Desk.type_of_over hnone] at hover
        exact hover hnone
      have horderly : p.Orderly := h.orderly.resolve_left hlive
      refine .inr (horderly.take hleft hqueue _ ?_)
      rw [hmessages]
      intro hquit
      rcases mem_between hquit with heq | ⟨-, hnone⟩
      · cases heq
      · exact hover hnone
  · -- the request to quit waited before, or it is queued for this message
    by_cases hbefore : s.IsOver
    · have hunder := (h.ending hbefore).resolve_left (by simp [hleft])
      rw [hidle, List.append_nil, hqueue] at hunder
      exact List.mem_append_left _ (List.mem_of_ne_of_mem hmessage.symm hunder)
    · rw [hmessages]
      exact List.mem_append_right _ (quit_mem_between hbefore hover)

theorem queues (h : p.Sound desk total s) {message : Message} {outgoing : List Message}
    (houtgoing : p.outgoing = message :: outgoing) :
    Sound desk total s { p with queue := p.queue ++ [message], outgoing } := by
  have hmember : message ∈ p.outgoing := by
    rw [houtgoing]
    exact List.mem_cons_self
  obtain ⟨hown, htext⟩ := h.outgoing message hmember
  refine h.push hown htext ?_ (.inr houtgoing)
  rintro rfl
  exact h.orderly.resolve_right fun horderly => horderly.outgoing hmember

theorem quits (h : p.Sound desk total s) {queue : List Message}
    (hqueue : p.queue = .quit :: queue) :
    Sound desk total s { p with queue, left := true } := by
  have hcome : Process.toCome { p with queue, left := true } = p.toCome := by
    unfold Process.toCome
    rw [hqueue]
    rfl
  have hqueued := h.queued
  rw [hqueue] at hqueued
  refine ⟨h.presents, hcome ▸ h.completes, fun message hmessage => ?_, h.outgoing, ?_,
    fun _ => .inl rfl⟩
  · exact hqueued message (List.mem_cons_of_mem _ hmessage)
  · exact h.orderly.imp id fun horderly => horderly.quit hqueue

/-- **Step lemma.** Every move leads to a process whose sitting and whose future make up the same
sitting. -/
theorem moves (h : p.Sound desk total s) (hmoves : p.Moves p') :
    ∃ s', p'.Sound desk total s' := by
  cases hmoves with
  | reads hreading hunread hcalm => exact ⟨s, h.reads hreading hunread hcalm⟩
  | stops hreading hstops => exact ⟨s, h.stops hreading hstops⟩
  | resizes size =>
    have hown : IsOwn (.resize size) := nofun
    exact ⟨s, h.push hown (Dispatch.Message.text_resize size) nofun (.inl rfl)⟩
  | takes hleft hidle hqueue hmessage => exact ⟨_, h.takes hleft hidle hqueue hmessage⟩
  | queues houtgoing => exact ⟨s, h.queues houtgoing⟩
  | quits hleft hidle hqueue => exact ⟨s, h.quits hqueue⟩

/-- When the program has quit, what is still to come is not shown. -/
theorem output_of_left (h : p.Sound desk total s) (hleft : p.left = true) :
    total.output = s.output := by
  rw [← h.completes]
  rcases h.orderly with hover | horderly
  · exact Desk.output_type_of_over hover p.toCome
  · obtain ⟨hreading, hsilent⟩ := horderly.left hleft
    have hcome : p.toCome = [] := by
      unfold Process.toCome
      rw [hreading, List.flatMap_eq_nil_iff.2 hsilent]
      rfl
    rw [hcome, h.presents.type_nil]

/-- When all has been read and no message waits, nothing is still to come. -/
theorem eq_of_rests (h : p.Sound desk total s) (hqueue : p.queue = []) (hunread : p.unread = []) :
    total = s := by
  have hcome : p.toCome = [] := by
    unfold Process.toCome
    rw [hqueue, hunread]
    exact ite_self []
  rw [← h.completes, hcome, h.presents.type_nil]

/-- While the reader reads, the program quits at the end of the shell only. -/
theorem over_of_left (h : p.Sound desk total s) (hleft : p.left = true)
    (hreading : p.reading = true) : total.IsOver := by
  have hover : s.IsOver := by
    refine h.orderly.resolve_right fun horderly => ?_
    rw [(horderly.of_reading hreading).2] at hleft
    cases hleft
  rw [← h.completes, Desk.type_of_over hover]
  exact hover

/-- When nothing is left to do, the end of the shell has made the program quit. -/
theorem left_of_over (h : p.Sound desk total s) (hqueue : p.queue = []) (hidle : p.outgoing = [])
    (hunread : p.unread = []) (hover : total.IsOver) : p.left = true := by
  rw [h.eq_of_rests hqueue hunread] at hover
  refine (h.ending hover).resolve_right ?_
  rw [hqueue, hidle]
  exact List.not_mem_nil

end Sound

/-! ### Whole runs -/

variable {settings : Settings} {prompt : List Char} {size? : Option Size}
  {blocks : List (List UInt8)}

theorem sound_start (settings : Settings) (prompt : List Char) (size? : Option Size)
    (blocks : List (List UInt8)) :
    (start settings prompt size? blocks).Sound (.of settings prompt)
      (sitting settings prompt blocks) (Desk.opening settings prompt) := by
  obtain ⟨hpresents, hmessages⟩ := run_ask settings prompt
  have hsizes : ∀ message ∈ (start settings prompt size? blocks).queue,
      ∃ size, message = .resize size := by
    intro message hmessage
    obtain ⟨size, -, rfl⟩ := List.mem_map.1 hmessage
    exact ⟨size, rfl⟩
  have hoffer : (start settings prompt size? blocks).outgoing = [] := hmessages
  have hsilent : (start settings prompt size? blocks).queue.flatMap Dispatch.Message.text = [] := by
    refine List.flatMap_eq_nil_iff.2 fun message hmessage => ?_
    obtain ⟨size, rfl⟩ := hsizes message hmessage
    rfl
  have hnone : .quit ∉ (start settings prompt size? blocks).queue := by
    intro hquit
    obtain ⟨size, hsize⟩ := hsizes _ hquit
    cases hsize
  refine ⟨hpresents, ?_, fun message hmessage => ?_, ?_,
    .inr ⟨fun hquit => absurd hquit hnone, ?_, ?_, nofun⟩, nofun⟩
  · have hcome : (start settings prompt size? blocks).toCome = typed blocks := by
      unfold toCome
      rw [hsilent]
      rfl
    rw [hcome]
    rfl
  · obtain ⟨size, rfl⟩ := hsizes message hmessage
    exact nofun
  · rw [hoffer]
    exact nofun
  · refine List.pairwise_of_forall_mem_list fun message hmessage _ _ hquit => ?_
    exact absurd (hquit ▸ hmessage) hnone
  · rw [hoffer]
    exact nofun

/-- **Run lemma.** Whatever has happened, the sitting so far and what is to come make up the sitting
in which all is typed. -/
theorem Reachable.sound (h : Reachable settings prompt size? blocks p) :
    ∃ s, p.Sound (.of settings prompt) (sitting settings prompt blocks) s := by
  induction h with
  | refl => exact ⟨_, sound_start ..⟩
  | tail _ hmoves ih =>
    obtain ⟨s, hsound⟩ := ih
    exact hsound.moves hmoves

/-- **What the program comes to** when it has quit depends on what was typed alone. -/
theorem Reachable.leave?_of_left (h : Reachable settings prompt size? blocks p)
    (hleft : p.left = true) :
    p.running.leave? =
      some { exitCode := 0, output := (sitting settings prompt blocks).output ++ newRow } := by
  obtain ⟨s, hsound⟩ := h.sound
  have hpresents : p.running.state.Presents (.of settings prompt) s := hsound.presents
  rw [hpresents.leave?_eq hleft, hsound.output_of_left hleft]

end Process

end LineEditor.Application
