import LineEditor.Application.Running
import LineEditor.Proofs.Application.Sitting
import LineEditor.Proofs.Session.Protocol
import LineEditor.Proofs.Terminal.Coherence
import Mathlib.Tactic.Tauto

/-!
# Sittings on the stage

The world of the shell holds one session on one connection, and this session is that of a `Sitting`
whenever nothing is running. What else the world holds is `Backstage`: tasks, completions, and the
record of what has happened. Each event, with the handlers that it calls and the calls that these
make, takes the world from one sitting to the next in a few steps (`within_react`), so that dealing
with all input takes it to the drained sitting (`within_drain`).

`Accounts` keeps the books: what has been written stands at the end of the sitting's output, the
program is told to quit exactly when the shell comes to its end, and all tasks are the session's.
-/

namespace LineEditor

/-! ### Bounded runs -/

namespace World

variable {κ ν : Type} {client : Client κ ν} {w w' w'' : World κ ν} {m n : Nat}

/-- From `w` to `w'` it takes at most `n` steps. -/
def Within (client : Client κ ν) (n : Nat) (w w' : World κ ν) : Prop :=
  ∃ steps ≤ n, ∀ fuel, w.settle client (steps + fuel) = w'.settle client fuel

namespace Within

theorem refl (client : Client κ ν) (w : World κ ν) : Within client 0 w w :=
  ⟨0, Nat.le_refl 0, fun fuel => by rw [Nat.zero_add]⟩

theorem mono (h : Within client m w w') (hmn : m ≤ n) : Within client n w w' := by
  obtain ⟨steps, hle, hsettle⟩ := h
  exact ⟨steps, Nat.le_trans hle hmn, hsettle⟩

theorem trans (h : Within client m w w') (h' : Within client n w' w'') :
    Within client (m + n) w w'' := by
  obtain ⟨steps, hle, hsettle⟩ := h
  obtain ⟨steps', hle', hsettle'⟩ := h'
  refine ⟨steps + steps', Nat.add_le_add hle hle', fun fuel => ?_⟩
  rw [Nat.add_assoc, hsettle, hsettle']

theorem one {job : Job κ ν} {rest : List (Job κ ν)} (hagenda : w.agenda = job :: rest)
    (hstep : w.step client = w') : Within client 1 w w' := by
  refine ⟨1, Nat.le_refl 1, fun fuel => ?_⟩
  rw [Nat.add_comm, World.settle, if_neg (by simp [hagenda]), hstep]

/-- Where nothing is running, enough steps have been taken. -/
theorem settle_eq (h : Within client n w w') (hdone : w'.agenda = []) {fuel : Nat}
    (hfuel : n ≤ fuel) : w.settle client fuel = w' := by
  obtain ⟨steps, hle, hsettle⟩ := h
  obtain ⟨more, rfl⟩ := Nat.exists_eq_add_of_le (Nat.le_trans hle hfuel)
  rw [hsettle]
  cases more with
  | zero => rfl
  | succ more => rw [World.settle, if_pos (by simp [hdone])]

end Within

end World

namespace Application

open World (Within)

/-! ### The world of the shell -/

/-- What the world of the shell holds beside its session and what is running. -/
structure Backstage where
  /-- The tasks of the connection. -/
  tasks : List SessionId := []
  /-- The completions. -/
  completions : List Completion := []
  /-- What has happened, the latest first. -/
  record : List (Occurrence Signal) := []

/-- The world of the shell. -/
def stage (editor : Session Handler) (b : Backstage) (agenda : List (Job Handler Signal)) :
    World where
  sessions := [editor]
  connections :=
    [{ input? := some (.session session), resize? := some (.session session), tasks := b.tasks }]
  completions := b.completions
  agenda
  record := b.record

/-- What the session of a sitting is doing when nothing is running. -/
def Sitting.phase (s : Sitting) : Phase Handler := s.entry?.elim .idle .editing

/-- The session of a sitting. -/
def Sitting.editor (s : Sitting) (desk : Desk) (size? : Option Size) (phase : Phase Handler) :
    Session Handler where
  connection? := some terminal
  phase
  continuation := desk.continuation
  decoder := s.decoder
  functions := desk.functions
  history := s.history
  size?
  nextId := s.nextId

namespace Backstage

/-- A text is written. -/
def write (b : Backstage) (text : List Char) : Backstage :=
  { b with record := if text.isEmpty then b.record else .wrote terminal text :: b.record }

/-- Something has happened. -/
def log (b : Backstage) (o : Occurrence Signal) : Backstage := { b with record := o :: b.record }

/-- A task is queued, if input can be decoded. -/
def schedule (b : Backstage) (hasNext : Bool) : Backstage :=
  { b with tasks := if hasNext then b.tasks ++ [session] else b.tasks }

/-- A completion begins. -/
def begin (b : Backstage) (completion : Completion) : Backstage :=
  { b with completions := b.completions ++ [completion] }

/-- What a line has put out is shown. -/
def display (b : Backstage) (text : List Char) : Backstage :=
  if text.isEmpty then b else (b.write (onRows text)).write newRow

/-- What has been written, as far as it is on record. -/
def text (b : Backstage) : List Char := written b.record.reverse

/-- The number of messages that are to be queued. -/
def messages (b : Backstage) : Nat := b.tasks.length + (quits b.record).toNat

end Backstage

section Stage

variable {editor : Session Handler} {b : Backstage} {agenda rest : List (Job Handler Signal)}
  {next : Answer → Program Handler Signal}

@[simp]
theorem stage_write (text : List Char) :
    (stage editor b agenda).write terminal text = stage editor (b.write text) agenda := by
  unfold World.write Backstage.write
  split <;> rfl

theorem stage_schedule (editor : Session Handler)
    (hconnection : editor.connection? = some terminal) :
    (stage editor b agenda).schedule session =
      stage editor (b.schedule editor.decoder.hasNext) agenda := by
  have hlookup : (stage editor b agenda).sessions[session]? = some editor := rfl
  unfold World.schedule Backstage.schedule
  rw [hlookup]
  dsimp only
  rw [hconnection]
  cases editor.decoder.hasNext <;> rfl

theorem stage_session? (hkept : editor.released = false) :
    (stage editor b agenda).session? session = some editor := by
  have hlookup : (stage editor b agenda).sessions[session]? = some editor := rfl
  rw [World.session?, hlookup]
  simp [Option.filter, hkept]

/-- A step of client code is a call on the rest. -/
theorem within_call {call : Call Handler Signal} {w : World}
    (hperform : (stage editor b rest).perform client call next = w) :
    Within client 1 (stage editor b (.run (.call call next) :: rest)) w :=
  .one rfl hperform

/-- A call on the session of the shell is not refused for want of it. -/
theorem stage_onSession (hkept : editor.released = false) (act : Session Handler → World) :
    (stage editor b agenda).onSession session next act = act editor := by
  rw [World.onSession, stage_session? hkept]

/-- A call on a completion that there is acts on it. -/
theorem stage_onCompletion {k : CompletionId} {completion : Completion}
    (hk : b.completions[k]? = some completion) (act : CompletionId → Completion → World) :
    (stage editor b agenda).onCompletion (some k) next act = act k completion := by
  have hfound : (stage editor b agenda).completions[k]? = some completion := hk
  unfold World.onCompletion
  dsimp only [World.completionId, Option.getD_some]
  rw [hfound]

/-- Client code comes to its end. -/
theorem within_done : Within client 1 (stage editor b (.run .done :: rest)) (stage editor b rest) :=
  .one rfl rfl

/-- The client writes. -/
theorem within_write (text : List Char) :
    Within client 1 (stage editor b (.run (.call (.write terminal text) next) :: rest))
      (stage editor (b.write text) (.run (next .done) :: rest)) :=
  within_call (congrArg (World.reply · next .done) (stage_write text))

end Stage

/-! ### Books -/

@[simp]
theorem written_append (earlier later : List (Occurrence Signal)) :
    written (earlier ++ later) = written earlier ++ written later :=
  List.flatMap_append

@[simp]
theorem text_write (b : Backstage) (text : List Char) : (b.write text).text = b.text ++ text := by
  unfold Backstage.write Backstage.text
  cases text with
  | nil => exact (List.append_nil _).symm
  | cons c text => simp [written]

@[simp]
theorem quits_write (b : Backstage) (text : List Char) :
    quits (b.write text).record = quits b.record := by
  unfold Backstage.write
  cases text <;> rfl

@[simp]
theorem text_display (b : Backstage) (text : List Char) :
    (b.display text).text = b.text ++ shown text := by
  unfold Backstage.display shown
  split
  · exact (List.append_nil _).symm
  · rw [text_write, text_write, List.append_assoc]

@[simp]
theorem quits_display (b : Backstage) (text : List Char) :
    quits (b.display text).record = quits b.record := by
  unfold Backstage.display
  split
  · rfl
  · rw [quits_write, quits_write]

@[simp]
theorem tasks_display (b : Backstage) (text : List Char) : (b.display text).tasks = b.tasks := by
  unfold Backstage.display
  split <;> rfl

@[simp]
theorem text_begin (b : Backstage) (completion : Completion) :
    (b.begin completion).text = b.text := rfl

@[simp]
theorem record_begin (b : Backstage) (completion : Completion) :
    (b.begin completion).record = b.record := rfl

@[simp]
theorem text_log_asked (b : Backstage) (k : CompletionId) (completion : Completion) :
    (b.log (.asked k completion)).text = b.text := by
  simp [Backstage.text, Backstage.log, written]

@[simp]
theorem quits_log_asked (b : Backstage) (k : CompletionId) (completion : Completion) :
    quits (b.log (.asked k completion)).record = quits b.record := rfl

@[simp]
theorem text_log_delivered (b : Backstage) (t : SessionId) (id : Nat) (line : List Char) :
    (b.log (.delivered t id line)).text = b.text := by
  simp [Backstage.text, Backstage.log, written]

@[simp]
theorem quits_log_delivered (b : Backstage) (t : SessionId) (id : Nat) (line : List Char) :
    quits (b.log (.delivered t id line)).record = quits b.record := rfl

/-- What has come between one sitting and a later one. -/
structure Accounts (s s' : Sitting) (b b' : Backstage) : Prop where
  /-- What has been written. -/
  written : ∃ text, s'.output = s.output ++ text ∧ b'.text = b.text ++ text
  /-- The program is told to quit when the shell comes to its end. -/
  quits : quits b'.record = true ↔
    quits b.record = true ∨ ¬ s.IsOver ∧ s'.IsOver
  /-- The shell does not begin again. -/
  closed : s.IsOver → s'.IsOver
  /-- All tasks are the session's. -/
  tasks : ∃ count, b'.tasks = b.tasks ++ List.replicate count session

namespace Accounts

variable {s s' s'' : Sitting} {b b' b'' : Backstage}

theorem refl (s : Sitting) (b : Backstage) : Accounts s s b b where
  written := ⟨[], (List.append_nil _).symm, (List.append_nil _).symm⟩
  quits := ⟨.inl, fun h => h.resolve_right fun hends => hends.1 hends.2⟩
  closed := id
  tasks := ⟨0, (List.append_nil _).symm⟩

theorem trans (h : Accounts s s' b b') (h' : Accounts s' s'' b' b'') : Accounts s s'' b b'' where
  written := by
    obtain ⟨text, houtput, htext⟩ := h.written
    obtain ⟨text', houtput', htext'⟩ := h'.written
    refine ⟨text ++ text', ?_, ?_⟩
    · rw [houtput', houtput, List.append_assoc]
    · rw [htext', htext, List.append_assoc]
  quits := by
    have hclosed := h.closed
    have hclosed' := h'.closed
    rw [h'.quits, h.quits]
    tauto
  closed := h'.closed ∘ h.closed
  tasks := by
    obtain ⟨count, htasks⟩ := h.tasks
    obtain ⟨count', htasks'⟩ := h'.tasks
    refine ⟨count + count', ?_⟩
    rw [htasks', htasks, List.append_assoc, List.replicate_append_replicate]

/-- While a line is asked for, writing and queueing tasks is all that happens. -/
theorem of_entry {entry' : Entry Handler} (hentry' : s'.entry? = some entry')
    (hwritten : ∃ text, s'.output = s.output ++ text ∧ b'.text = b.text ++ text)
    (hquits : Application.quits b'.record = Application.quits b.record)
    (hentry : ¬ s.IsOver)
    (htasks : ∃ count, b'.tasks = b.tasks ++ List.replicate count session) :
    Accounts s s' b b' where
  written := hwritten
  quits := by
    rw [hquits]
    exact (or_iff_left fun hends => Sitting.not_isOver hentry' hends.2).symm
  closed hover := absurd hover hentry
  tasks := htasks

end Accounts

/-! ### Events -/

section Events

variable {desk : Desk} {s : Sitting} {size? : Option Size} {b : Backstage}
  {rest : List (Job Handler Signal)}

/-- It takes at most `n` steps from `w` to the sitting `s'`. The books are kept, and there is at
most one message more. -/
def LeadsTo (n : Nat) (desk : Desk) (size? : Option Size) (s s' : Sitting) (b : Backstage)
    (rest : List (Job Handler Signal)) (w : World) : Prop :=
  ∃ b', Within client n w (stage (s'.editor desk size? s'.phase) b' rest) ∧
    Accounts s s' b b' ∧ b'.messages ≤ b.messages + 1

/-- A line is asked for by a session that is idle. -/
theorem within_ask (s : Sitting) (b : Backstage) (rest : List (Job Handler Signal)) :
    Within client 2 (stage (s.editor desk size? .idle) b (.run (ask desk.prompt) :: rest))
      (stage ((desk.ask s).editor desk size? (desk.ask s).phase)
        ((b.write desk.prompt).schedule s.decoder.hasNext) rest) := by
  have hlookup : (stage (s.editor desk size? .idle) b rest).sessions[session]? =
      some (s.editor desk size? .idle) := rfl
  have hrequest : (stage (s.editor desk size? .idle) b rest).request session desk.request =
      (stage ((desk.ask s).editor desk size? (desk.ask s).phase)
        ((b.write desk.prompt).schedule s.decoder.hasNext) rest, .ok ()) := by
    unfold World.request
    rw [hlookup]
    have hwritten : (((stage (s.editor desk size? .idle) b rest).changeSession session
        fun editor => { editor with
          phase := .editing { id := editor.nextId, request := desk.request }
          nextId := editor.nextId + 1 }).write terminal desk.prompt) =
        stage ((desk.ask s).editor desk size? (desk.ask s).phase) (b.write desk.prompt) rest :=
      stage_write desk.prompt
    refine congrArg (·, Except.ok ()) ?_
    exact (congrArg (World.schedule · session) hwritten).trans (stage_schedule _ rfl)
  have hcall : ∀ next, (stage (s.editor desk size? .idle) b rest).perform client
      (.request session desk.request) next =
        stage ((desk.ask s).editor desk size? (desk.ask s).phase)
          ((b.write desk.prompt).schedule s.decoder.hasNext) (.run (next .done) :: rest) := by
    intro next
    dsimp only [World.perform]
    rw [stage_onSession rfl, hrequest]
    rfl
  have hasked : Within client 1
      (stage (s.editor desk size? .idle) b (.run (ask desk.prompt) :: rest)) _ :=
    within_call (hcall _)
  exact hasked.trans within_done

/-- What a line has put out is shown. -/
theorem within_display (editor : Session Handler) (text : List Char) (b : Backstage)
    (p : Program Handler Signal) (rest : List (Job Handler Signal)) :
    Within client 2 (stage editor b (.run (display text p) :: rest))
      (stage editor (b.display text) (.run p :: rest)) := by
  unfold display Backstage.display
  split
  next => exact (Within.refl client _).mono (Nat.zero_le 2)
  next =>
    have hrows : Within client 1 (stage editor b (.run (.call (.write terminal (onRows text))
        fun _ => .andThen (.write terminal newRow) p) :: rest)) _ := within_write (onRows text)
    exact hrows.trans (within_write newRow)

@[simp]
theorem text_schedule (b : Backstage) (hasNext : Bool) : (b.schedule hasNext).text = b.text := rfl

@[simp]
theorem record_schedule (b : Backstage) (hasNext : Bool) :
    (b.schedule hasNext).record = b.record := rfl

/-- A task is queued, or none. -/
theorem tasks_schedule (b : Backstage) (hasNext : Bool) :
    ∃ count ≤ 1, (b.schedule hasNext).tasks = b.tasks ++ List.replicate count session := by
  cases hasNext with
  | false => exact ⟨0, Nat.zero_le 1, (List.append_nil _).symm⟩
  | true => exact ⟨1, Nat.le_refl 1, rfl⟩

theorem messages_eq {b' : Backstage} {count : Nat}
    (htasks : b'.tasks = b.tasks ++ List.replicate count session)
    (hquits : quits b'.record = quits b.record) : b'.messages = b.messages + count := by
  rw [Backstage.messages, Backstage.messages, htasks, hquits, List.length_append,
    List.length_replicate]
  omega

theorem messages_eq_self {b' : Backstage} (htasks : b'.tasks = b.tasks)
    (hquits : quits b'.record = quits b.record) : b'.messages = b.messages := by
  rw [Backstage.messages, htasks, hquits, ← Backstage.messages]

/-- The program is told to quit. -/
theorem within_quit (editor : Session Handler) (b : Backstage) (rest : List (Job Handler Signal)) :
    Within client 2 (stage editor b (.run (.ofCall (.note .quit)) :: rest))
      (stage editor (b.log (.noted .quit)) rest) := by
  have hnote : Within client 1 (stage editor b (.run (.ofCall (.note .quit)) :: rest))
      (stage editor (b.log (.noted .quit)) (.run .done :: rest)) := within_call rfl
  exact hnote.trans within_done

/-- A completed line is entered into the history and evaluated, and the reply is acted on. -/
theorem within_line (desk : Desk) (size? : Option Size) (hentry : ¬ s.IsOver)
    (line : List Char) (b : Backstage) (rest : List (Job Handler Signal)) :
    LeadsTo 6 desk size? s (desk.enter s line) b rest
      (stage (s.editor desk size? .idle) b (.run (onLine desk.prompt line) :: rest)) := by
  let history := s.history.push line
  have hchange : Within client 1
      (stage (s.editor desk size? .idle) b (.run (onLine desk.prompt line) :: rest))
      (stage ({ s with history }.editor desk size? .idle) b
        (.run (.call (.history session) _) :: rest)) := within_call rfl
  have hhistory : Within client 2
      (stage (s.editor desk size? .idle) b (.run (onLine desk.prompt line) :: rest))
      (stage ({ s with history }.editor desk size? .idle) b
        (.run _ :: rest)) := hchange.trans (within_call rfl)
  have heditor : ({ s with history }.editor desk size? .idle).history = history := rfl
  simp only [heditor] at hhistory
  cases hreply : Shell.evaluate line history with
  | output text =>
    have henter : desk.enter s line = desk.ask
        { s with entry? := none, history, output := s.output ++ shown text } := by
      unfold Desk.enter
      dsimp only
      rw [hreply]
    rw [hreply] at hhistory
    rw [henter]
    let written := (b.display text).write desk.prompt
    obtain ⟨count, hcount, htasks⟩ := tasks_schedule written s.decoder.hasNext
    have htasks : (written.schedule s.decoder.hasNext).tasks =
        b.tasks ++ List.replicate count session :=
      htasks.trans (congrArg (· ++ _) (tasks_display b text))
    have hquits : quits (written.schedule s.decoder.hasNext).record = quits b.record := by
      simp [written]
    refine ⟨written.schedule s.decoder.hasNext, ?_, ?_, ?_⟩
    · exact (hhistory.trans (within_display ..)).trans (within_ask _ _ rest)
    · refine .of_entry rfl ⟨shown text ++ desk.prompt, List.append_assoc .., ?_⟩ hquits hentry
        ⟨count, htasks⟩
      simp [written]
    · rw [messages_eq htasks hquits]
      exact Nat.add_le_add_left hcount _
  | exit =>
    have henter : desk.enter s line = { s with entry? := none, history } := by
      unfold Desk.enter
      dsimp only
      rw [hreply]
    rw [hreply] at hhistory
    rw [henter]
    have hquits : quits (b.log (.noted .quit)).record = true := rfl
    refine ⟨b.log (.noted .quit), ?_, ?_, ?_⟩
    · exact (hhistory.trans (within_quit ..)).mono (by decide)
    · exact
        { written :=
            ⟨[], (List.append_nil _).symm, by simp [Backstage.text, Backstage.log, written]⟩
          quits := by simp [hquits, hentry]
          closed := fun _ => rfl
          tasks := ⟨0, (List.append_nil _).symm⟩ }
    · rw [Backstage.messages, hquits, Backstage.messages]
      exact Nat.add_le_add_right (Nat.le_add_right _ _) 1

/-! ### Completions -/

section Completions

variable {entry : Entry Handler} {k : CompletionId} {completion : Completion}

/-- The status of a completion is set. -/
def Backstage.setStatus (b : Backstage) (k : CompletionId) (status : Status) : Backstage :=
  { b with completions := b.completions.modify k ({ · with status }) }

@[simp]
theorem text_setStatus (b : Backstage) (k : CompletionId) (status : Status) :
    (b.setStatus k status).text = b.text := rfl

@[simp]
theorem record_setStatus (b : Backstage) (k : CompletionId) (status : Status) :
    (b.setStatus k status).record = b.record := rfl

theorem Backstage.lookup_setStatus (b : Backstage) (hk : b.completions[k]? = some completion)
    (status : Status) :
    (b.setStatus k status).completions[k]? = some { completion with status } := by
  simp [Backstage.setStatus, hk]

/-- Text is put into the line that waits for its completion. -/
theorem stage_complete {text : List Char} (hsession : completion.session = session)
    (hid : entry.id = completion.entryId) (hpending : completion.status = .pending)
    (hsupported : World.unsupported? text = none) (ends : Bool) {line : Line}
    (hline : line = entry.line.insert (completion.snapshot.context.literally ends text)) :
    (stage (s.editor desk size? (.completing entry)) b rest).complete k completion text ends =
      (stage (s.editor desk size? (.completing { entry with line }))
        ((b.setStatus k .inlining).write (entry.line.redraw line)) rest, .ok ()) := by
  subst hline
  have hlookup : (stage (s.editor desk size? (.completing entry)) (b.setStatus k .inlining)
      rest).sessions[completion.session]? = some (s.editor desk size? (.completing entry)) := by
    rw [hsession]
    rfl
  have hwait : ((stage (s.editor desk size? (.completing entry)) b rest).setStatus k
      .inlining).waiting? completion = some (terminal, entry) :=
    World.waiting?_eq_some_iff.2 ⟨_, hlookup, rfl, rfl, hid⟩
  unfold World.complete
  rw [hsupported]
  dsimp only
  rw [if_neg (not_not_intro hpending), hwait]
  dsimp only
  split
  next hnothing =>
    obtain ⟨rfl, rfl⟩ : text = [] ∧ ends = false := by simpa using hnothing
    rw [Quoting.Context.literally, if_neg Bool.false_ne_true, Line.insert_nil, Line.redraw_self]
    rfl
  next =>
    rw [hsession]
    have hchanged : ((stage (s.editor desk size? (.completing entry)) b rest).setStatus k
        .inlining).changeSession session ({ · with phase := .completing { entry with
          line := entry.line.insert (completion.snapshot.context.literally ends text) } }) =
        stage (s.editor desk size? (.completing { entry with
          line := entry.line.insert (completion.snapshot.context.literally ends text) }))
          (b.setStatus k .inlining) rest := rfl
    rw [hchanged, stage_write]

/-- Suggestions are written below the line that waits for its completion. -/
theorem stage_suggest {text : List Char} (hsession : completion.session = session)
    (hid : entry.id = completion.entryId) (hpending : completion.status = .pending) :
    (stage (s.editor desk size? (.completing entry)) b rest).suggest k completion text =
      (stage (s.editor desk size? (.completing entry))
        ((b.setStatus k .completing).write (newRow ++ text)) rest, .ok ()) := by
  have hlookup : (stage (s.editor desk size? (.completing entry)) (b.setStatus k .completing)
      rest).sessions[completion.session]? = some (s.editor desk size? (.completing entry)) := by
    rw [hsession]
    rfl
  have hwait : ((stage (s.editor desk size? (.completing entry)) b rest).setStatus k
      .completing).waiting? completion = some (terminal, entry) :=
    World.waiting?_eq_some_iff.2 ⟨_, hlookup, rfl, rfl, hid⟩
  have hset : (stage (s.editor desk size? (.completing entry)) b rest).setStatus k .completing =
      stage (s.editor desk size? (.completing entry)) (b.setStatus k .completing) rest := rfl
  unfold World.suggest
  rw [if_pos (.inl hpending)]
  dsimp only
  rw [hwait]
  dsimp only
  rw [if_pos hpending, hset, stage_write]

/-- A completion ends, and the entry that waits for it is edited again. -/
theorem within_finish (desk : Desk) (s : Sitting) (size? : Option Size) (entry : Entry Handler)
    (b : Backstage) (rest : List (Job Handler Signal)) (hk : b.completions[k]? = some completion)
    (hsession : completion.session = session) (hid : entry.id = completion.entryId)
    (hopen : completion.status ≠ .completed) :
    Within client 2
      (stage (s.editor desk size? (.completing entry)) b
        (.run (.ofCall (.finish (some k))) :: rest))
      (stage (s.editor desk size? (.editing entry))
        (((b.setStatus k .completed).write
          (completion.redrawing (s.editor desk size? (.completing entry)) entry)).schedule
            s.decoder.hasNext) rest) := by
  have hlookup : (stage (s.editor desk size? (.completing entry)) b
      rest).sessions[completion.session]? = some (s.editor desk size? (.completing entry)) := by
    rw [hsession]
    rfl
  have hresumed : (stage (s.editor desk size? (.completing entry)) b rest).resumed k completion
      (s.editor desk size? (.completing entry)) entry =
        stage (s.editor desk size? (.editing entry))
          (((b.setStatus k .completed).write
            (completion.redrawing (s.editor desk size? (.completing entry)) entry)).schedule
              s.decoder.hasNext) rest := by
    have hset : (stage (s.editor desk size? (.completing entry)) b rest).setStatus k .completed =
        stage (s.editor desk size? (.completing entry)) (b.setStatus k .completed) rest := rfl
    rw [World.resumed, hset, hsession]
    refine (congrArg (fun w : World => (w.changeSession session _).schedule session)
      (stage_write _)).trans ?_
    exact stage_schedule (s.editor desk size? (.editing entry)) rfl
  have hcall : (stage (s.editor desk size? (.completing entry)) b rest).perform client
      (.finish (some k)) (fun _ => .done) =
        stage (s.editor desk size? (.editing entry))
          (((b.setStatus k .completed).write
            (completion.redrawing (s.editor desk size? (.completing entry)) entry)).schedule
              s.decoder.hasNext) (.run .done :: rest) := by
    have hfinish : (stage (s.editor desk size? (.completing entry)) b rest).finish k completion =
        (_, .ok ()) := World.finish_of_waits hopen hlookup rfl hid
    rw [hresumed] at hfinish
    dsimp only [World.perform]
    rw [stage_onCompletion hk, hfinish]
    rfl
  exact (within_call hcall).trans within_done

/-- A word is completed, and the line is edited again. -/
theorem within_complete (desk : Desk) {snapshot : Snapshot} (b : Backstage) (k : CompletionId)
    (rest : List (Job Handler Signal)) (hk : b.completions[k]? = some
      { session, entryId := entry.id, snapshot, size? := size? }) :
    ∃ b', Within client 3
        (stage (s.editor desk size? (.completing entry)) b
          (.run (Shell.completeCommand k snapshot) :: rest))
        (stage (s.editor desk size? (.editing (desk.complete entry snapshot).1)) b' rest) ∧
      b'.text = b.text ++ (desk.complete entry snapshot).2 ∧
        quits b'.record = quits b.record ∧
          ∃ count ≤ 1, b'.tasks = b.tasks ++ List.replicate count session := by
  unfold Desk.complete Shell.completeCommand
  dsimp only
  cases hoffer : Shell.offer snapshot.line snapshot.word with
  | nothing =>
    have hfinish := within_finish desk s size? entry b rest hk rfl rfl (by simp)
    refine ⟨_, hfinish.mono (by decide), ?_, ?_, tasks_schedule _ _⟩
    · simp [Completion.redrawing]
    · simp
  | insertion text ends =>
    dsimp only
    cases hsupported : World.unsupported? text with
    | some c =>
      rw [if_pos (Option.isSome_some)]
      have hcall : (stage (s.editor desk size? (.completing entry)) b rest).perform client
          (.complete (some k) text ends) (fun _ => .ofCall (.finish (some k))) =
            stage (s.editor desk size? (.completing entry)) b
              (.run (.ofCall (.finish (some k))) :: rest) := by
        dsimp only [World.perform]
        rw [stage_onCompletion hk, World.complete, hsupported]
        rfl
      have hfinish := within_finish desk s size? entry b rest hk rfl rfl (by simp)
      have hruns := (within_call hcall).trans hfinish
      refine ⟨_, hruns, ?_, ?_, tasks_schedule _ _⟩
      · simp [Completion.redrawing]
      · simp
    | none =>
      rw [if_neg (by simp)]
      dsimp only
      have hcall : (stage (s.editor desk size? (.completing entry)) b rest).perform client
          (.complete (some k) text ends) (fun _ => .ofCall (.finish (some k))) =
            stage (s.editor desk size? (.completing { entry with
                line := entry.line.insert (snapshot.context.literally ends text) }))
              ((b.setStatus k .inlining).write (entry.line.redraw
                (entry.line.insert (snapshot.context.literally ends text))))
              (.run (.ofCall (.finish (some k))) :: rest) := by
        dsimp only [World.perform]
        rw [stage_onCompletion hk, stage_complete rfl rfl rfl hsupported ends rfl]
        rfl
      have hfinish := within_finish desk s size?
        { entry with line := entry.line.insert (snapshot.context.literally ends text) }
        ((b.setStatus k .inlining).write (entry.line.redraw
          (entry.line.insert (snapshot.context.literally ends text)))) rest
        (b.lookup_setStatus hk .inlining) rfl rfl (by simp)
      have hruns := (within_call hcall).trans hfinish
      refine ⟨_, hruns, ?_, ?_, tasks_schedule _ _⟩
      · simp [Completion.redrawing]
      · simp
  | listing text =>
    dsimp only
    have hcall : (stage (s.editor desk size? (.completing entry)) b rest).perform client
        (.suggest (some k) text) (fun _ => .ofCall (.finish (some k))) =
          stage (s.editor desk size? (.completing entry))
            ((b.setStatus k .completing).write (newRow ++ text))
            (.run (.ofCall (.finish (some k))) :: rest) := by
      dsimp only [World.perform]
      rw [stage_onCompletion hk, stage_suggest rfl rfl rfl]
      rfl
    have hfinish := within_finish desk s size? entry
      ((b.setStatus k .completing).write (newRow ++ text)) rest
      (b.lookup_setStatus hk .completing) rfl rfl (by simp)
    have hruns := (within_call hcall).trans hfinish
    refine ⟨_, hruns, ?_, ?_, tasks_schedule _ _⟩
    · simp [Completion.redrawing, Sitting.editor]
    · simp

end Completions

/-! ### Dealing with input -/

section Input

variable {entry : Entry Handler} {event : KeyEvent} {decoder : Keys.Decoder}

theorem Sitting.phase_of_entry (hentry : s.entry? = some entry) : s.phase = .editing entry := by
  rw [phase, hentry]
  rfl

/-- An event has been handled. -/
theorem stage_afterEvent (phase phase' : Phase Handler) (handled : Handled Handler)
    (decoder : Keys.Decoder) :
    (stage (s.editor desk size? phase) b rest).afterEvent session terminal handled decoder phase' =
      stage ({ s with decoder, history := handled.history }.editor desk size? phase')
        (b.write handled.written) (.deliver session :: rest) := by
  have hchanged : (stage (s.editor desk size? phase) b rest).changeSession session
      ({ · with phase := phase', decoder, history := handled.history }) =
        stage ({ s with decoder, history := handled.history }.editor desk size? phase') b rest :=
    rfl
  rw [World.afterEvent, hchanged, stage_write]
  rfl

/-- An event is handled next. -/
theorem step_deliver (desk : Desk) (size? : Option Size) (b : Backstage)
    (rest : List (Job Handler Signal)) (hentry : s.entry? = some entry)
    (hnext : s.decoder.next? = some (event, decoder)) :
    (stage (s.editor desk size? s.phase) b (.deliver session :: rest)).step client =
      (stage (s.editor desk size? s.phase) b rest).handleEvent client session
        (s.editor desk size? s.phase) entry terminal event decoder := by
  have hlookup : (stage (s.editor desk size? s.phase) b rest).sessions[session]? =
      some (s.editor desk size? s.phase) := rfl
  have hstep : (stage (s.editor desk size? s.phase) b (.deliver session :: rest)).step client =
      (stage (s.editor desk size? s.phase) b rest).deliver client session := rfl
  rw [hstep, World.deliver, hlookup]
  dsimp only
  have hdecoder : (s.editor desk size? s.phase).decoder.next? = some (event, decoder) := hnext
  have hphase : (s.editor desk size? s.phase).phase = .editing entry :=
    Sitting.phase_of_entry hentry
  rw [hdecoder]
  dsimp only
  rw [hphase]
  rfl

/-- An event after which the entry goes on. -/
theorem within_goesOn {handled : Handled Handler} (hentry : s.entry? = some entry)
    (hnext : s.decoder.next? = some (event, decoder))
    (hhandled : entry.handle desk.functions s.history desk.continuation event = handled)
    (houtcome : handled.outcome = .goesOn) (size? : Option Size) (b : Backstage)
    (rest : List (Job Handler Signal)) :
    LeadsTo 7 desk size? s (desk.react { s with decoder } entry event) b (.deliver session :: rest)
      (stage (s.editor desk size? s.phase) b (.deliver session :: rest)) := by
  have hlive : ¬ s.IsOver := Sitting.not_isOver hentry
  have hstep := step_deliver desk size? b rest hentry hnext
  rw [World.handleEvent_goesOn hhandled houtcome, stage_afterEvent] at hstep
  rw [Desk.react_goesOn (s := { s with decoder }) hhandled houtcome]
  refine ⟨b.write handled.written, (Within.one rfl hstep).mono (by decide), ?_, ?_⟩
  · exact .of_entry rfl ⟨handled.written, rfl, text_write ..⟩ (quits_write ..) hlive
      ⟨0, (List.append_nil _).symm⟩
  · have hwritten : (b.write handled.written).messages = b.messages :=
      messages_eq_self rfl (quits_write ..)
    rw [hwritten]
    exact Nat.le_succ _

/-- An event that completes the line. -/
theorem within_submitted {handled : Handled Handler} {line : List Char}
    (hentry : s.entry? = some entry) (hrequest : entry.request = desk.request)
    (hnext : s.decoder.next? = some (event, decoder))
    (hhandled : entry.handle desk.functions s.history desk.continuation event = handled)
    (houtcome : handled.outcome = .submitted line) (size? : Option Size) (b : Backstage)
    (rest : List (Job Handler Signal)) :
    LeadsTo 7 desk size? s (desk.react { s with decoder } entry event) b (.deliver session :: rest)
      (stage (s.editor desk size? s.phase) b (.deliver session :: rest)) := by
  have hlive : ¬ s.IsOver := Sitting.not_isOver hentry
  have hstep := step_deliver desk size? b rest hentry hnext
  rw [World.handleEvent_submitted hhandled houtcome, stage_afterEvent, hrequest] at hstep
  rw [Desk.react_submitted (s := { s with decoder }) hhandled houtcome]
  -- between the event and the line, the entry is the one from before
  let mid : Sitting :=
    { s with
      decoder
      history := handled.history
      output := s.output ++ handled.written }
  let logged := (b.write handled.written).log (.delivered session entry.id line)
  have hmid : Accounts s mid b logged :=
    .of_entry hentry ⟨handled.written, rfl, by simp [logged]⟩ (by simp [logged]) hlive
      ⟨0, (List.append_nil _).symm⟩
  obtain ⟨b', hruns, haccounts, hmessages⟩ :=
    within_line (s := mid) desk size? hlive line logged (.deliver session :: rest)
  refine ⟨b', (Within.one rfl hstep).trans hruns, hmid.trans haccounts, ?_⟩
  have hlogged : logged.messages = b.messages := messages_eq_self rfl (by simp [logged])
  rwa [hlogged] at hmessages

/-- An event that asks for a completion. -/
theorem within_asked {handled : Handled Handler} {handler : Handler} {snapshot : Snapshot}
    (hentry : s.entry? = some entry) (hrequest : entry.request = desk.request)
    (hnext : s.decoder.next? = some (event, decoder))
    (hhandled : entry.handle desk.functions s.history desk.continuation event = handled)
    (houtcome : handled.outcome = .asked handler snapshot) (size? : Option Size) (b : Backstage)
    (rest : List (Job Handler Signal)) :
    LeadsTo 7 desk size? s (desk.react { s with decoder } entry event) b (.deliver session :: rest)
      (stage (s.editor desk size? s.phase) b (.deliver session :: rest)) := by
  have hlive : ¬ s.IsOver := Sitting.not_isOver hentry
  have hhandler : handler = .commandWord := by
    have hsome := Entry.onComplete?_of_asked hhandled houtcome
    rw [hrequest] at hsome
    exact (Option.some_inj.1 hsome).symm
  have hid : handled.entry.id = entry.id := by
    rw [← hhandled]
    exact Entry.id_handle ..
  subst hhandler
  have hstep := step_deliver desk size? b rest hentry hnext
  rw [World.handleEvent_asked hhandled houtcome rfl, stage_afterEvent, ← hid] at hstep
  rw [Desk.react_asked (s := { s with decoder }) hhandled houtcome]
  let mid : Sitting :=
    { s with
      entry? := some (desk.complete handled.entry snapshot).1
      decoder
      history := handled.history
      output := s.output ++ handled.written }
  let begun := ((b.write handled.written).begin
    { session, entryId := handled.entry.id, snapshot, size? }).log
      (.asked b.completions.length { session, entryId := handled.entry.id, snapshot, size? })
  have hk : begun.completions[b.completions.length]? =
      some { session, entryId := handled.entry.id, snapshot, size? } := by
    simp [begun, Backstage.begin, Backstage.log, Backstage.write]
  obtain ⟨b', hruns, htext, hquits, count, hcount, htasks⟩ :=
    within_complete (s := mid) desk begun _ (.deliver session :: rest) hk
  have hquits' : quits b'.record = quits b.record := by
    rw [hquits]
    simp [begun]
  refine ⟨b', ((Within.one rfl hstep).trans hruns).mono (by decide), ?_, ?_⟩
  · refine .of_entry rfl ⟨handled.written ++ (desk.complete handled.entry snapshot).2, ?_, ?_⟩
      hquits' hlive ⟨count, htasks⟩
    · exact List.append_assoc ..
    · rw [htext]
      simp [begun]
  · have hmessages : b'.messages = b.messages + count := messages_eq htasks hquits'
    rw [hmessages]
    exact Nat.add_le_add_left hcount _

/-- **Step lemma.** An event is dealt with, and all that follows from it. -/
theorem within_react (hentry : s.entry? = some entry) (hrequest : entry.request = desk.request)
    (hnext : s.decoder.next? = some (event, decoder)) (size? : Option Size) (b : Backstage)
    (rest : List (Job Handler Signal)) :
    LeadsTo 7 desk size? s (desk.react { s with decoder } entry event) b (.deliver session :: rest)
      (stage (s.editor desk size? s.phase) b (.deliver session :: rest)) := by
  cases houtcome :
      (entry.handle desk.functions s.history desk.continuation event).outcome with
  | goesOn => exact within_goesOn hentry hnext rfl houtcome size? b rest
  | submitted line => exact within_submitted hentry hrequest hnext rfl houtcome size? b rest
  | asked handler snapshot => exact within_asked hentry hrequest hnext rfl houtcome size? b rest

/-- A sitting that has nothing to deal with stops. -/
theorem within_stop (hstops : s.IsOver ∨ s.decoder.next? = none) (size? : Option Size)
    (b : Backstage) (rest : List (Job Handler Signal)) :
    Within client 1 (stage (s.editor desk size? s.phase) b (.deliver session :: rest))
      (stage (s.editor desk size? s.phase) b rest) := by
  have hlookup : (stage (s.editor desk size? s.phase) b rest).sessions[session]? =
      some (s.editor desk size? s.phase) := rfl
  have hstep : (stage (s.editor desk size? s.phase) b (.deliver session :: rest)).step client =
      (stage (s.editor desk size? s.phase) b rest).deliver client session := rfl
  refine .one rfl ?_
  rw [hstep, World.deliver, hlookup]
  dsimp only [Sitting.editor]
  cases hnext : s.decoder.next? with
  | none => rfl
  | some next =>
    have hidle : s.phase = .idle := by
      rw [Sitting.phase, hstops.resolve_right (by simp [hnext])]
      rfl
    rw [hidle]

/-- **Run lemma.** All that has been typed is dealt with, at a cost for each character. -/
theorem within_drain (hfits : s.Fits desk.request) (size? : Option Size) (b : Backstage)
    (rest : List (Job Handler Signal)) :
    ∃ b', Within client (7 * s.decoder.pending.length + 1)
        (stage (s.editor desk size? s.phase) b (.deliver session :: rest))
        (stage ((desk.drain s).editor desk size? (desk.drain s).phase) b' rest) ∧
      Accounts s (desk.drain s) b b' ∧
        b'.messages + (desk.drain s).decoder.pending.length ≤
          b.messages + s.decoder.pending.length := by
  fun_induction Desk.drain desk s generalizing b with
  | case1 s hentry =>
    exact ⟨b, (within_stop (.inl hentry) ..).mono (Nat.le_add_left ..), .refl .., Nat.le_refl _⟩
  | case2 s entry hentry hnext =>
    exact ⟨b, (within_stop (.inr hnext) ..).mono (Nat.le_add_left ..), .refl .., Nat.le_refl _⟩
  | case3 s entry hentry event decoder hnext ih =>
    have hrequest : entry.request = desk.request := hfits entry hentry
    obtain ⟨b₁, hreact, haccounts, hmessages⟩ := within_react hentry hrequest hnext size? b rest
    obtain ⟨b₂, hdrain, haccounts', hbalance⟩ := ih (Desk.fits_react hrequest) b₁
    -- each event costs at least one character, which pays for its steps and its message
    have hlt := Keys.Decoder.length_lt_of_next hnext
    rw [Desk.decoder_react] at hdrain hbalance
    dsimp only at hdrain hbalance
    refine ⟨b₂, (hreact.trans hdrain).mono ?_, haccounts.trans haccounts', ?_⟩
    · omega
    · omega

end Input

end Events

end Application

end LineEditor
