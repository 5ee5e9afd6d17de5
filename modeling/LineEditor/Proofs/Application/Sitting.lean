import LineEditor.Application.Client
import LineEditor.Proofs.Keys.Extension
import LineEditor.Proofs.Session.Entering

/-!
# A sitting at the shell

The shell as its user knows it: what was typed and not yet dealt with, the entry of the line that is
asked for, the history, and all that has been written. Nothing else is needed to tell how a sitting
goes on. `Desk.react` deals with one event up to the point where the next can be taken, a completed
line and the reply to it included; `Desk.drain` deals with all events that have been typed, and
`Desk.type` with a text that is typed in addition. `Desk.evaluated` lists the lines that are
evaluated meanwhile, and they tell when the shell comes to its end (`Desk.isOver_drain`).

It makes no difference whether a text is typed at once or in pieces (`Desk.type_type`), and once a
line has been the end of the shell, typing writes nothing (`Desk.output_type_of_over`).
-/

namespace LineEditor.Application

/-- What stays the same during a sitting. -/
structure Desk where
  /-- The prompt of a logical line. -/
  prompt : List Char
  /-- The prompt of further physical lines. -/
  continuation : List Char
  /-- The editing functions that keys are bound to. -/
  functions : FunctionTable

/-- How far a sitting has come. -/
structure Sitting where
  /-- The entry of the line that is asked for. Without one the shell has come to its end. -/
  entry? : Option (Entry Handler) := none
  /-- The number of the next request. -/
  nextId : Nat := 0
  /-- What was typed and not yet dealt with. -/
  decoder : Keys.Decoder
  /-- The lines that were entered. -/
  history : History
  /-- All that has been written. -/
  output : List Char := []

/-- What is written of a text that a line has put out: its lines, and a new row below them. Nothing
is written of an empty text. -/
def shown (text : List Char) : List Char := if text.isEmpty then [] else onRows text ++ newRow

namespace Sitting

/-- The shell has come to its end. -/
abbrev IsOver (s : Sitting) : Prop := s.entry? = none

theorem not_isOver {s : Sitting} {entry : Entry Handler} (hentry : s.entry? = some entry) :
    ¬ s.IsOver := by
  intro hover
  rw [hover] at hentry
  cases hentry

/-- The sitting when more has been typed. -/
def append (s : Sitting) (text : List Char) : Sitting := { s with decoder := s.decoder.append text }

/-- The entry belongs to a request of the shell's. -/
def Fits (s : Sitting) (request : Request Handler) : Prop :=
  ∀ entry ∈ s.entry?, entry.request = request

end Sitting

namespace Desk

variable (desk : Desk)

/-- The request of a line. -/
def request : Request Handler where
  prompt := desk.prompt
  onLine := .line desk.prompt
  onComplete? := some .commandWord

/-- A line is asked for. -/
def ask (s : Sitting) : Sitting where
  entry? := some { id := s.nextId, request := desk.request }
  nextId := s.nextId + 1
  decoder := s.decoder
  history := s.history
  output := s.output ++ desk.prompt

/-- A completed line is entered into the history and evaluated. Its reply is shown, and the next
line is asked for, unless the reply is the end of the shell. -/
def enter (s : Sitting) (line : List Char) : Sitting :=
  let history := s.history.push line
  match Shell.evaluate line history with
  | .output text =>
    desk.ask { s with entry? := none, history, output := s.output ++ shown text }
  | .exit => { s with entry? := none, history }

/-- A word is completed: the entry after it, and what is written. -/
def complete (entry : Entry Handler) (snapshot : Snapshot) : Entry Handler × List Char :=
  match Shell.offer snapshot.line snapshot.word with
  | .nothing => (entry, [])
  | .insertion text terminal =>
    if (World.unsupported? text).isSome then (entry, [])
    else
      let line := entry.line.insert (snapshot.context.literally terminal text)
      ({ entry with line }, entry.line.redraw line)
  | .listing text =>
    (entry, newRow ++ text ++ (entry.prompt desk.continuation ++ Line.empty.redraw entry.line))

/-- An event is dealt with, and all that follows from it. -/
def react (s : Sitting) (entry : Entry Handler) (event : KeyEvent) : Sitting :=
  let handled := entry.handle desk.functions s.history desk.continuation event
  let s := { s with history := handled.history, output := s.output ++ handled.written }
  match handled.outcome with
  | .goesOn => { s with entry? := some handled.entry }
  | .submitted line => desk.enter s line
  | .asked _ snapshot =>
    { s with
      entry? := some (desk.complete handled.entry snapshot).1
      output := s.output ++ (desk.complete handled.entry snapshot).2 }

@[simp]
theorem decoder_enter (s : Sitting) (line : List Char) :
    (desk.enter s line).decoder = s.decoder := by
  unfold enter
  dsimp only
  split <;> rfl

@[simp]
theorem decoder_react (s : Sitting) (entry : Entry Handler) (event : KeyEvent) :
    (desk.react s entry event).decoder = s.decoder := by
  unfold react
  dsimp only
  split
  · rfl
  · exact decoder_enter ..
  · rfl

/-- All events that have been typed are dealt with, one after another. -/
def drain (s : Sitting) : Sitting :=
  match s.entry? with
  | none => s
  | some entry =>
    match _h : s.decoder.next? with
    | none => s
    | some (event, decoder) => drain (desk.react { s with decoder } entry event)
termination_by s.decoder.pending.length
decreasing_by
  rw [decoder_react]
  exact Keys.Decoder.length_lt_of_next _h

/-- The line that an event completes, with the history that it is evaluated with. -/
def completed (handled : Handled Handler) : List (List Char × History) :=
  match handled.outcome with
  | .submitted line => [(line, handled.history.push line)]
  | _ => []

/-- The lines that are evaluated while all events that have been typed are dealt with, each with the
history at its evaluation. -/
def evaluated (s : Sitting) : List (List Char × History) :=
  match s.entry? with
  | none => []
  | some entry =>
    match _h : s.decoder.next? with
    | none => []
    | some (event, decoder) =>
      completed (entry.handle desk.functions s.history desk.continuation event) ++
        evaluated (desk.react { s with decoder } entry event)
termination_by s.decoder.pending.length
decreasing_by
  rw [decoder_react]
  exact Keys.Decoder.length_lt_of_next _h

/-- A text is typed, and dealt with. -/
def type (s : Sitting) (text : List Char) : Sitting := desk.drain (s.append text)

variable {desk} {s : Sitting} {entry : Entry Handler} {event : KeyEvent} {decoder : Keys.Decoder}

theorem react_goesOn {handled : Handled Handler}
    (hhandled : entry.handle desk.functions s.history desk.continuation event = handled)
    (houtcome : handled.outcome = .goesOn) :
    desk.react s entry event =
      { s with
        entry? := some handled.entry
        history := handled.history
        output := s.output ++ handled.written } := by
  unfold react
  rw [hhandled]
  dsimp only
  rw [houtcome]

theorem react_submitted {handled : Handled Handler} {line : List Char}
    (hhandled : entry.handle desk.functions s.history desk.continuation event = handled)
    (houtcome : handled.outcome = .submitted line) :
    desk.react s entry event =
      desk.enter { s with history := handled.history, output := s.output ++ handled.written }
        line := by
  unfold react
  rw [hhandled]
  dsimp only
  rw [houtcome]

theorem react_asked {handled : Handled Handler} {handler : Handler} {snapshot : Snapshot}
    (hhandled : entry.handle desk.functions s.history desk.continuation event = handled)
    (houtcome : handled.outcome = .asked handler snapshot) :
    desk.react s entry event =
      { s with
        entry? := some (desk.complete handled.entry snapshot).1
        history := handled.history
        output := s.output ++ handled.written ++ (desk.complete handled.entry snapshot).2 } := by
  unfold react
  rw [hhandled]
  dsimp only
  rw [houtcome]

/-! ### Draining -/

theorem drain_of_over (h : s.IsOver) : desk.drain s = s := by
  rw [drain, h]

theorem drain_of_waits (h : s.decoder.next? = none) : desk.drain s = s := by
  rw [drain]
  split
  · rfl
  · split
    · rfl
    · rename_i hnext
      rw [h] at hnext
      cases hnext

theorem drain_of_next (hentry : s.entry? = some entry)
    (hnext : s.decoder.next? = some (event, decoder)) :
    desk.drain s = desk.drain (desk.react { s with decoder } entry event) := by
  rw [drain, hentry]
  dsimp only
  split
  · rename_i hnone
    rw [hnext] at hnone
    cases hnone
  · rename_i hsome
    rw [hnext] at hsome
    cases hsome
    rfl

/-- What has been drained has nothing more to deal with. -/
theorem drain_drain (desk : Desk) (s : Sitting) : desk.drain (desk.drain s) = desk.drain s := by
  fun_induction drain desk s with
  | case1 s hentry => exact drain_of_over hentry
  | case2 s entry hentry hnext => exact drain_of_waits hnext
  | case3 s entry hentry event decoder hnext ih => exact ih

/-! ### Typing in pieces -/

theorem react_append (s : Sitting) (entry : Entry Handler) (event : KeyEvent) (text : List Char) :
    desk.react (s.append text) entry event = (desk.react s entry event).append text := by
  unfold react
  dsimp only [Sitting.append]
  split
  · rfl
  · unfold enter
    dsimp only
    split <;> rfl
  · rfl

/-- It makes no difference whether what has been typed first has been dealt with. -/
theorem drain_append (desk : Desk) (s : Sitting) (text : List Char) :
    desk.drain ((desk.drain s).append text) = desk.drain (s.append text) := by
  fun_induction drain desk s with
  | case1 s hentry => rfl
  | case2 s entry hentry hnext => rfl
  | case3 s entry hentry event decoder hnext ih =>
    -- an event that has been decoded is decoded all the same when more comes
    have hlater : (s.append text).decoder.next? = some (event, decoder.append text) :=
      Keys.Decoder.next?_append hnext text
    have hentry' : Sitting.entry? (s.append text) = some entry := hentry
    rw [ih, drain_of_next hentry' hlater, ← react_append]
    rfl

/-- **Typing in pieces** is typing at once. -/
theorem type_type (desk : Desk) (s : Sitting) (first second : List Char) :
    desk.type (desk.type s first) second = desk.type s (first ++ second) := by
  have happend : (s.append first).append second = s.append (first ++ second) :=
    congrArg (fun decoder => { s with decoder }) (Keys.Decoder.append_append ..)
  rw [type, type, type, drain_append, happend]

@[simp]
theorem append_nil (s : Sitting) : s.append [] = s :=
  congrArg (fun decoder => { s with decoder }) (Keys.Decoder.append_nil ..)

theorem type_nil (desk : Desk) (s : Sitting) : desk.type s [] = desk.drain s := by
  rw [type, append_nil]

/-- What has been typed has been dealt with. -/
theorem drain_type (desk : Desk) (s : Sitting) (text : List Char) :
    desk.drain (desk.type s text) = desk.type s text :=
  drain_drain desk _

/-! ### The end of the shell -/

theorem type_of_over (h : s.IsOver) (text : List Char) : desk.type s text = s.append text :=
  drain_of_over h

/-- Once the shell has come to its end, nothing is written. -/
theorem output_type_of_over (h : s.IsOver) (text : List Char) :
    (desk.type s text).output = s.output := by
  rw [type_of_over h]
  rfl

/-- A completed line brings the shell to its end exactly if its reply says so. -/
theorem isOver_enter (desk : Desk) (s : Sitting) (line : List Char) :
    (desk.enter s line).IsOver ↔ Shell.evaluate line (s.history.push line) = .exit := by
  unfold enter
  dsimp only
  cases hreply : Shell.evaluate line (s.history.push line) with
  | output text => simp [ask]
  | exit => simp

/-- An event brings the shell to its end exactly if it completes a line whose reply says so. -/
theorem isOver_react (desk : Desk) (s : Sitting) (entry : Entry Handler)
    (event : KeyEvent) :
    (desk.react s entry event).IsOver ↔
      ∃ e ∈ completed (entry.handle desk.functions s.history desk.continuation event),
        Shell.evaluate e.1 e.2 = .exit := by
  unfold react completed
  dsimp only
  cases (entry.handle desk.functions s.history desk.continuation event).outcome with
  | goesOn => simp
  | submitted line =>
    dsimp only
    rw [isOver_enter]
    simp
  | asked handler snapshot => simp

/-- The shell has come to its end exactly when a line has been evaluated whose reply says so. -/
theorem isOver_drain (desk : Desk) (s : Sitting) :
    (desk.drain s).IsOver ↔
      s.IsOver ∨ ∃ e ∈ desk.evaluated s, Shell.evaluate e.1 e.2 = .exit := by
  fun_induction drain desk s with
  | case1 s hentry => exact iff_of_true hentry (.inl hentry)
  | case2 s entry hentry hnext =>
    have hnone : desk.evaluated s = [] := by
      rw [evaluated, hentry]
      dsimp only
      split
      · rfl
      · rename_i hsome
        rw [hnext] at hsome
        cases hsome
    rw [hnone]
    simp
  | case3 s entry hentry event decoder hnext ih =>
    have hfirst : desk.evaluated s =
        completed (entry.handle desk.functions s.history desk.continuation event) ++
          desk.evaluated (desk.react { s with decoder } entry event) := by
      rw [evaluated, hentry]
      dsimp only
      split
      · rename_i hnone
        rw [hnext] at hnone
        cases hnone
      · rename_i hsome
        rw [hnext] at hsome
        cases hsome
        rfl
    have hlive : ¬ s.IsOver := Sitting.not_isOver hentry
    rw [ih, isOver_react, or_iff_right hlive, hfirst]
    simp only [List.mem_append, or_and_right, exists_or]

/-! ### The requests -/

theorem fits_enter (desk : Desk) (s : Sitting) (line : List Char) :
    (desk.enter s line).Fits desk.request := by
  unfold enter
  dsimp only
  split
  · rintro entry ⟨⟩
    rfl
  · exact nofun

theorem request_complete (desk : Desk) (entry : Entry Handler) (snapshot : Snapshot) :
    (desk.complete entry snapshot).1.request = entry.request := by
  unfold complete
  split
  · rfl
  · split <;> rfl
  · rfl

/-- Every request is the shell's own. -/
theorem fits_react (hrequest : entry.request = desk.request) :
    (desk.react s entry event).Fits desk.request := by
  unfold react
  dsimp only
  split
  · rintro _ ⟨⟩
    exact (Entry.request_handle ..).trans hrequest
  · exact fits_enter desk _ _
  · rintro _ ⟨⟩
    rw [request_complete]
    exact (Entry.request_handle ..).trans hrequest

theorem fits_drain (hfits : s.Fits desk.request) : (desk.drain s).Fits desk.request := by
  fun_induction drain desk s with
  | case1 s hentry => exact hfits
  | case2 s entry hentry hnext => exact hfits
  | case3 s entry hentry event decoder hnext ih => exact ih (fits_react (hfits entry hentry))

theorem fits_type (hfits : s.Fits desk.request) (text : List Char) :
    (desk.type s text).Fits desk.request :=
  fits_drain hfits

end Desk

end LineEditor.Application
