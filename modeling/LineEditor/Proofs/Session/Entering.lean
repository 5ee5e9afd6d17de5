import LineEditor.Proofs.Lists
import LineEditor.Session.Entry
import LineEditor.Text.Width.Table

/-!
# The first complete text

An entry ends with the first Enter key at which nothing is open in all that was entered. It never
looks at all that was entered: its reader reads each physical line once, at the Enter key that ends
it, and a line feed after it, while the logical line is put together from the lines themselves.
`Entry.InStep` says that the two agree, and `Entry.InStep.handle` that every event keeps it.

`Entry.handlings` lists the events that an entry handles, up to the one that submits the line;
between them anything may be put into the line. `Entry.submits_first_complete` says of each of them
what it comes to, in terms of the texts at the Enter keys so far alone.
-/

namespace LineEditor

open Quoting (Reader unquote)

variable {κ : Type}

/-! ### Physical lines -/

/-- Some physical lines read from the beginning, with a line feed between each two of them. -/
def readLines (lines : List (List Char)) : Reader :=
  ({} : Reader).feed (List.intercalate ['\n'] lines)

theorem output_readLines (lines : List (List Char)) :
    (readLines lines).output = unquote (List.intercalate ['\n'] lines) :=
  Reader.output_feed_empty _

namespace Entry

variable {e : Entry κ} {functions : FunctionTable} {history : History} {continuation : List Char}
  {event : KeyEvent}

/-- The reader has read every ended line, and a line feed after each. -/
def InStep (e : Entry κ) : Prop := e.reader = ({} : Reader).feed (e.lines.flatMap (· ++ ['\n']))

/-- With the ended lines the reader has read the beginning of all that was entered. -/
theorem InStep.feed (h : e.InStep) (text : List Char) :
    e.reader.feed text = readLines (e.lines ++ [text]) := by
  rw [readLines, intercalate_concat, Reader.feed_append, ← h]

theorem inStep_fresh (id : Nat) (r : Request κ) : ({ id, request := r } : Entry κ).InStep :=
  (Reader.feed_nil _).symm

/-- The line that is edited has not been read. -/
theorem InStep.line (h : e.InStep) (line : Line) : ({ e with line } : Entry κ).InStep := h

/-! ### What an event comes to -/

section Events

variable [Text.Widths]

/-- Every event is Enter, or Tab, or edits the line. -/
theorem handle_cases (e : Entry κ) (functions : FunctionTable) (history : History)
    (continuation : List Char) (event : KeyEvent) :
    event = .key [Keys.enter] ∧
        e.handle functions history continuation event = e.enter history continuation ∨
      event = .key [Keys.tab] ∧
        e.handle functions history continuation event = e.complete history ∨
      event ≠ .key [Keys.enter] ∧ event ≠ .key [Keys.tab] ∧ ∃ history' line,
        e.handle functions history continuation event = e.edited history' line := by
  cases event with
  | key text =>
    by_cases henter : text = [Keys.enter]
    · exact .inl ⟨by rw [henter], by rw [handle, if_pos henter]⟩
    by_cases htab : text = [Keys.tab]
    · exact .inr (.inl ⟨by rw [htab], by rw [handle, if_neg henter, if_pos htab]⟩)
    refine .inr (.inr ⟨by simpa using henter, by simpa using htab, history, e.line.insert text, ?_⟩)
    rw [handle, if_neg henter, if_neg htab]
  | function name =>
    refine .inr (.inr ⟨nofun, nofun, ?_⟩)
    cases hfunction : functions.get? name with
    | none => exact ⟨history, e.line, by rw [handle, hfunction]⟩
    | some f => exact ⟨_, _, by rw [handle, hfunction]⟩

/-- An entry stays the entry of its request, whatever the event. -/
theorem keeps_handle (e : Entry κ) (functions : FunctionTable) (history : History)
    (continuation : List Char) (event : KeyEvent) :
    (e.handle functions history continuation event).entry.id = e.id ∧
      (e.handle functions history continuation event).entry.request = e.request := by
  obtain ⟨-, hhandle⟩ | ⟨-, hhandle⟩ | ⟨-, -, history', line, hhandle⟩ :=
    e.handle_cases functions history continuation event
  · rw [hhandle, enter]
    split <;> exact ⟨rfl, rfl⟩
  · rw [hhandle]
    exact ⟨rfl, rfl⟩
  · rw [hhandle]
    exact ⟨rfl, rfl⟩

/-- No event changes the number of an entry. -/
theorem id_handle (e : Entry κ) (functions : FunctionTable) (history : History)
    (continuation : List Char) (event : KeyEvent) :
    (e.handle functions history continuation event).entry.id = e.id :=
  (e.keeps_handle ..).1

/-- No event changes the request of an entry. -/
theorem request_handle (e : Entry κ) (functions : FunctionTable) (history : History)
    (continuation : List Char) (event : KeyEvent) :
    (e.handle functions history continuation event).entry.request = e.request :=
  (e.keeps_handle ..).2

/-- An event that begins a completion changes nothing and writes nothing: a snapshot is taken. -/
theorem handle_asked {handled : Handled κ} {handler : κ} {snapshot : Snapshot}
    (hhandled : e.handle functions history continuation event = handled)
    (hasked : handled.outcome = .asked handler snapshot) :
    handled.entry = e ∧ handled.written = [] ∧ snapshot = e.snapshot := by
  subst hhandled
  obtain ⟨-, hhandle⟩ | ⟨-, hhandle⟩ | ⟨-, -, history', line, hhandle⟩ :=
    e.handle_cases functions history continuation event
  · rw [hhandle, enter] at hasked
    split at hasked <;> cases hasked
  · rw [hhandle] at hasked ⊢
    refine ⟨rfl, rfl, ?_⟩
    rw [complete] at hasked
    split at hasked
    · cases hasked
      rfl
    · cases hasked
  · rw [hhandle] at hasked
    cases hasked

/-- Whoever is asked to complete a word is the request's handler of completions. -/
theorem onComplete?_of_asked {handled : Handled κ} {handler : κ} {snapshot : Snapshot}
    (hhandled : e.handle functions history continuation event = handled)
    (hasked : handled.outcome = .asked handler snapshot) :
    e.request.onComplete? = some handler := by
  subst hhandled
  obtain ⟨-, hhandle⟩ | ⟨-, hhandle⟩ | ⟨-, -, history', line, hhandle⟩ :=
    e.handle_cases functions history continuation event
  · rw [hhandle, enter] at hasked
    split at hasked <;> cases hasked
  · rw [hhandle, complete] at hasked
    split at hasked
    · rename_i handler' hsome
      cases hasked
      exact hsome
    · cases hasked
  · rw [hhandle] at hasked
    cases hasked

omit [Text.Widths] in
/-- Enter at a text that leaves a quote or an escape open goes on with an empty line. -/
theorem InStep.enter_of_pending (h : e.InStep)
    (hpending : (readLines (e.lines ++ [e.line.text])).pending = true) :
    e.enter history continuation =
      { entry :=
          { e with
            lines := e.lines ++ [e.line.text]
            line := .empty
            reader := (readLines (e.lines ++ [e.line.text])).feed ['\n'] }
        history
        written := newRow ++ continuation
        outcome := .goesOn } := by
  rw [enter, h.feed, if_pos hpending]

omit [Text.Widths] in
/-- Enter at a complete text submits it as it was entered. -/
theorem InStep.enter_of_complete (h : e.InStep)
    (hcomplete : (readLines (e.lines ++ [e.line.text])).pending = false) :
    e.enter history continuation =
      { entry := { e with lines := [], line := .empty, reader := {} }
        history
        written := newRow
        outcome := .submitted (List.intercalate ['\n'] (e.lines ++ [e.line.text])) } := by
  rw [enter, h.feed, if_neg (by simp [hcomplete])]

/-- **Step lemma.** Every event keeps the reader in step with the ended lines. -/
theorem InStep.handle (h : e.InStep) (functions : FunctionTable) (history : History)
    (continuation : List Char) (event : KeyEvent) :
    (e.handle functions history continuation event).entry.InStep := by
  obtain ⟨-, hhandle⟩ | ⟨-, hhandle⟩ | ⟨-, -, history', line, hhandle⟩ :=
    e.handle_cases functions history continuation event
  · rw [hhandle]
    cases hpending : (readLines (e.lines ++ [e.line.text])).pending with
    | false =>
      rw [h.enter_of_complete hpending]
      exact (Reader.feed_nil _).symm
    | true =>
      rw [h.enter_of_pending hpending, InStep, readLines, intercalate_concat, ← Reader.feed_append]
      simp
  · rw [hhandle]
    exact h
  · rw [hhandle]
    exact h.line line

/-- An event other than Enter leaves the ended lines, and submits nothing. -/
theorem handle_of_ne_enter (hne : event ≠ .key [Keys.enter]) :
    (e.handle functions history continuation event).entry.lines = e.lines ∧
      ∀ line, (e.handle functions history continuation event).outcome ≠ .submitted line := by
  obtain ⟨henter, -⟩ | ⟨-, hhandle⟩ | ⟨-, -, history', line, hhandle⟩ :=
    e.handle_cases functions history continuation event
  · exact absurd henter hne
  · rw [hhandle]
    refine ⟨rfl, fun line => ?_⟩
    rw [complete]
    split <;> exact nofun
  · rw [hhandle]
    exact ⟨rfl, nofun⟩

end Events

end Entry

/-! ### A whole entry -/

section Whole

variable [Text.Widths]

/-- An event, with what the session has at that moment. -/
structure Stroke where
  /-- The editing functions. -/
  functions : FunctionTable
  /-- The history. -/
  history : History
  /-- The prompt of further lines. -/
  continuation : List Char
  /-- The event. -/
  event : KeyEvent

/-- What an entry meets. -/
inductive Happening where
  /-- An event. -/
  | stroke (stroke : Stroke)
  /-- A completion puts text in before the cursor. -/
  | inserted (text : List Char)

/-- An event that an entry handles. -/
structure Handling (κ : Type) extends Stroke where
  /-- The entry before the event. -/
  entry : Entry κ

namespace Handling

/-- What comes of the event. -/
def handled (h : Handling κ) : Handled κ :=
  h.entry.handle h.functions h.history h.continuation h.event

/-- The event is the Enter key. -/
abbrev IsEnter (h : Handling κ) : Prop := h.event = .key [Keys.enter]

/-- The text that the event finds in the line, if it is the Enter key. -/
def text? (h : Handling κ) : Option (List Char) :=
  if h.IsEnter then some h.entry.line.text else none

/-- The logical line that the event submits, if it does. -/
def line? (h : Handling κ) : Option (List Char) :=
  match h.handled.outcome with
  | .submitted line => some line
  | _ => none

end Handling

/-- The texts that the Enter keys among some events have found in the line. -/
def entered (handlings : List (Handling κ)) : List (List Char) :=
  handlings.filterMap Handling.text?

/-- The events that an entry handles: all that it meets, or those up to the one that submits. -/
def Entry.handlings (e : Entry κ) : List Happening → List (Handling κ)
  | [] => []
  | .inserted text :: rest => ({ e with line := e.line.insert text } : Entry κ).handlings rest
  | .stroke stroke :: rest =>
    let handling : Handling κ := { stroke with entry := e }
    handling :: if handling.line?.isSome then [] else handling.handled.entry.handlings rest

/-- What an event comes to, by the texts at the Enter keys up to it. -/
structure Handling.Follows (h : Handling κ) (earlier later : List (Handling κ)) : Prop where
  /-- Nothing has been submitted before. -/
  first : ∀ g ∈ earlier, g.line? = none
  /-- The ended lines are the texts that Enter has found. -/
  lines : h.entry.lines = entered earlier
  /-- It submits exactly when it is Enter and the texts so far leave nothing open. -/
  submits : h.line?.isSome ↔ h.IsEnter ∧ (readLines (entered (earlier ++ [h]))).pending = false
  /-- What it submits are these texts as they are, read before bit by bit, and nothing is handled
  afterwards. -/
  submitted : ∀ line, h.line? = some line →
    line = List.intercalate ['\n'] (entered (earlier ++ [h])) ∧
      unquote line = (h.entry.reader.feed h.entry.line.text).output ∧
      h.handled.written = newRow ∧ later = []
  /-- At any other Enter the user goes on with an empty line below, behind the prompt of further
  lines. -/
  goesOn : h.IsEnter → (readLines (entered (earlier ++ [h]))).pending = true →
    h.handled.outcome = .goesOn ∧ h.handled.written = newRow ++ h.continuation ∧
      h.handled.entry.line = .empty ∧ h.handled.entry.lines = entered (earlier ++ [h])
  /-- At Tab the handler of completions is handed what the texts so far and the line stand for. -/
  asked : h.event = .key [Keys.tab] → ∀ handler, h.entry.request.onComplete? = some handler →
    ∃ snapshot, h.handled.outcome = .asked handler snapshot ∧
      snapshot.line = unquote (List.intercalate ['\n'] (entered earlier ++ [h.entry.line.text]))

section Entered

variable {h : Handling κ} {earlier later : List (Handling κ)}

omit [Text.Widths] in
@[simp]
theorem entered_append (earlier later : List (Handling κ)) :
    entered (earlier ++ later) = entered earlier ++ entered later :=
  List.filterMap_append

omit [Text.Widths] in
theorem entered_of_isEnter (henter : h.IsEnter) : entered [h] = [h.entry.line.text] := by
  have htext : h.text? = some h.entry.line.text := if_pos henter
  rw [entered, List.filterMap_cons_some htext, List.filterMap_nil]

omit [Text.Widths] in
theorem entered_of_not_isEnter (hother : ¬ h.IsEnter) : entered [h] = [] := by
  have htext : h.text? = none := if_neg hother
  rw [entered, List.filterMap_cons_none htext, List.filterMap_nil]

theorem Handling.handled_of_isEnter (henter : h.IsEnter) :
    h.handled = h.entry.enter h.history h.continuation := by
  rw [handled, henter, Entry.handle, if_pos rfl]

/-- An event other than Enter submits nothing. -/
theorem Handling.line?_of_not_isEnter (hother : ¬ h.IsEnter) : h.line? = none := by
  have hnot : ∀ line, h.handled.outcome ≠ .submitted line := (Entry.handle_of_ne_enter hother).2
  rw [line?]
  split
  · exact absurd ‹_› (hnot _)
  · rfl

/-- An event that does not submit leaves the ended lines, with the text of the Enter key added, if
it was one. -/
theorem Handling.lines_handled (hstep : h.entry.InStep) (hnone : h.line? = none) :
    h.handled.entry.lines = h.entry.lines ++ entered [h] := by
  by_cases henter : h.IsEnter
  · rw [entered_of_isEnter henter, handled_of_isEnter henter]
    cases hpending : (readLines (h.entry.lines ++ [h.entry.line.text])).pending with
    | false =>
      rw [line?, handled_of_isEnter henter, hstep.enter_of_complete hpending] at hnone
      cases hnone
    | true => rw [hstep.enter_of_pending hpending]
  · rw [entered_of_not_isEnter henter, List.append_nil]
    exact (Entry.handle_of_ne_enter henter).1

/-- **Run lemma.** While nothing has been submitted the reader is in step with the ended lines, and
these are the texts at the Enter keys. -/
theorem Entry.InStep.handlings {e : Entry κ} (hstep : e.InStep) {happenings : List Happening}
    (hlist : e.handlings happenings = earlier ++ h :: later) :
    h.entry.InStep ∧ h.entry.lines = e.lines ++ entered earlier ∧
      (∀ g ∈ earlier, g.line? = none) ∧ (h.line?.isSome → later = []) := by
  induction happenings generalizing e earlier with
  | nil => simp [Entry.handlings] at hlist
  | cons happening rest ih =>
    cases happening with
    | inserted text =>
      rw [Entry.handlings] at hlist
      exact ih (e := { e with line := e.line.insert text }) (hstep.line _) hlist
    | stroke stroke =>
      rw [Entry.handlings] at hlist
      cases earlier with
      | nil =>
        obtain ⟨rfl, rfl⟩ := List.cons.inj hlist
        refine ⟨hstep, (List.append_nil _).symm, by simp, fun hsubmits => ?_⟩
        rw [if_pos hsubmits]
      | cons g earlier =>
        obtain ⟨rfl, hrest⟩ := List.cons.inj hlist
        split at hrest
        · simp at hrest
        · -- the entry after the event goes on as a fresh one does
          rename_i hnone
          rw [Option.not_isSome_iff_eq_none] at hnone
          obtain ⟨hstep', hlines, hfirst, hlast⟩ := ih (hstep.handle ..) hrest
          refine ⟨hstep', ?_, List.forall_mem_cons.2 ⟨hnone, hfirst⟩, hlast⟩
          rw [hlines, ← List.singleton_append, entered_append, ← List.append_assoc]
          exact congrArg (· ++ _) (Handling.lines_handled hstep hnone)

end Entered

/-- **The first complete text.** Whatever a fresh entry meets, each event that it handles comes to
what the texts at the Enter keys so far call for. -/
theorem Entry.submits_first_complete (id : Nat) (r : Request κ) (happenings : List Happening)
    (earlier later : List (Handling κ)) (h : Handling κ)
    (hlist : ({ id, request := r } : Entry κ).handlings happenings = earlier ++ h :: later) :
    h.Follows earlier later := by
  obtain ⟨hstep, hlines, hfirst, hlast⟩ := (Entry.inStep_fresh id r).handlings hlist
  rw [List.nil_append] at hlines
  -- the texts up to an Enter key are what the entry holds there
  have htexts : h.IsEnter → entered (earlier ++ [h]) = h.entry.lines ++ [h.entry.line.text] := by
    intro henter
    rw [entered_append, entered_of_isEnter henter, hlines]
  refine
    { first := hfirst
      lines := hlines
      submits := ?submits
      submitted := ?submitted
      goesOn := ?goesOn
      asked := ?asked }
  case submits =>
    by_cases henter : h.IsEnter
    · rw [htexts henter, Handling.line?, Handling.handled_of_isEnter henter]
      cases hpending : (readLines (h.entry.lines ++ [h.entry.line.text])).pending with
      | false =>
        rw [hstep.enter_of_complete hpending]
        exact ⟨fun _ => ⟨henter, rfl⟩, fun _ => rfl⟩
      | true =>
        rw [hstep.enter_of_pending hpending]
        exact ⟨nofun, nofun⟩
    · rw [Handling.line?_of_not_isEnter henter]
      exact ⟨nofun, fun h => absurd h.1 henter⟩
  case submitted =>
    intro line hline
    -- only Enter submits, and only at a complete text
    have henter : h.IsEnter := by
      by_contra hother
      rw [Handling.line?_of_not_isEnter hother] at hline
      cases hline
    have hlater : later = [] := hlast (by rw [hline]; rfl)
    rw [Handling.line?, Handling.handled_of_isEnter henter] at hline
    rw [htexts henter, hstep.feed, output_readLines, Handling.handled_of_isEnter henter]
    cases hpending : (readLines (h.entry.lines ++ [h.entry.line.text])).pending with
    | true =>
      rw [hstep.enter_of_pending hpending] at hline
      cases hline
    | false =>
      rw [hstep.enter_of_complete hpending] at hline ⊢
      cases hline
      exact ⟨rfl, rfl, rfl, hlater⟩
  case goesOn =>
    intro henter hpending
    rw [htexts henter] at hpending ⊢
    rw [Handling.handled_of_isEnter henter, hstep.enter_of_pending hpending]
    exact ⟨rfl, rfl, rfl, rfl⟩
  case asked =>
    intro htab handler hhandler
    refine ⟨h.entry.snapshot, ?_, ?_⟩
    · have hhandled : h.handled = h.entry.complete h.history := by
        rw [Handling.handled, htab]
        rfl
      simp only [hhandled, Entry.complete, hhandler]
    · rw [← hlines, ← output_readLines, ← hstep.feed]
      rfl

end Whole

/-- A request with completions. -/
private def lineRequest : Request Unit := { prompt := ['>'], onLine := (), onComplete? := some () }

/-- A quote that is opened on one line and closed on the next, with a completion in between. -/
private def quotedTwoLines : List Happening :=
  let event (event : KeyEvent) : Happening :=
    .stroke { functions := {}, history := .initial, continuation := ['+'], event }
  [event (.key ['"', 'a']), event (.key [Keys.enter]), event (.key [Keys.tab]), .inserted ['b'],
    event (.key ['"']), event (.key [Keys.enter]), event (.key ['c'])]

/-- What a fresh entry handles of them. -/
private def twoLines : List (Handling Unit) :=
  ({ id := 0, request := lineRequest } : Entry Unit).handlings quotedTwoLines

/-- The Enter key that submits these lines. -/
private def secondEnter : Handling Unit :=
  { functions := {}
    history := .initial
    continuation := ['+']
    event := .key [Keys.enter]
    entry :=
      { id := 0
        request := lineRequest
        lines := [['"', 'a']]
        line := .ofText ['b', '"']
        reader := { context := { mode := .weak }, output := ['a', '\n'] } } }

/-- The second Enter submits both lines, and the character after it is not handled. -/
theorem Entry.submits_first_complete_secondEnter :
    twoLines = twoLines.take 4 ++ secondEnter :: [] ∧
      secondEnter.line? = some ['"', 'a', '\n', 'b', '"'] ∧
      secondEnter.Follows (twoLines.take 4) [] :=
  ⟨rfl, by decide, Entry.submits_first_complete 0 lineRequest quotedTwoLines _ _ _ rfl⟩

end LineEditor
