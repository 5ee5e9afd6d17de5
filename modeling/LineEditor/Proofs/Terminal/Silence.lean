import LineEditor.Proofs.Terminal.Coherence
import LineEditor.Proofs.Terminal.Redraw

/-!
# Changes that the terminal is not told

`Line.redraw` compares two lines character by character, but what it blanks and how far it goes back
it counts in columns. The two agree on what there is to do, save for characters that take no column:
when these are the last ones of a line and go, there is nothing to write and nothing to blank
(`Line.Fades`), and an accent stays on the terminal. `Line.redraw_eq_nil_iff` says that this is the
only change of a text for which nothing is sent.

A key never makes such a change, since what it puts in makes the line longer, and Enter begins a new
row. So it takes an editing function (`World.tells_changes`), such as the one that deletes the
character before the cursor (`World.keeps_deleted_accent`).
-/

namespace LineEditor

open Terminal.Screen (take_commonLength width_take_add_drop)
open Text (isControl width)

variable {κ ν : Type}

/-! ### Between two lines -/

/-- What two texts have in common is no longer than the second one. -/
theorem commonLength_le_length_right (s t : List Char) : commonLength s t ≤ t.length := by
  obtain ⟨shared, -, hshared, hlength⟩ := (isGreatest_commonLength s t).1
  rw [← hlength]
  exact hshared.length_le

theorem backspaces_eq_nil_iff {columns : Nat} : backspaces columns = [] ↔ columns = 0 :=
  List.replicate_eq_nil_iff '\x08'

theorem erase_eq_nil_iff {columns : Nat} : erase columns = [] ↔ columns = 0 := by
  rw [erase, List.append_eq_nil_iff, backspaces_eq_nil_iff, List.replicate_eq_nil_iff, and_self]

section Widths

variable [Text.Widths]

namespace Line

variable {old new : Line}

/-- A line loses its last characters without a trace: they take no column, the cursor is not before
them, and behind its new place there is no column either. -/
structure Fades (old new : Line) : Prop where
  lost : ∃ lost, lost ≠ [] ∧ old.text = new.text ++ lost ∧ width lost = 0
  cursor : new.text.length ≤ old.cursor
  after : width new.after = 0

theorem Fades.redraw_eq_nil (h : old.Fades new) : old.redraw new = [] := by
  obtain ⟨lost, hne, htext, hwidth⟩ := h.lost
  have hdiffer : old.text ≠ new.text := by
    rw [htext]
    exact fun hsame => hne (List.append_right_eq_self.1 hsame)
  have hstart : min (commonLength old.text new.text) old.cursor = new.text.length := by
    have hcommon : new.text.length ≤ commonLength old.text new.text :=
      length_le_commonLength ⟨lost, htext.symm⟩ List.prefix_rfl
    have hcursor := h.cursor
    have hright := commonLength_le_length_right old.text new.text
    omega
  have hbehind : old.text.drop new.text.length = lost := by rw [htext, List.drop_left]
  -- what the cursor goes back over is lost as well
  have hover : width ((old.text.take old.cursor).drop new.text.length) = 0 := by
    have hparts := width_take_add_drop (old.cursor - new.text.length) lost
    rw [List.drop_take, hbehind]
    omega
  rw [redraw, if_neg hdiffer, hstart]
  simp only [hover, hbehind, hwidth, h.after, List.drop_length, Nat.zero_sub]
  rfl

/-- A text that is changed without anything to send has lost its last characters. -/
theorem fades_of_redraw_eq_nil (hdiffer : old.text ≠ new.text) (h : old.redraw new = []) :
    old.Fades new := by
  rw [redraw, if_neg hdiffer] at h
  dsimp only at h
  generalize hstart : min (commonLength old.text new.text) old.cursor = start at h
  simp only [List.append_eq_nil_iff, backspaces_eq_nil_iff, erase_eq_nil_iff] at h
  obtain ⟨⟨⟨-, hnew⟩, hblank⟩, hafter⟩ := h
  -- the new text is used up where the old one goes on
  have hlength : new.text.length ≤ start := List.drop_eq_nil_iff.1 hnew
  have hright := commonLength_le_length_right old.text new.text
  obtain rfl : start = new.text.length := by omega
  have htext : old.text = new.text ++ old.text.drop new.text.length := by
    have hcommon : old.text.take new.text.length = new.text.take new.text.length :=
      take_commonLength (by omega)
    rw [List.take_length] at hcommon
    rw [← List.take_append_drop new.text.length old.text, hcommon, List.drop_left]
  refine ⟨⟨_, fun hnil => hdiffer ?_, htext, ?_⟩, by omega, hafter⟩
  · rw [htext, hnil, List.append_nil]
  · rwa [hnew, Text.width_nil, Nat.sub_zero] at hblank

/-- **Nothing is sent for a change of a text** exactly if it fades. -/
theorem redraw_eq_nil_iff (hdiffer : old.text ≠ new.text) : old.redraw new = [] ↔ old.Fades new :=
  ⟨fades_of_redraw_eq_nil hdiffer, Fades.redraw_eq_nil⟩

/-- Where every character can be seen, every change of a text is sent. -/
theorem redraw_ne_nil (hold : ∀ c ∈ old.text, 0 < Text.charWidth c)
    (hdiffer : old.text ≠ new.text) : old.redraw new ≠ [] := by
  intro hnil
  obtain ⟨lost, hne, htext, hwidth⟩ := (fades_of_redraw_eq_nil hdiffer hnil).lost
  obtain ⟨c, lost, rfl⟩ := List.exists_cons_of_ne_nil hne
  have hc := hold c (by rw [htext]; simp)
  rw [Text.width_cons] at hwidth
  omega

/-- A line does not fade when characters are put into it. -/
theorem not_fades_insert (line : Line) (text : List Char) : ¬ line.Fades (line.insert text) := by
  intro h
  obtain ⟨lost, hne, htext, -⟩ := h.lost
  have hlength := congrArg List.length htext
  have hpos := List.length_pos_iff.2 hne
  rw [text_insert, ← line.before_append_after] at hlength
  simp only [List.length_append] at hlength
  omega

end Line

/-! ### Events -/

/-- An event that changes the text of a line sends something, unless it is a function and the text
fades. -/
theorem Entry.written_eq_nil_iff {e : Entry κ} {functions : FunctionTable} {history : History}
    {continuation : List Char} {event : KeyEvent} {handled : Handled κ}
    (hhandled : e.handle functions history continuation event = handled)
    (hdiffer : handled.entry.line.text ≠ e.line.text) :
    handled.written = [] ↔
      (∃ name, event = .function name) ∧ e.line.Fades handled.entry.line := by
  subst hhandled
  cases event with
  | key text =>
    refine iff_of_false ?_ (fun h => by obtain ⟨⟨name, hname⟩, -⟩ := h; cases hname)
    rw [handle] at hdiffer ⊢
    split at hdiffer
    next henter =>
      rw [if_pos henter, enter]
      split <;> simp [newRow]
    next henter =>
      rw [if_neg henter]
      split at hdiffer
      next htab => exact absurd rfl hdiffer
      next htab =>
        rw [if_neg htab]
        exact fun hnil => Line.not_fades_insert e.line text
          (Line.fades_of_redraw_eq_nil hdiffer.symm hnil)
  | function name =>
    rw [handle] at hdiffer ⊢
    split at hdiffer
    next f =>
      exact (Line.redraw_eq_nil_iff hdiffer.symm).trans (and_iff_right ⟨name, rfl⟩).symm
    next => exact absurd rfl hdiffer

end Widths

namespace World

section Widths

variable [Text.Widths] {client : Client κ ν} {w : World κ ν} {s : SessionId} {session : Session κ}
  {entry : Entry κ} {c : ConnectionId} {event : KeyEvent} {decoder : Keys.Decoder}
  {handled : Handled κ}

/-- What an event sends is written to the connection of its session. -/
theorem written_handleEvent
    (hhandled : entry.handle session.functions session.history session.continuation event =
      handled) :
    (w.handleEvent client s session entry c event decoder).written c =
      w.written c ++ handled.written := by
  have hafter : ∀ phase, (w.afterEvent s c handled decoder phase).written c =
      w.written c ++ handled.written := fun phase => by simp
  cases houtcome : handled.outcome with
  | goesOn => rw [handleEvent_goesOn hhandled houtcome, hafter]
  | submitted line =>
    rw [handleEvent_submitted hhandled houtcome, written_push, written_log, hafter]
    exact List.append_nil _
  | asked handler snapshot =>
    rw [handleEvent_asked hhandled houtcome rfl, written_push, written_log]
    exact (List.append_nil _).trans (hafter (.completing handled.entry))

/-- **What the terminal is told.** Nothing is sent for a change of a text exactly if it fades. So if
a session handles an event by which the text of its line changes, something is written to its
connection, unless the event is a function and the text fades. -/
theorem tells_changes :
    (∀ old new : Line, old.text ≠ new.text → (old.redraw new = [] ↔ old.Fades new)) ∧
      ∀ (client : Client κ ν) (w : World κ ν) (s : SessionId) (rest : List (Job κ ν)),
        w.agenda = .deliver s :: rest →
      ∀ (session : Session κ) (entry : Entry κ) (c : ConnectionId) (event : KeyEvent)
        (decoder : Keys.Decoder), w.Handles s session entry c event decoder →
      ∀ handled : Handled κ,
        entry.handle session.functions session.history session.continuation event = handled →
        handled.entry.line.text ≠ entry.line.text →
          ((w.step client).written c = w.written c ↔
            (∃ name, event = .function name) ∧ entry.line.Fades handled.entry.line) := by
  refine ⟨fun old new => Line.redraw_eq_nil_iff, ?_⟩
  intro client w s rest hagenda session entry c event decoder hhandles handled hhandled hdiffer
  have hwritten : (w.step client).written c = w.written c ++ handled.written := by
    rw [hhandles.step_eq hagenda client, written_handleEvent hhandled]
    rfl
  rw [hwritten, List.append_right_eq_self]
  exact Entry.written_eq_nil_iff hhandled hdiffer

end Widths

/-- A client that does nothing. -/
private def unmoved : Client Unit Unit where
  onLine _ _ := .done
  onComplete _ _ _ := .done
  onRead _ _ := .done
  onResize _ _ := .done

/-- The keys of a session: one deletes the character before the cursor. -/
private def deletingKeys : Keymap :=
  Keymap.empty.bindFunction [Keys.delete] Builtin.backwardDeleteChar.name

/-- A line is asked for, and a text is typed for it. -/
private def typedFor (text : List Char) (steps : Nat) : World Unit Unit :=
  exec unmoved steps
    { sessions := [{ decoder := .ofKeymap deletingKeys }], connections := [{}] } <|
    .andThen (.install 0 0) <|
      .andThen (.addBuiltins 0) <|
        .andThen (.request 0 { prompt := ['>'], onLine := (), onComplete? := none }) <|
          .ofCall (.type 0 text)

private theorem reachable_typedFor (text : List Char) (steps : Nat) :
    Reachable (typedFor text steps) := by
  refine Reachable.trans (Pristine.reachable ?_) (run_exec unmoved steps _ _)
  constructor <;> simp

/-- The terminal is told that the only letter of a line is deleted. -/
theorem tells_changes_deleted :
    ∃ session entry event decoder handled,
      ((typedFor ['e', Keys.delete] 5).agenda = [.deliver 0, .run .done] ∧
        (typedFor ['e', Keys.delete] 5).Handles 0 session entry 0 event decoder ∧
          entry.handle session.functions session.history session.continuation event = handled ∧
            handled.entry.line.text ≠ entry.line.text) ∧
      (((typedFor ['e', Keys.delete] 5).step unmoved).written 0 =
          (typedFor ['e', Keys.delete] 5).written 0 ↔
        (∃ name, event = .function name) ∧ entry.line.Fades handled.entry.line) := by
  have hhandles : (typedFor ['e', Keys.delete] 5).Handles 0 _ _ 0 _ _ := ⟨rfl, rfl, rfl, rfl⟩
  have hdiffer : ([] : List Char) ≠ ['e'] := by decide
  exact ⟨_, _, _, _, _, ⟨rfl, hhandles, rfl, hdiffer⟩,
    tells_changes.2 unmoved _ 0 _ rfl _ _ 0 _ _ hhandles _ rfl hdiffer⟩

/-- The text of the line that the first session edits. -/
private def edited? (w : World Unit Unit) : Option (List Char) :=
  (w.sessions[0]?.bind (·.phase.entry?)).map (·.line.text)

/-- **A deleted accent stays on the terminal**: the text changes, without a control code and without
a character of more than two columns, and nothing is sent. -/
theorem keeps_deleted_accent :
    ((∀ c ∈ ['e', '\u0301'], isControl c = false ∧ Text.charWidth c ≤ 2) ∧
      (Line.ofText ['e', '\u0301']).text ≠ (Line.ofText ['e']).text ∧
        (Line.ofText ['e', '\u0301']).redraw (.ofText ['e']) = []) ∧
    Reachable (typedFor ['e', '\u0301', Keys.delete] 6) ∧
      edited? (typedFor ['e', '\u0301', Keys.delete] 6) = some ['e', '\u0301'] ∧
        edited? ((typedFor ['e', '\u0301', Keys.delete] 6).step unmoved) = some ['e'] ∧
          ((typedFor ['e', '\u0301', Keys.delete] 6).step unmoved).written 0 =
            (typedFor ['e', '\u0301', Keys.delete] 6).written 0 := by
  have hvisible : ∀ c ∈ ['e', '\u0301'], isControl c = false ∧ Text.charWidth c ≤ 2 :=
    List.forall_mem_cons.2 ⟨by decide, List.forall_mem_singleton.2 (by decide)⟩
  refine ⟨⟨hvisible, by decide, by decide⟩, reachable_typedFor _ _, ?_, ?_, ?_⟩ <;> decide +kernel

end World

end LineEditor
