import LineEditor.Proofs.Line.Buffer
import Mathlib.Data.List.DropRight

/-!
# A line as a zipper

A `Zipper` is a line that is cut in two at its cursor. What the operations do is plain to see there:
a text is put behind the left part, the cursor moves by handing characters over from one part to the
other, and a deletion takes them from one part. A zipper has a cursor by its nature, so nothing can
be out of range.

`Zipper.line` puts the parts together. It carries each operation on zippers over to the operation on
lines, and so it does with whole runs (`runEdits_edit`).
-/

namespace LineEditor

/-! ### Lines by their parts -/

namespace Line

variable {l l' : Line}

/-- A line is its text and its cursor. -/
theorem eq_of_text_of_cursor (htext : l.text = l'.text) (hcursor : l.cursor = l'.cursor) :
    l = l' := by
  cases l
  cases l'
  simp_all

@[simp]
theorem before_ofParts (before after : List Char) : (ofParts before after).before = before :=
  List.take_left

@[simp]
theorem after_ofParts (before after : List Char) : (ofParts before after).after = after :=
  List.drop_left

/-- Where the cursor is put, the line is cut. -/
theorem moveTo_eq (l : Line) (position : Nat) :
    l.moveTo position = ofParts (l.text.take position) (l.text.drop position) :=
  eq_of_text_of_cursor (List.take_append_drop _ _).symm List.length_take.symm

end Line

/-! ### Zippers -/

/-- A line that is cut in two at its cursor. -/
structure Zipper where
  /-- The characters before the cursor. -/
  left : List Char := []
  /-- The characters after the cursor. -/
  right : List Char := []
  deriving DecidableEq, Repr

namespace Zipper

/-- The characters of both parts. -/
def text (z : Zipper) : List Char := z.left ++ z.right

/-- Everything is on the left. -/
def ofText (text : List Char) : Zipper := { left := text }

/-- Puts characters behind the left part. -/
def insert (z : Zipper) (s : List Char) : Zipper := { z with left := z.left ++ s }

/-- Keeps the first characters of both parts together. -/
def truncate (z : Zipper) (size : Nat) : Zipper where
  left := z.left.take size
  right := z.right.take (size - z.left.length)

/-- Cuts the text at a position. -/
def moveTo (z : Zipper) (position : Nat) : Zipper where
  left := z.text.take position
  right := z.text.drop position

/-- Hands over the first characters of the right part, or the last ones of the left part when the
distance is negative. -/
def moveBy (z : Zipper) (distance : Int) : Zipper :=
  if distance < 0 then
    { left := z.left.rdrop distance.natAbs, right := z.left.rtake distance.natAbs ++ z.right }
  else
    { left := z.left ++ z.right.take distance.natAbs, right := z.right.drop distance.natAbs }

/-- Drops the first characters of the right part, or the last ones of the left part when the
distance is negative. -/
def delete (z : Zipper) (distance : Int) : Zipper :=
  if distance < 0 then { z with left := z.left.rdrop distance.natAbs }
  else { z with right := z.right.drop distance.natAbs }

/-- Applies a built-in function. -/
def call (z : Zipper) (history : History) : Builtin → History × Zipper
  | .backwardChar => (history, z.moveBy (-1))
  | .forwardChar => (history, z.moveBy 1)
  | .beginningOfLine => (history, { right := z.text })
  | .endOfLine => (history, { left := z.text })
  | .backwardDeleteChar => (history, z.delete (-1))
  | .deleteChar => (history, z.delete 1)
  | .killLine => (history, { z with right := [] })
  | .discardLine => (history, { z with left := [] })
  | .previousHistory => (history.previous.1, history.previous.2.elim z ofText)
  | .nextHistory =>
    if history.depth = 0 then (history, z)
    else (history.next.1, ofText (history.next.2.getD []))

/-- Carries out an operation: the history and the zipper after it, and the answer. A move is
answered by the change of length of the left part, and a deletion by what the parts have lost
together. -/
def perform (z : Zipper) (history : History) : Operation → History × Zipper × EditAnswer
  | .load text | .replace text => (history, ofText text, .nothing)
  | .insert text => (history, z.insert text, .nothing)
  | .truncate size => (history, z.truncate size.toNat, .nothing)
  | .moveTo position => (history, z.moveTo position.toNat, .nothing)
  | .moveBy distance =>
    let moved := z.moveBy distance.toInt
    (history, moved, .moved (moved.left.length - z.left.length))
  | .delete distance =>
    let shorter := z.delete distance.toInt
    (history, shorter, .removed (z.text.length - shorter.text.length))
  | .call b => ((z.call history b).1, (z.call history b).2, .found true)

/-- Carries out operations, from nothing on; the answers to them. -/
def run (history : History) (operations : List Operation) : History × Zipper × List EditAnswer :=
  operations.foldl
    (fun (history, z, answers) operation =>
      let (history, z, answer) := z.perform history operation
      (history, z, answers ++ [answer]))
    (history, {}, [])

/-- The line of a zipper. -/
def line (z : Zipper) : Line := .ofParts z.left z.right

variable (z : Zipper)

@[simp]
theorem text_line : z.line.text = z.text := rfl

@[simp]
theorem cursor_line : z.line.cursor = z.left.length := rfl

@[simp]
theorem before_line : z.line.before = z.left := Line.before_ofParts ..

@[simp]
theorem after_line : z.line.after = z.right := Line.after_ofParts ..

/-! ### What operations do to the line of a zipper -/

theorem line_ofText (text : List Char) : (ofText text).line = .ofText text := by
  refine Line.eq_of_text_of_cursor ?_ rfl
  rw [text_line, Zipper.text, ofText, List.append_nil]
  rfl

theorem line_insert (s : List Char) : (z.insert s).line = z.line.insert s := by
  rw [Line.insert, before_line, after_line]
  rfl

theorem line_moveTo (position : Nat) : (z.moveTo position).line = z.line.moveTo position :=
  (z.line.moveTo_eq position).symm

theorem line_truncate (size : Nat) : (z.truncate size).line = z.line.truncate size := by
  have hcut : z.text.take size = z.left.take size ++ z.right.take (size - z.left.length) :=
    List.take_append
  refine Line.eq_of_text_of_cursor hcut.symm ?_
  change (z.left.take size).length = min z.left.length (z.text.take size).length
  rw [hcut, List.length_append, List.length_take, List.length_take]
  omega

theorem line_moveBy (distance : Int) : (z.moveBy distance).line = z.line.moveBy distance := by
  rw [Line.moveBy, Line.moveTo_eq, text_line, Zipper.text, cursor_line, moveBy]
  split
  next hneg =>
    -- the cut is in the left part
    have hposition : (z.left.length + distance).toNat = z.left.length - distance.natAbs := by omega
    rw [hposition, List.take_append_of_le_length (Nat.sub_le ..),
      List.drop_append_of_le_length (Nat.sub_le ..)]
    rfl
  next hneg =>
    -- the cut is in the right part
    have hposition : (z.left.length + distance).toNat = z.left.length + distance.natAbs := by omega
    rw [hposition, List.take_length_add_append, List.drop_length_add_append]
    rfl

theorem line_delete (distance : Int) : (z.delete distance).line = z.line.delete distance := by
  rw [Line.delete, before_line, after_line, cursor_line, delete]
  split <;> rfl

/-- The left part is as long as the cursor says. -/
theorem truncate_left : z.truncate z.left.length = { z with right := [] } := by
  rw [truncate, List.take_length, Nat.sub_self, List.take_zero]

/-- Without the left part. -/
theorem delete_left : z.delete (-z.left.length) = { z with left := [] } := by
  rw [delete]
  split
  next hneg => simp [List.rdrop]
  next hneg =>
    obtain hnil : z.left = [] := List.eq_nil_of_length_eq_zero (by omega)
    simp [hnil]

theorem line_call (history : History) (b : Builtin) :
    b.apply history z.line = ((z.call history b).1, (z.call history b).2.line) := by
  cases b with
  | backwardChar | forwardChar => exact congrArg _ (z.line_moveBy _).symm
  | backwardDeleteChar | deleteChar => exact congrArg _ (z.line_delete _).symm
  | beginningOfLine => exact congrArg _ (z.line.moveTo_eq 0)
  | endOfLine =>
    refine congrArg _ ((z.line.moveTo_eq _).trans ?_)
    rw [List.take_length, List.drop_length]
    rfl
  | killLine =>
    refine congrArg _ ((z.line_truncate _).symm.trans ?_)
    rw [cursor_line, z.truncate_left]
    rfl
  | discardLine =>
    refine congrArg _ ((z.line_delete _).symm.trans ?_)
    rw [cursor_line, z.delete_left]
    rfl
  | previousHistory =>
    rw [Builtin.apply_previousHistory, call]
    cases history.previous.2 with
    | none => rfl
    | some entry => exact congrArg _ (line_ofText entry).symm
  | nextHistory =>
    rw [Builtin.apply_nextHistory, call]
    split_ifs
    · rfl
    · exact congrArg _ (line_ofText _).symm

/-- **Step lemma.** An operation on a zipper is the edit of its line, and has the same answer. -/
theorem apply_edit (history : History) (operation : Operation) :
    operation.edit.apply history z.line =
      ((z.perform history operation).1, (z.perform history operation).2.1.line,
        (z.perform history operation).2.2) := by
  cases operation with
  | load text | replace text => simp only [Operation.edit, Edit.apply, perform, line_ofText]
  | insert text => simp only [Operation.edit, Edit.apply, perform, line_insert]
  | truncate size => simp only [Operation.edit, Edit.apply, perform, line_truncate]
  | moveTo position => simp only [Operation.edit, Edit.apply, perform, line_moveTo]
  | moveBy distance =>
    simp only [Operation.edit, Edit.apply, perform, ← line_moveBy, cursor_line]
  | delete distance => simp only [Operation.edit, Edit.apply, perform, ← line_delete, text_line]
  | call b => simp only [Operation.edit, Edit.apply, perform, Builtin.ofName?_name, line_call]

/-! ### Runs -/

theorem run_concat (history : History) (operations : List Operation) (operation : Operation) :
    run history (operations ++ [operation]) =
      let (history, z, answers) := run history operations
      let (history, z, answer) := z.perform history operation
      (history, z, answers ++ [answer]) := by
  rw [run, List.foldl_append]
  rfl

/-- **Run lemma.** Operations from an empty line on do to the line what they do to its parts. -/
theorem run_edit (history : History) (operations : List Operation) :
    Edit.run (operations.map Operation.edit) history .empty =
      ((run history operations).1, (run history operations).2.1.line,
        (run history operations).2.2) := by
  induction operations using List.reverseRecOn with
  | nil => rfl
  | append_singleton operations operation ih =>
    have hstep := (run history operations).2.1.apply_edit (run history operations).1 operation
    rw [List.map_append, List.map_singleton, Edit.run_concat, ih, run_concat]
    simp only [hstep]

/-- What was put in is taken out again. -/
theorem delete_insert (s : List Char) : (z.insert s).delete (-s.length) = z := by
  rw [delete, insert]
  split
  next hneg =>
    have hcount : (-(s.length : Int)).natAbs = s.length := by omega
    rw [hcount, List.rdrop, List.length_append, Nat.add_sub_cancel, List.take_left]
  next hneg =>
    obtain rfl : s = [] := List.eq_nil_of_length_eq_zero (by omega)
    rw [List.append_nil]
    rfl

end Zipper

namespace Operation

/-- What holds after some operations from an empty line on: `z` and `answers` are what comes of them
for a zipper. -/
structure RefinesZipper (history : History) (operations : List Operation) (z : Zipper)
    (answers : List EditAnswer) : Prop where
  /-- The line is that of the zipper, and the answers are those that it gives. -/
  line : (Edit.run (operations.map edit) history .empty).2 = (z.line, answers)
  /-- In memory the characters are those of both parts and the cursor stands between them, so it is
  within the line; the answers are the same. -/
  memory : ∀ store answers', run history operations = .ok (store, answers') →
    store.buffer.chars.toList = z.left ++ z.right ∧ store.buffer.cursor.toNat = z.left.length ∧
      store.buffer.cursor ≤ store.buffer.chars.length ∧ answers' = answers
  /-- No arithmetic is at fault, and no bound. -/
  sound : ∀ fault, run history operations = .error fault → fault = .outOfMemory
  /-- What fits in memory is carried out. -/
  runs : (∀ entry ∈ history.entries, 4 * entry.length < 2 ^ 63) →
    24 * history.entries.length < 2 ^ 63 →
      (∀ done, done <+: operations → 4 * (Zipper.run history done).2.1.text.length < 2 ^ 63) →
        ∃ result, run history operations = .ok result
  /-- A text that is put in and deleted again leaves no trace, in memory neither. -/
  restores : ∀ (text : List Char),
    (z.line.insert text).delete (-text.length) = z.line ∧
      ∀ (distance : Int64) (store store' : Store) (answers' answers'' : List EditAnswer),
        distance.toInt = -text.length → run history operations = .ok (store, answers') →
          run history (operations ++ [.insert text, .delete distance]) = .ok (store', answers'') →
            store'.buffer = store.buffer

variable {history : History} {operations : List Operation} {store : Store}
  {answers : List EditAnswer}

/-- What a run leaves in memory is the line of the zipper. -/
theorem holds_of_run (h : run history operations = .ok (store, answers)) :
    store.buffer.Holds (Zipper.run history operations).2.1.line ∧
      answers = (Zipper.run history operations).2.2 := by
  obtain ⟨hholds, hanswers⟩ := (gives_run history operations).of_eq_ok h
  rw [Zipper.run_edit] at hholds hanswers
  exact ⟨hholds.buffer, hanswers⟩

theorem not_exceed_of_fits (hentries : ∀ entry ∈ history.entries, 4 * entry.length < 2 ^ 63)
    (hcount : 24 * history.entries.length < 2 ^ 63)
    (hlines : ∀ done, done <+: operations →
      4 * (Zipper.run history done).2.1.text.length < 2 ^ 63) :
    ¬ Exceed history operations := by
  rintro ((⟨entry, hentry, hlarge⟩ | hlarge) | ⟨done, hdone, hlarge⟩)
  · exact Nat.not_lt.2 hlarge (hentries entry hentry)
  · exact Nat.not_lt.2 hlarge hcount
  · rw [Zipper.run_edit] at hlarge
    exact Nat.not_lt.2 hlarge (hlines done hdone)

/-- **Lines refine zippers**, whatever operations are carried out from an empty line on, and with
whatever history: with sizes and positions of any size, and with distances however far beyond the
ends of the line. -/
theorem refines_zipper (history : History) (operations : List Operation) :
    RefinesZipper history operations (Zipper.run history operations).2.1
      (Zipper.run history operations).2.2 where
  line := by rw [Zipper.run_edit]
  memory store answers' h := by
    obtain ⟨hholds, hanswers⟩ := holds_of_run h
    refine ⟨hholds.text, hholds.cursor, UInt64.le_iff_toNat_le.2 ?_, hanswers⟩
    rw [hholds.cursor, hholds.toNat_length]
    exact Line.cursor_le _
  sound fault h := ((gives_run history operations).eq_outOfMemory h).1
  runs hentries hcount hlines :=
    have ⟨result, h, _⟩ := (gives_run history operations).exists_ok
      (not_exceed_of_fits hentries hcount hlines)
    ⟨result, h⟩
  restores text := by
    generalize hz : (Zipper.run history operations).2.1 = z
    refine ⟨?_, fun distance store store' _ _ hdistance h h' => ?_⟩
    · rw [← z.line_insert, ← Zipper.line_delete, z.delete_insert]
    · obtain ⟨hholds, -⟩ := holds_of_run h
      obtain ⟨hholds', -⟩ := holds_of_run h'
      -- the zipper is as before
      have hback :
          (Zipper.run history (operations ++ [.insert text, .delete distance])).2.1 = z := by
        rw [List.append_cons, Zipper.run_concat, Zipper.run_concat]
        change ((Zipper.run history operations).2.1.insert text).delete distance.toInt = z
        rw [hdistance, Zipper.delete_insert, hz]
      rw [hback] at hholds'
      rw [hz] at hholds
      exact hholds'.unique hholds

end Operation

end LineEditor
