import LineEditor.Proofs.Terminal.Screen
import LineEditor.Text.Width.Table
import Mathlib.Order.Bounds.Basic

/-!
# Where redrawing leads and what it leaves alone

`Line.redraw` is computed from the two lines and from the widths of their characters, whatever these
are; what the terminal shows is never looked at. So where it takes the cursor does not depend on the
cells, and holds for lines with characters of width zero as well: `Moves` follows the cursor through
an output, one piece of `Line.redraw` after the other.

`Confines` says how far left an output goes. What is written changes no cell left of the first
column that is written, save that a character which reaches that column is lost as a whole
(`Confines.spares`). `Redraws` puts together what is said of a line that is redrawn, over any cells
and at any column, and `Screen.redraws` proves it.
-/

namespace LineEditor

open Text (charWidth isControl width width_append width_cons)

/-- What begins two texts is no longer than what they have in common. -/
theorem length_le_commonLength {s t shared : List Char} (hs : shared <+: s) (ht : shared <+: t) :
    shared.length ≤ commonLength s t := by
  induction shared generalizing s t with
  | nil => exact Nat.zero_le _
  | cons c shared ih =>
    obtain ⟨s, rfl⟩ := hs
    obtain ⟨t, rfl⟩ := ht
    rw [List.cons_append, List.cons_append, commonLength, if_pos rfl]
    exact Nat.succ_le_succ (ih (List.prefix_append shared s) (List.prefix_append shared t))

/-- What two texts have in common is the longest text that begins both. -/
theorem isGreatest_commonLength (s t : List Char) :
    IsGreatest {n | ∃ shared, shared <+: s ∧ shared <+: t ∧ shared.length = n}
      (commonLength s t) := by
  constructor
  · fun_induction commonLength s t with
    | case1 s c t ih =>
      obtain ⟨shared, hs, ht, hlength⟩ := ih
      refine ⟨c :: shared, ?_, ?_, by rw [List.length_cons, hlength]⟩
      · exact List.cons_prefix_cons.2 ⟨rfl, hs⟩
      · exact List.cons_prefix_cons.2 ⟨rfl, ht⟩
    | case2 => exact ⟨[], List.nil_prefix, List.nil_prefix, rfl⟩
    | case3 => exact ⟨[], List.nil_prefix, List.nil_prefix, rfl⟩
  · rintro n ⟨shared, hs, ht, rfl⟩
    exact length_le_commonLength hs ht

namespace Terminal.Screen

section Widths

variable [Text.Widths] {screen : Screen} {low start p : Nat} {s t text output : List Char}
  {old new : Line}

/-! ### How far left an output goes -/

/-- While the terminal receives an output, the cursor does not go left of column `low`, and nothing
is written left of column `start`. -/
structure Confines (screen : Screen) (low start : Nat) (output : List Char) : Prop where
  /-- The cursor is never left of column `low`. -/
  stays : ∀ earlier later, output = earlier ++ later → low ≤ (screen.replay earlier).column
  /-- A backspace comes only where there is a column to step back to, and everything else is a
  character that is written at column `start` or right of it. -/
  receives : ∀ earlier c later, output = earlier ++ c :: later →
    c = '\x08' ∧ low < (screen.replay earlier).column ∨
      isControl c = false ∧ start ≤ (screen.replay earlier).column

theorem confines_nil (h : low ≤ screen.column) : screen.Confines low start [] where
  stays earlier later hsplit := by
    rw [(List.append_eq_nil_iff.1 hsplit.symm).1]
    exact h
  receives earlier c later hsplit := by simp at hsplit

theorem confines_cons {c : Char} :
    screen.Confines low start (c :: output) ↔
      (low ≤ screen.column ∧
        (c = '\x08' ∧ low < screen.column ∨ isControl c = false ∧ start ≤ screen.column)) ∧
      (screen.receive c).Confines low start output := by
  constructor
  · refine fun h => ⟨⟨h.stays [] _ rfl, h.receives [] c output rfl⟩, ?_, ?_⟩
    · rintro earlier later rfl
      exact h.stays (c :: earlier) later rfl
    · rintro earlier d later rfl
      exact h.receives (c :: earlier) d later rfl
  · rintro ⟨⟨hlow, hc⟩, h⟩
    refine ⟨fun earlier later hsplit => ?_, fun earlier d later hsplit => ?_⟩
    · rcases earlier with _ | ⟨e, earlier⟩
      · exact hlow
      · obtain ⟨rfl, rfl⟩ := List.cons.inj hsplit
        exact h.stays earlier later rfl
    · rcases earlier with _ | ⟨e, earlier⟩
      · obtain ⟨rfl, -⟩ := List.cons.inj hsplit
        exact hc
      · obtain ⟨rfl, rfl⟩ := List.cons.inj hsplit
        exact h.receives earlier d later rfl

theorem Confines.append (hs : screen.Confines low start s)
    (ht : (screen.replay s).Confines low start t) : screen.Confines low start (s ++ t) := by
  induction s generalizing screen with
  | nil => exact ht
  | cons c s ih =>
    obtain ⟨hc, hs⟩ := confines_cons.1 hs
    exact confines_cons.2 ⟨hc, ih hs ht⟩

/-! ### Where an output takes the cursor -/

/-- Whatever the cells are, an output takes the cursor from one column to another, not left of
column `low` in between, and writes nothing left of column `start`. -/
def Moves (low start : Nat) (output : List Char) (i j : Nat) : Prop :=
  ∀ screen : Screen, screen.column = i →
    screen.Confines low start output ∧ (screen.replay output).column = j

theorem Moves.append {i j k : Nat} (hs : Moves low start s i j) (ht : Moves low start t j k) :
    Moves low start (s ++ t) i k := by
  intro screen hi
  obtain ⟨hconfined, hj⟩ := hs screen hi
  obtain ⟨hconfined', hk⟩ := ht _ hj
  exact ⟨hconfined.append hconfined', by rw [replay_append, hk]⟩

/-- A character that is no control code is written. -/
theorem receive_of_isControl_eq_false {c : Char} (h : isControl c = false) :
    screen.receive c = screen.put c := by
  have hne : ∀ d, isControl d = true → c ≠ d := by
    rintro d hd rfl
    rw [hd] at h
    cases h
  unfold receive
  rw [if_neg (hne '\x08' rfl), if_neg (hne '\r' rfl), if_neg (hne '\n' rfl)]

/-- A text without control codes takes the cursor as many columns to the right as it is wide. -/
theorem moves_text {i : Nat} (h : ∀ c ∈ text, isControl c = false) (hlow : low ≤ i)
    (hstart : start ≤ i) : Moves low start text i (i + width text) := by
  intro screen hi
  induction text generalizing screen i with
  | nil => exact ⟨confines_nil (by omega), hi⟩
  | cons c text ih =>
    have hc := h c List.mem_cons_self
    have hnext : (screen.receive c).column = i + charWidth c := by
      rw [receive_of_isControl_eq_false hc, column_put, hi]
    obtain ⟨hconfined, hcolumn⟩ := ih (fun d hd => h d (List.mem_cons_of_mem c hd))
      (by omega) (by omega) (screen.receive c) hnext
    refine ⟨confines_cons.2 ⟨⟨by omega, .inr ⟨hc, by omega⟩⟩, hconfined⟩, ?_⟩
    rw [replay_cons, hcolumn, width_cons, Nat.add_assoc]

/-- Backspaces take the cursor to the left. -/
theorem moves_backspaces {i : Nat} (n : Nat) (h : low ≤ i) :
    Moves low start (backspaces n) (i + n) i := by
  intro screen hi
  refine ⟨?_, by rw [replay_backspaces, hi, Nat.add_sub_cancel]⟩
  induction n generalizing screen with
  | zero => exact confines_nil (by omega)
  | succ n ih =>
    have hnext : (screen.receive '\x08').column = i + n := by
      show screen.column - 1 = i + n
      omega
    exact confines_cons.2 ⟨⟨by omega, .inl ⟨rfl, by omega⟩⟩, ih _ hnext⟩

/-! ### Which cells are left alone -/

/-- Between two rows the cells left of a column are the same, save that a character which reaches
the column may be lost. -/
def Spares (start : Nat) (row row' : Nat → Cell) : Prop :=
  ∀ i, i < start →
    row' i = row i ∨ row' i = .blank ∧ ∃ stop, (row i).Meets i start stop

theorem Spares.refl (start : Nat) (row : Nat → Cell) : Spares start row row :=
  fun _ _ => .inl rfl

theorem Spares.trans {row row' row'' : Nat → Cell} (h : Spares start row row')
    (h' : Spares start row' row'') : Spares start row row'' := by
  intro i hi
  rcases h' i hi with hsame | ⟨hblank, stop, hmeets⟩
  · rw [hsame]
    exact h i hi
  · rcases h i hi with hsame | ⟨hblank', hlost⟩
    · rw [hsame] at hmeets
      exact .inr ⟨hblank, stop, hmeets⟩
    · exact .inr ⟨hblank, hlost⟩

/-- Writing at a column or right of it spares the cells to its left. -/
theorem spares_put {c : Char} (h : start ≤ screen.column) :
    Spares start screen.row (screen.put c).row := by
  intro i hi
  rcases Nat.eq_zero_or_pos (charWidth c) with hc | hc
  · unfold put
    rw [if_pos hc]
    exact .inl rfl
  · -- the cell is not written to, but its character may be written over in part
    rw [row_put screen hc, if_neg (by omega)]
    split
    · rename_i hmeets
      refine .inr ⟨rfl, screen.column + charWidth c, ?_⟩
      cases hcell : screen.row i with
      | blank =>
        rw [hcell] at hmeets
        exact hmeets
      | part d offset =>
        rw [hcell] at hmeets
        exact ⟨hmeets.1, Nat.lt_of_le_of_lt (Nat.add_le_add_right h offset) hmeets.2⟩
    · exact .inl rfl

theorem Confines.spares (h : screen.Confines low start output) :
    Spares start screen.row (screen.replay output).row := by
  induction output generalizing screen with
  | nil => exact .refl start screen.row
  | cons c output ih =>
    obtain ⟨⟨-, hc⟩, hrest⟩ := confines_cons.1 h
    have hreceive : Spares start screen.row (screen.receive c).row := by
      rcases hc with ⟨rfl, -⟩ | ⟨hc, hcolumn⟩
      · exact .refl start screen.row
      · rw [receive_of_isControl_eq_false hc]
        exact spares_put hcolumn
    exact hreceive.trans (ih hrest)

/-! ### Redrawing a line -/

/-- Moving the cursor in a line. -/
theorem moves_redraw_cursor (hnew : ∀ c ∈ new.text, isControl c = false)
    (hsame : old.text = new.text) (hlow : low ≤ p + width old.before)
    (hlow' : low ≤ p + width new.before) :
    Moves low (p + width old.before) (old.redraw new) (p + width old.before)
      (p + width new.before) := by
  have hbefore : old.before = new.text.take old.cursor := by rw [Line.before, hsame]
  rw [Line.redraw, if_pos hsame]
  split
  · rename_i hlt
    have hback : p + width old.before =
        p + width new.before + width ((old.text.take old.cursor).drop new.cursor) := by
      rw [Line.before, Line.before, ← hsame, Nat.add_assoc,
        width_take_add_between (Nat.le_of_lt hlt)]
    have hmoves : Moves low (p + width old.before) (backspaces _) _ _ :=
      moves_backspaces (width ((old.text.take old.cursor).drop new.cursor)) hlow'
    rwa [← hback] at hmoves
  · rename_i hle
    have hforth : p + width new.before =
        p + width old.before + width ((new.text.take new.cursor).drop old.cursor) := by
      rw [hbefore, Nat.add_assoc, width_take_add_between (Nat.le_of_not_lt hle), Line.before]
    rw [hforth]
    refine moves_text (fun c hc => hnew c ?_) hlow (Nat.le_refl _)
    exact List.mem_of_mem_take (List.mem_of_mem_drop hc)

/-- Changing the text of a line. -/
theorem moves_redraw_text (hnew : ∀ c ∈ new.text, isControl c = false)
    (hdiffer : old.text ≠ new.text) {n : Nat}
    (hn : n = min (commonLength old.text new.text) old.cursor)
    (hlow : low ≤ p + width (old.text.take n)) (hlow' : low ≤ p + width new.before) :
    Moves low (p + width (old.text.take n)) (old.redraw new) (p + width old.before)
      (p + width new.before) := by
  have hcommon : old.text.take n = new.text.take n := take_commonLength (by omega)
  have hback : p + width old.before =
      p + width (old.text.take n) + width ((old.text.take old.cursor).drop n) := by
    rw [Nat.add_assoc, width_take_add_between (by omega), Line.before]
  have hwritten : p + width (old.text.take n) + width (new.text.drop n) = p + width new.text := by
    rw [hcommon, Nat.add_assoc, width_take_add_drop]
  have hafter : p + width new.text = p + width new.before + width new.after := by
    rw [Nat.add_assoc, width_before_add_after]
  -- the cursor goes back to where the texts part; the rest of the new one is written, and blanks
  -- over what is left of the old one; and it goes back to its place
  rw [Line.redraw, if_neg hdiffer]
  simp only [← hn, erase]
  generalize width (old.text.drop n) - width (new.text.drop n) = spaces
  have hreach : Moves low (p + width (old.text.take n)) (backspaces _) _ _ :=
    moves_backspaces (width ((old.text.take old.cursor).drop n)) hlow
  have hwrite : Moves low (p + width (old.text.take n)) (new.text.drop n) _ _ :=
    moves_text (fun c hc => hnew c (List.mem_of_mem_drop hc)) hlow (Nat.le_refl _)
  have hblank : Moves low (p + width (old.text.take n)) (List.replicate spaces ' ')
      (p + width new.text) _ :=
    moves_text (fun c hc => by rw [List.eq_of_mem_replicate hc]; rfl) (by omega) (by omega)
  have hreturn : Moves low (p + width (old.text.take n)) (backspaces spaces) _
      (p + width new.text) :=
    moves_backspaces spaces (by omega)
  have hplace : Moves low (p + width (old.text.take n)) (backspaces _) _ _ :=
    moves_backspaces (width new.after) hlow'
  rw [← hback] at hreach
  rw [hwritten] at hwrite
  rw [width_replicate_space] at hblank
  rw [← hafter] at hplace
  exact ((hreach.append hwrite).append (hblank.append hreturn)).append hplace

/-- Whatever the terminal shows, redrawing a line takes the cursor to its new place, within bounds
that depend on the lines only. -/
theorem moves_redraw (hnew : ∀ c ∈ new.text, isControl c = false) {n : Nat}
    (hn : n = min (commonLength old.text new.text) old.cursor) :
    Moves (p + min (width (old.text.take n)) (width new.before)) (p + width (old.text.take n))
      (old.redraw new) (p + width old.before) (p + width new.before) := by
  by_cases hsame : old.text = new.text
  · -- what the lines have in common reaches beyond the cursor
    have hlength : old.text.length ≤ commonLength old.text new.text :=
      length_le_commonLength List.prefix_rfl (hsame ▸ List.prefix_rfl)
    have hcursor : n = old.cursor := by
      rw [hn, Nat.min_eq_right (Nat.le_trans old.cursor_le hlength)]
    have hbefore : old.text.take n = old.before := by rw [hcursor, Line.before]
    rw [hbefore]
    exact moves_redraw_cursor hnew hsame (by omega) (by omega)
  · exact moves_redraw_text hnew hsame hn (by omega) (by omega)

/-- What is said of a line that a terminal is to show in place of another, of which it shares the
first `common` characters, on a screen where the line begins at column `p` and the cursor is in its
place. -/
structure Redraws (screen : Screen) (p : Nat) (old new : Line) (common : Nat) : Prop where
  /-- The cursor comes to its new place. -/
  column : (screen.replay (old.redraw new)).column = p + width new.before
  /-- On the way it goes no further left than there, or than where the lines begin to differ if it
  stands behind that; and nothing is written left of where they begin to differ, or of the cursor if
  it stands before that. -/
  confines : screen.Confines
    (p + min (width (old.text.take (min common old.cursor))) (width new.before))
    (p + width (old.text.take (min common old.cursor))) (old.redraw new)
  /-- What the row showed left of there is spared. -/
  spares : Spares (p + width (old.text.take (min common old.cursor))) screen.row
    (screen.replay (old.redraw new)).row
  /-- If all characters of the lines can be seen and the row showed the old line and nothing behind
  it, it comes to show the new line and nothing behind it. -/
  shows : (∀ c ∈ old.text, 0 < charWidth c) → (∀ c ∈ new.text, 0 < charWidth c) →
    screen.Shows p old.text → (screen.replay (old.redraw new)).Shows p new.text

/-- **Redrawing a line leads to its target.** A line without control codes is redrawn in place of
any other, from any column and over any cells, within the bounds that `Redraws` gives; and nothing
is sent for a line that stays as it is. -/
theorem redraws :
    (∀ (old new : Line), (∀ c ∈ new.text, isControl c = false) →
      ∀ common, IsGreatest
          {n | ∃ shared, shared <+: old.text ∧ shared <+: new.text ∧ shared.length = n} common →
        ∀ (screen : Screen) (p : Nat), screen.column = p + width old.before →
          screen.Redraws p old new common) ∧
    ∀ line : Line, line.redraw line = [] := by
  refine ⟨fun old new hnew common hcommon screen p hcolumn => ?_, Line.redraw_self⟩
  obtain rfl := hcommon.unique (isGreatest_commonLength old.text new.text)
  obtain ⟨hconfines, hend⟩ := moves_redraw hnew rfl screen hcolumn
  exact ⟨hend, hconfines, hconfines.spares,
    fun hold hnew' hshows => (hshows.replay_redraw hcolumn hold hnew').1⟩

end Widths

/-- A wide character, and the letter behind it, give way to an accent without width of its own, on a
row that is full of other characters. -/
theorem redraws_accent :
    (⟨fun _ => .part 'x' 0, 6⟩ : Screen).Redraws 2 ⟨['a', '界', 'b'], 3, by decide⟩
      ⟨['a', '\u0301'], 2, by decide⟩ 1 :=
  redraws.1 _ _ (by simp [isControl]) 1 (isGreatest_commonLength _ _) _ 2 (by decide +kernel)

end Terminal.Screen

end LineEditor
