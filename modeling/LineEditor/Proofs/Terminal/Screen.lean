import LineEditor.Line.Redraw

/-!
# One row of a terminal

What a user sees of a line that is edited: one row of cells, and a cursor. A character of width `w`
covers `w` cells from the cursor on, and moves the cursor behind them; another character that it
covers in part is lost altogether. A character of width zero changes nothing. A backspace moves the
cursor one column left, a carriage return moves it to the left edge, and a line feed gives a fresh
row. Rows do not end, so nothing is wrapped. The widths may be any (`Text.Widths`), as long as they
are the ones that the lines are redrawn with.

`Shows screen p text` says that the row shows a text from column `p` on, and nothing behind it.
Writing over what is shown (`Begins.replay`), writing what is shown once more (`Shows.replay_same`)
and stepping back (`replay_backspaces`) are all that `Line.redraw` does, so a row that shows one
line with the cursor in its place comes to show another: `Shows.replay_redraw`.
-/

namespace LineEditor.Terminal

open Text (charWidth width width_append width_cons width_nil)

variable [Text.Widths]

/-- One cell of a row. -/
inductive Cell where
  /-- Nothing is to be seen. -/
  | blank
  /-- One column of a character; `offset` columns of it lie to the left. -/
  | part (c : Char) (offset : Nat)
  deriving DecidableEq, Repr

/-- A column of a character that is written. A space leaves nothing to be seen. -/
def Cell.of (c : Char) (offset : Nat) : Cell := if c = ' ' then .blank else .part c offset

/-- The character of the cell at column `i` covers some column from `start` on and before `stop`. -/
def Cell.Meets (i start stop : Nat) : Cell → Prop
  | .blank => False
  | .part c offset => i < stop + offset ∧ start + offset < i + charWidth c

instance (i start stop : Nat) : (cell : Cell) → Decidable (cell.Meets i start stop)
  | .blank => inferInstanceAs (Decidable False)
  | .part _ _ => inferInstanceAs (Decidable (_ ∧ _))

/-- A row and the column of the cursor. -/
structure Screen where
  /-- The cells of the row. -/
  row : Nat → Cell
  /-- The column of the cursor. -/
  column : Nat

namespace Screen

/-- Writes a character at the cursor. -/
def put (screen : Screen) (c : Char) : Screen :=
  if charWidth c = 0 then screen
  else
    { row := fun i =>
        if screen.column ≤ i ∧ i < screen.column + charWidth c then .of c (i - screen.column)
        else if (screen.row i).Meets i screen.column (screen.column + charWidth c) then .blank
        else screen.row i
      column := screen.column + charWidth c }

/-- What becomes of a character that the terminal is sent. -/
def receive (screen : Screen) (c : Char) : Screen :=
  if c = '\x08' then { screen with column := screen.column - 1 }
  else if c = '\r' then { screen with column := 0 }
  else if c = '\n' then { screen with row := fun _ => .blank }
  else screen.put c

/-- What becomes of everything that the terminal is sent. -/
def replay (screen : Screen) (output : List Char) : Screen := output.foldl receive screen

@[simp] theorem replay_nil (screen : Screen) : screen.replay [] = screen := rfl

@[simp]
theorem replay_cons (screen : Screen) (c : Char) (output : List Char) :
    screen.replay (c :: output) = (screen.receive c).replay output :=
  rfl

@[simp]
theorem replay_append (screen : Screen) (s t : List Char) :
    screen.replay (s ++ t) = (screen.replay s).replay t :=
  List.foldl_append

end Screen

/-! ### The cells of a text -/

/-- The cells of a character. -/
def glyph (c : Char) : List Cell := (List.range (charWidth c)).map (Cell.of c)

/-- The cells of a text. -/
def cells : List Char → List Cell
  | [] => []
  | c :: text => glyph c ++ cells text

@[simp] theorem cells_nil : cells [] = [] := rfl

@[simp]
theorem cells_cons (c : Char) (text : List Char) : cells (c :: text) = glyph c ++ cells text := rfl

@[simp]
theorem cells_append (s t : List Char) : cells (s ++ t) = cells s ++ cells t := by
  induction s with
  | nil => rfl
  | cons c s ih => rw [List.cons_append, cells_cons, cells_cons, ih, List.append_assoc]

@[simp]
theorem length_glyph (c : Char) : (glyph c).length = charWidth c := by
  simp [glyph]

@[simp]
theorem length_cells (text : List Char) : (cells text).length = width text := by
  induction text with
  | nil => rfl
  | cons c text ih => rw [cells_cons, List.length_append, length_glyph, ih, width_cons]

theorem getElem?_glyph {c : Char} {i : Nat} (h : i < charWidth c) :
    (glyph c)[i]? = some (.of c i) := by
  simp [glyph, h]

theorem glyph_space : glyph ' ' = [.blank] := by
  rw [glyph, Text.charWidth_space]
  rfl

/-- Spaces leave nothing to be seen. -/
theorem cells_replicate_space (n : Nat) :
    cells (List.replicate n ' ') = List.replicate n .blank := by
  induction n with
  | zero => rfl
  | succ n ih =>
    rw [List.replicate_succ, List.replicate_succ, cells_cons, ih, glyph_space,
      List.singleton_append]

/-- A character of a text lies within the cells of the text. -/
theorem inside_of_getElem?_cells {text : List Char} {i offset : Nat} {c : Char}
    (h : (cells text)[i]? = some (.part c offset)) :
    offset ≤ i ∧ i + charWidth c ≤ width text + offset := by
  induction text generalizing i with
  | nil => simp at h
  | cons d text ih =>
    rw [cells_cons] at h
    rcases Nat.lt_or_ge i (charWidth d) with hi | hi
    · rw [List.getElem?_append_left (by simpa using hi), getElem?_glyph hi] at h
      unfold Cell.of at h
      split at h
      · cases h
      · cases h
        rw [width_cons]
        omega
    · rw [List.getElem?_append_right (by simpa using hi), length_glyph] at h
      have := ih h
      rw [width_cons]
      omega

/-! ### What a row shows -/

namespace Screen

/-- From column `p` on the row begins with a text. -/
def Begins (screen : Screen) (p : Nat) (text : List Char) : Prop :=
  ∀ (i : Nat) (cell : Cell), (cells text)[i]? = some cell → screen.row (p + i) = cell

/-- From column `b` on there is nothing to be seen. -/
def BlankFrom (screen : Screen) (b : Nat) : Prop := ∀ i, b ≤ i → screen.row i = .blank

/-- From column `p` on the row shows exactly a text. -/
def Shows (screen : Screen) (p : Nat) (text : List Char) : Prop :=
  ∀ i, screen.row (p + i) = (cells text)[i]?.getD .blank

variable {screen : Screen} {p b : Nat} {text pre post : List Char} {c : Char}

theorem shows_iff :
    screen.Shows p text ↔ screen.Begins p text ∧ screen.BlankFrom (p + width text) := by
  constructor
  · refine fun h => ⟨fun i cell hcell => ?_, fun i hi => ?_⟩
    · rw [h i, hcell]
      rfl
    · obtain ⟨j, rfl⟩ := Nat.exists_eq_add_of_le hi
      rw [Nat.add_assoc, h, List.getElem?_eq_none (by simp)]
      rfl
  · rintro ⟨hbegins, hblank⟩ i
    rcases Nat.lt_or_ge i (width text) with hi | hi
    · obtain ⟨cell, hcell⟩ : ∃ cell, (cells text)[i]? = some cell :=
        ⟨_, List.getElem?_eq_getElem (by simpa using hi)⟩
      rw [hcell]
      exact hbegins i cell hcell
    · rw [List.getElem?_eq_none (by simpa using hi)]
      exact hblank (p + i) (by omega)

theorem begins_nil (screen : Screen) (p : Nat) : screen.Begins p [] := by
  intro i cell hcell
  simp at hcell

theorem shows_nil (h : screen.BlankFrom p) : screen.Shows p [] :=
  shows_iff.2 ⟨begins_nil screen p, h⟩

/-- A text that begins what is shown. -/
theorem Shows.begins_of_append (h : screen.Shows p (pre ++ post)) : screen.Begins p pre := by
  intro i cell hcell
  have hi : i < (cells pre).length := (List.getElem?_eq_some_iff.1 hcell).1
  rw [h i, cells_append, List.getElem?_append_left hi, hcell]
  rfl

/-- Spaces at the end of what is shown cannot be seen. -/
theorem Shows.of_append_spaces {n : Nat} (h : screen.Shows p (text ++ List.replicate n ' ')) :
    screen.Shows p text := by
  intro i
  rw [h i, cells_append, cells_replicate_space]
  rcases Nat.lt_or_ge i (width text) with hi | hi
  · rw [List.getElem?_append_left (by simpa using hi)]
  · rw [List.getElem?_append_right (by simpa using hi), List.getElem?_replicate,
      List.getElem?_eq_none (by simpa using hi)]
    split <;> rfl

/-! ### Writing -/

theorem receive_of_charWidth_pos (screen : Screen) (hc : 0 < charWidth c) :
    screen.receive c = screen.put c := by
  have hne : ∀ d, Text.isControl d = true → c ≠ d := by
    rintro d hd rfl
    exact absurd (Text.charWidth_control hd) (Nat.ne_of_gt hc)
  unfold receive
  rw [if_neg (hne '\x08' (by decide)), if_neg (hne '\r' (by decide)),
    if_neg (hne '\n' (by decide))]

theorem column_put (screen : Screen) (c : Char) :
    (screen.put c).column = screen.column + charWidth c := by
  unfold put
  split
  · omega
  · rfl

/-- The cells after a character was written. -/
theorem row_put (screen : Screen) (hc : 0 < charWidth c) (i : Nat) :
    (screen.put c).row i =
      if screen.column ≤ i ∧ i < screen.column + charWidth c then .of c (i - screen.column)
      else if (screen.row i).Meets i screen.column (screen.column + charWidth c) then .blank
      else screen.row i := by
  unfold put
  rw [if_neg (by omega)]

/-- A character that is written behind a text leaves that text alone. -/
theorem Begins.put (h : screen.Begins p text) (hcolumn : screen.column = p + width text)
    (hc : 0 < charWidth c) : (screen.put c).Begins p (text ++ [c]) := by
  intro i cell hcell
  rw [row_put screen hc, hcolumn]
  rw [cells_append, cells_cons, cells_nil, List.append_nil] at hcell
  rcases Nat.lt_or_ge i (width text) with hi | hi
  · rw [List.getElem?_append_left (by simpa using hi)] at hcell
    have hmeets : ¬ (screen.row (p + i)).Meets (p + i) (p + width text)
        (p + width text + charWidth c) := by
      rw [h i cell hcell]
      cases cell with
      | blank => exact id
      | part d offset =>
        have := inside_of_getElem?_cells hcell
        simp only [Cell.Meets]
        omega
    rw [if_neg (by omega), if_neg hmeets, h i cell hcell]
  · rw [List.getElem?_append_right (by simpa using hi), length_cells] at hcell
    have hlt : i - width text < charWidth c := by
      simpa using (List.getElem?_eq_some_iff.1 hcell).1
    rw [getElem?_glyph hlt] at hcell
    rw [if_pos (by omega), show p + i - (p + width text) = i - width text by omega]
    exact Option.some.inj hcell

/-- A character leaves blank what lies behind it and was blank. -/
theorem BlankFrom.put (h : screen.BlankFrom b) (hb : screen.column + charWidth c ≤ b) :
    (screen.put c).BlankFrom b := by
  intro i hi
  rcases Nat.eq_zero_or_pos (charWidth c) with hc | hc
  · unfold Screen.put
    rw [if_pos hc]
    exact h i hi
  · rw [row_put screen hc, if_neg (by omega), h i hi]
    exact if_neg id

omit [Text.Widths] in
theorem BlankFrom.mono {b' : Nat} (h : screen.BlankFrom b) (hb : b ≤ b') :
    screen.BlankFrom b' :=
  fun i hi => h i (Nat.le_trans hb hi)

/-- A text of visible characters that is written behind another. -/
theorem Begins.replay (h : screen.Begins p pre) (hcolumn : screen.column = p + width pre)
    (htext : ∀ c ∈ text, 0 < charWidth c) (hblank : screen.BlankFrom b)
    (hb : p + width (pre ++ text) ≤ b) :
    (screen.replay text).Begins p (pre ++ text) ∧
      (screen.replay text).column = p + width (pre ++ text) ∧
        (screen.replay text).BlankFrom b := by
  induction text generalizing screen pre with
  | nil =>
    rw [List.append_nil]
    exact ⟨h, hcolumn, hblank⟩
  | cons c text ih =>
    have hc : 0 < charWidth c := htext c List.mem_cons_self
    have hpre : pre ++ c :: text = (pre ++ [c]) ++ text := by simp
    have hnext : (screen.put c).column = p + width (pre ++ [c]) := by
      rw [column_put, hcolumn, width_append, width_cons, width_nil]
      omega
    rw [replay_cons, receive_of_charWidth_pos screen hc, hpre]
    rw [hpre] at hb
    refine ih (h.put hcolumn hc) hnext (fun d hd => htext d (List.mem_cons_of_mem c hd)) ?_ hb
    refine hblank.put ?_
    rw [← column_put, hnext]
    rw [width_append] at hb
    omega

/-- A character that is written where it is shown changes nothing. -/
theorem Shows.put_same (h : screen.Shows p (pre ++ c :: post))
    (hcolumn : screen.column = p + width pre) (hc : 0 < charWidth c) :
    (screen.put c).Shows p (pre ++ c :: post) := by
  intro i
  rw [row_put screen hc, hcolumn, h i, cells_append, cells_cons]
  rcases Nat.lt_or_ge i (width pre) with hi | hi
  · rw [List.getElem?_append_left (by simpa using hi), if_neg (by omega)]
    refine if_neg ?_
    cases hcell : (cells pre)[i]? with
    | none => exact id
    | some cell =>
      cases cell with
      | blank => exact id
      | part d offset =>
        have := inside_of_getElem?_cells hcell
        simp only [Option.getD_some, Cell.Meets]
        omega
  · rw [List.getElem?_append_right (by simpa using hi), length_cells]
    rcases Nat.lt_or_ge (i - width pre) (charWidth c) with hlt | hge
    · rw [List.getElem?_append_left (by simpa using hlt), getElem?_glyph hlt,
        if_pos (by omega), show p + i - (p + width pre) = i - width pre by omega]
      rfl
    · rw [List.getElem?_append_right (by simpa using hge), length_glyph, if_neg (by omega)]
      refine if_neg ?_
      cases hcell : (cells post)[i - width pre - charWidth c]? with
      | none => exact id
      | some cell =>
        cases cell with
        | blank => exact id
        | part d offset =>
          have := inside_of_getElem?_cells hcell
          simp only [Option.getD_some, Cell.Meets]
          omega

/-- A text that is written where it is shown moves the cursor and changes nothing. -/
theorem Shows.replay_same (h : screen.Shows p (pre ++ text ++ post))
    (hcolumn : screen.column = p + width pre) (htext : ∀ c ∈ text, 0 < charWidth c) :
    (screen.replay text).Shows p (pre ++ text ++ post) ∧
      (screen.replay text).column = p + width (pre ++ text) := by
  induction text generalizing screen pre with
  | nil =>
    rw [List.append_nil] at h ⊢
    exact ⟨h, hcolumn⟩
  | cons c text ih =>
    have hc : 0 < charWidth c := htext c List.mem_cons_self
    have hpre : pre ++ c :: text = (pre ++ [c]) ++ text := by simp
    have hnext : (screen.put c).column = p + width (pre ++ [c]) := by
      rw [column_put, hcolumn, width_append, width_cons, width_nil]
      omega
    rw [replay_cons, receive_of_charWidth_pos screen hc]
    have hput : (screen.put c).Shows p (pre ++ c :: text ++ post) := by
      rw [List.append_assoc, List.cons_append] at h ⊢
      exact h.put_same hcolumn hc
    rw [hpre] at hput ⊢
    exact ih hput hnext fun d hd => htext d (List.mem_cons_of_mem c hd)

/-- Backspaces move the cursor only. -/
theorem replay_backspaces (screen : Screen) (n : Nat) :
    screen.replay (backspaces n) = { screen with column := screen.column - n } := by
  induction n generalizing screen with
  | zero => rfl
  | succ n ih =>
    rw [backspaces, List.replicate_succ, replay_cons, ← backspaces, ih]
    simp only [receive, if_true, Nat.sub_sub, Nat.add_comm 1 n]

/-! ### Redrawing a line -/

omit [Text.Widths] in
/-- Both texts begin with what they have in common. -/
theorem take_commonLength {s t : List Char} {n : Nat} (h : n ≤ commonLength s t) :
    s.take n = t.take n := by
  fun_induction commonLength s t generalizing n with
  | case1 s c t ih =>
    cases n with
    | zero => rfl
    | succ n => rw [List.take_succ_cons, List.take_succ_cons, ih (Nat.le_of_succ_le_succ h)]
  | case2 | case3 => rw [Nat.le_zero.1 h, List.take_zero, List.take_zero]

theorem width_take_add_drop (n : Nat) (s : List Char) :
    width (s.take n) + width (s.drop n) = width s := by
  rw [← width_append, List.take_append_drop]

theorem width_replicate_space (n : Nat) : width (List.replicate n ' ') = n := by
  rw [← length_cells, cells_replicate_space, List.length_replicate]

/-- The columns between two positions of a text. -/
theorem width_take_add_between {s : List Char} {m n : Nat} (h : m ≤ n) :
    width (s.take m) + width ((s.take n).drop m) = width (s.take n) := by
  rw [← width_take_add_drop m (s.take n), List.take_take, Nat.min_eq_left h]

/-- The columns before and after the cursor of a line. -/
theorem width_before_add_after (l : Line) : width l.before + width l.after = width l.text := by
  rw [← width_append, l.before_append_after]

/-- Moving the cursor in a line that is shown. -/
theorem Shows.replay_redraw_cursor {old new : Line} (h : screen.Shows p old.text)
    (hcolumn : screen.column = p + width old.before) (hold : ∀ c ∈ old.text, 0 < charWidth c)
    (hsame : old.text = new.text) :
    (screen.replay (old.redraw new)).Shows p new.text ∧
      (screen.replay (old.redraw new)).column = p + width new.before := by
  unfold Line.redraw
  rw [if_pos hsame]
  split
  · rename_i hlt
    have hbetween := width_take_add_between (s := old.text) (Nat.le_of_lt hlt)
    have hcolumn' : screen.column = p + width (old.text.take old.cursor) := hcolumn
    rw [replay_backspaces, ← hsame]
    refine ⟨h, ?_⟩
    show screen.column - _ = _
    rw [Line.before, ← hsame, hcolumn']
    omega
  · rename_i hle
    have hbefore : old.before ++ (new.text.take new.cursor).drop old.cursor = new.before := by
      have htaken : old.before = (new.text.take new.cursor).take old.cursor := by
        rw [List.take_take, Nat.min_eq_left (by omega), ← hsame, Line.before]
      rw [htaken, List.take_append_drop, Line.before]
    have hnew : old.before ++ (new.text.take new.cursor).drop old.cursor ++ new.after =
        new.text := by
      rw [hbefore, new.before_append_after]
    have hpassed : ∀ c ∈ (new.text.take new.cursor).drop old.cursor, 0 < charWidth c := by
      intro c hc
      exact hold c (hsame ▸ List.mem_of_mem_take (List.mem_of_mem_drop hc))
    rw [hsame, ← hnew] at h
    have hreplay := h.replay_same hcolumn hpassed
    rwa [hnew, hbefore] at hreplay

/-- Changing the text of a line that is shown. -/
theorem Shows.replay_redraw_text {old new : Line} (h : screen.Shows p old.text)
    (hcolumn : screen.column = p + width old.before) (hnew : ∀ c ∈ new.text, 0 < charWidth c)
    (hdiffer : old.text ≠ new.text) :
    (screen.replay (old.redraw new)).Shows p new.text ∧
      (screen.replay (old.redraw new)).column = p + width new.before := by
  unfold Line.redraw
  rw [if_neg hdiffer]
  simp only [erase]
  generalize hstart : min (commonLength old.text new.text) old.cursor = start
  generalize hspaces : width (old.text.drop start) - width (new.text.drop start) = n
  have hcommon : old.text.take start = new.text.take start := take_commonLength (by omega)
  -- the cursor goes back behind what both texts begin with
  have hback : screen.column - width ((old.text.take old.cursor).drop start) =
      p + width (new.text.take start) := by
    have hle : start ≤ old.cursor := by omega
    have hbetween := width_take_add_between (s := old.text) hle
    rw [hcolumn, Line.before, ← hcommon]
    omega
  have hbegins : screen.Begins p (new.text.take start) := by
    rw [← List.take_append_drop start old.text, hcommon] at h
    exact h.begins_of_append
  -- from there the rest of the new text is written, and spaces over what is left of the old one
  have hfull : new.text.take start ++ (new.text.drop start ++ List.replicate n ' ') =
      new.text ++ List.replicate n ' ' := by
    rw [← List.append_assoc, List.take_append_drop]
  have hvisible : ∀ c ∈ new.text.drop start ++ List.replicate n ' ', 0 < charWidth c := by
    intro c hc
    rcases List.mem_append.1 hc with hc | hc
    · exact hnew c (List.mem_of_mem_drop hc)
    · rw [List.eq_of_mem_replicate hc, Text.charWidth_space]
      exact Nat.one_pos
  have hblank : screen.BlankFrom (p + width (new.text ++ List.replicate n ' ')) := by
    refine (shows_iff.1 h).2.mono ?_
    have hold := width_take_add_drop start old.text
    have hnew := width_take_add_drop start new.text
    rw [width_append, width_replicate_space]
    rw [hcommon] at hold
    omega
  have hwritten : (({ screen with
      column := screen.column - width ((old.text.take old.cursor).drop start) } : Screen).replay
        (new.text.drop start ++ List.replicate n ' ')).Begins p _ ∧ _ ∧ _ :=
    Begins.replay hbegins hback hvisible hblank (Nat.le_of_eq (by rw [hfull]))
  rw [hfull] at hwritten
  obtain ⟨hbegins', hcolumn', hblank'⟩ := hwritten
  have hshows := (shows_iff.2 ⟨hbegins', hblank'⟩).of_append_spaces
  simp only [replay_append, replay_backspaces] at hshows hcolumn' ⊢
  refine ⟨hshows, ?_⟩
  have hafter := width_before_add_after new
  rw [width_append, width_replicate_space] at hcolumn'
  rw [hcolumn']
  omega

/-- **Redrawing.** A row that shows one line, with the cursor in its place, comes to show another,
with the cursor in its place. -/
theorem Shows.replay_redraw {old new : Line} (h : screen.Shows p old.text)
    (hcolumn : screen.column = p + width old.before) (hold : ∀ c ∈ old.text, 0 < charWidth c)
    (hnew : ∀ c ∈ new.text, 0 < charWidth c) :
    (screen.replay (old.redraw new)).Shows p new.text ∧
      (screen.replay (old.redraw new)).column = p + width new.before := by
  by_cases hsame : old.text = new.text
  · exact h.replay_redraw_cursor hcolumn hold hsame
  · exact h.replay_redraw_text hcolumn hnew hsame

end Screen

end LineEditor.Terminal
