import LineEditor.Line.Buffer
import LineEditor.Proofs.History
import LineEditor.Proofs.Memory

/-!
# Lines in memory are lines

A line in memory *holds* a line (`Buffer.Holds`) when it has its characters and its cursor, and a
history in memory holds a history likewise. Each operation keeps this up, and gives the same answer
as the edit that it is. It is never at fault, unless the line that it would make is too large for
the memory (`Store.Holds.gives_perform`); so it is with whole runs, from an empty line on
(`Operation.gives_run`).

It takes no more than that the cursor is within a line and a position is that of an entry, both of
which a `Line` and a `History` have by their nature: lengths are below `2 ^ 63`, so whatever is
added to a cursor or taken from it within a line fits in a word, and in a signed word.
-/

namespace LineEditor

open Memory (Fault Vec Gives)

/-- The line does not fit in memory. -/
def Line.Large (l : Line) : Prop := 2 ^ 63 ≤ 4 * l.text.length

/-- An entry does not fit in memory, or there are too many of them. -/
def History.Large (h : History) : Prop :=
  (∃ entry ∈ h.entries, 2 ^ 63 ≤ 4 * entry.length) ∨ 2 ^ 63 ≤ 24 * h.entries.length

namespace Line

variable (l : Line) {distance : Int}

/-- What is left of a line when characters before the cursor are deleted. -/
theorem delete_of_neg (h : distance < 0) :
    l.delete distance =
      ofParts (l.text.take (l.cursor - distance.natAbs)) (l.text.drop l.cursor) := by
  rw [delete, if_pos h, before, List.take_take, Nat.min_eq_left (Nat.sub_le ..)]
  rfl

/-- What is left of a line when characters after the cursor are deleted. -/
theorem delete_of_nonneg (h : ¬ distance < 0) :
    l.delete distance =
      ofParts (l.text.take l.cursor)
        (l.text.drop (min (l.cursor + distance.natAbs) l.text.length)) := by
  rw [delete, if_neg h, after, List.drop_drop]
  refine congrArg (ofParts _) ?_
  rcases Nat.le_total (l.cursor + distance.natAbs) l.text.length with hle | hle
  · rw [Nat.min_eq_left hle]
  · rw [Nat.min_eq_right hle, List.drop_length, List.drop_eq_nil_of_le hle]

end Line

/-! ### Lines -/

/-- The line has these characters and this cursor. -/
structure Buffer.Holds (b : Buffer) (l : Line) : Prop where
  /-- The characters. -/
  text : b.chars.toList = l.text
  /-- The cursor. -/
  cursor : b.cursor.toNat = l.cursor

namespace Buffer.Holds

variable {b : Buffer} {l : Line}

/-- Only one line in memory holds a line. -/
theorem unique {b' : Buffer} (h : b.Holds l) (h' : b'.Holds l) : b = b' := by
  obtain ⟨⟨chars, _⟩, cursor⟩ := b
  obtain ⟨⟨chars', _⟩, cursor'⟩ := b'
  obtain rfl : chars = chars' := h.text.trans h'.text.symm
  obtain rfl : cursor = cursor' := UInt64.toNat_inj.1 (h.cursor.trans h'.cursor.symm)
  rfl

theorem length_lt (h : b.Holds l) : l.text.length < 2 ^ 63 := by
  rw [← h.text]
  exact b.chars.length_lt (by decide)

theorem toNat_length (h : b.Holds l) : b.chars.length.toNat = l.text.length := by
  rw [Vec.toNat_length (by decide), h.text]

theorem cursor_lt (h : b.Holds l) : l.cursor < 2 ^ 63 :=
  Nat.lt_of_le_of_lt l.cursor_le h.length_lt

theorem ofStored (text : StoredText) : (ofStored text).Holds (.ofText text.toList) :=
  ⟨rfl, Vec.toNat_length (by decide) text⟩

theorem insert (h : b.Holds l) (text : StoredText) :
    Gives (l.insert text.toList).Large (·.Holds (l.insert text.toList)) (b.insert text) := by
  have hcursor : b.cursor.toNat ≤ b.chars.toList.length := by
    rw [h.cursor, h.text]
    exact l.cursor_le
  have htext : b.chars.toList.take b.cursor.toNat ++ text.toList ++
      b.chars.toList.drop b.cursor.toNat = (l.insert text.toList).text := by
    rw [h.cursor, h.text, Line.text_insert]
    rfl
  rw [Buffer.insert, Vec.splice_eq (by decide) (Nat.le_refl _) hcursor, htext]
  refine (Vec.gives_ofList _).bind id fun chars hchars => ?_
  -- the cursor stays within the line, which is in memory
  have hsum : b.cursor.toNat + text.toList.length ≤ chars.toList.length := by
    rw [hchars, ← htext, List.length_append, List.length_append, List.length_take_of_le hcursor]
    omega
  have hlt : chars.toList.length < 2 ^ 63 := chars.length_lt (by decide)
  have hlength := Vec.toNat_length (by decide) text
  obtain ⟨cursor, hadd, hcursor'⟩ := Memory.exists_add (a := b.cursor) (b := text.length) (by omega)
  rw [hadd]
  refine .ok ⟨hchars, ?_⟩
  change cursor.toNat = (l.before ++ text.toList).length
  rw [hcursor', hlength, h.cursor, List.length_append, l.length_before]

theorem truncate (h : b.Holds l) (size : UInt64) :
    (b.truncate size).Holds (l.truncate size.toNat) where
  text := congrArg (List.take size.toNat) h.text
  cursor := by
    have hlength : (b.chars.truncate size).length.toNat = (l.text.take size.toNat).length := by
      rw [Vec.toNat_length (by decide), ← h.text]
      rfl
    change (min b.cursor (b.chars.truncate size).length).toNat =
      min l.cursor (l.text.take size.toNat).length
    rw [UInt64.toNat_min, h.cursor, hlength]

theorem moveTo (h : b.Holds l) (position : UInt64) :
    (b.moveTo position).Holds (l.moveTo position.toNat) where
  text := h.text
  cursor := by
    change (min position b.chars.length).toNat = min position.toNat l.text.length
    rw [UInt64.toNat_min, h.toNat_length]

theorem moveBy (h : b.Holds l) (distance : Int64) :
    ∃ b' moved, b.moveBy distance = .ok (b', moved) ∧ b'.Holds (l.moveBy distance.toInt) ∧
      moved.toInt = (l.moveBy distance.toInt).cursor - l.cursor := by
  have hlength := h.length_lt
  have hlt := h.cursor_lt
  have hcursor : (min (Memory.saturatingAddSigned b.cursor distance) b.chars.length).toNat =
      (l.moveBy distance.toInt).cursor := by
    change _ = min (l.cursor + distance.toInt).toNat l.text.length
    rw [UInt64.toNat_min, Memory.saturatingAddSigned, Memory.toNat_nearest, h.toNat_length,
      h.cursor]
    omega
  have hlt' : (l.moveBy distance.toInt).cursor < 2 ^ 63 :=
    Nat.lt_of_le_of_lt (l.moveBy distance.toInt).cursor_le hlength
  obtain ⟨moved, hmoved, heq⟩ := Memory.exists_signed
    (n := (l.moveBy distance.toInt).cursor - l.cursor) (by omega) (by omega)
  refine ⟨b.moveTo (Memory.saturatingAddSigned b.cursor distance), moved, ?_,
    ⟨h.text, hcursor⟩, heq⟩
  rw [Buffer.moveBy, Memory.subSigned, Memory.toInt_toInt64 (by omega),
    Memory.toInt_toInt64 (by rw [h.cursor]; exact hlt), hcursor, h.cursor, hmoved]
  rfl

/-- The bounds of a deletion are within the line, and what is between them is deleted. -/
theorem deleted (h : b.Holds l) (distance : Int64) :
    (b.deleted distance).1.toNat ≤ (b.deleted distance).2.toNat ∧
      (b.deleted distance).2.toNat ≤ l.text.length ∧
        l.delete distance.toInt = .ofParts (l.text.take (b.deleted distance).1.toNat)
          (l.text.drop (b.deleted distance).2.toNat) := by
  have hlt := h.length_lt
  have hle := l.cursor_le
  have hmagnitude := Memory.toNat_magnitude distance
  rw [Buffer.deleted]
  split
  next hneg =>
    have hneg : distance.toInt < 0 := Int64.lt_iff_toInt_lt.1 hneg
    have hstart : (Memory.saturatingSub b.cursor (Memory.magnitude distance)).toNat =
        l.cursor - distance.toInt.natAbs := by
      rw [Memory.saturatingSub, Memory.toNat_nearest, h.cursor, hmagnitude]
      omega
    rw [l.delete_of_neg hneg, hstart, h.cursor]
    exact ⟨Nat.sub_le .., hle, rfl⟩
  next hneg =>
    have hneg : ¬ distance.toInt < 0 := fun hlt => hneg (Int64.lt_iff_toInt_lt.2 hlt)
    have hstop : (min (Memory.saturatingAdd b.cursor (Memory.magnitude distance))
        b.chars.length).toNat = min (l.cursor + distance.toInt.natAbs) l.text.length := by
      rw [UInt64.toNat_min, Memory.saturatingAdd, Memory.toNat_nearest, h.toNat_length, h.cursor,
        hmagnitude]
      omega
    rw [l.delete_of_nonneg hneg, hstop, h.cursor]
    exact ⟨by omega, Nat.min_le_right .., rfl⟩

theorem delete (h : b.Holds l) (distance : Int64) :
    ∃ b' removed, b.delete distance = .ok (b', removed) ∧ b'.Holds (l.delete distance.toInt) ∧
      removed.toNat = l.text.length - (l.delete distance.toInt).text.length := by
  obtain ⟨hstart, hstop, hdelete⟩ := h.deleted distance
  rw [hdelete, Buffer.delete]
  generalize b.deleted distance = bounds at hstart hstop ⊢
  obtain ⟨start, stop⟩ := bounds
  dsimp only at hstart hstop ⊢
  obtain ⟨chars, hdrain, hchars⟩ := Vec.exists_drain (v := b.chars) (by decide) hstart
    (by rwa [h.text])
  obtain ⟨removed, hsub, hremoved⟩ := Memory.exists_sub hstart
  refine ⟨{ chars, cursor := start }, removed, ?_, ⟨?_, ?_⟩, ?_⟩
  · simp only [hdrain, hsub]
    rfl
  · rw [hchars, h.text]
    rfl
  · exact (List.length_take_of_le (Nat.le_trans hstart hstop)).symm
  · rw [hremoved]
    change _ = _ - (l.text.take start.toNat ++ l.text.drop stop.toNat).length
    rw [List.length_append, List.length_take, List.length_drop]
    omega

end Buffer.Holds

/-! ### Histories -/

/-- The history has these entries and this position. -/
structure Shelf.Holds (shelf : Shelf) (history : History) : Prop where
  /-- The entries. -/
  entries : shelf.entries.toList.map Vec.toList = history.entries
  /-- The position. -/
  position? : shelf.position?.map UInt64.toNat = history.pos?

/-- Lists are put into memory one after another. -/
theorem gives_mapM_ofList (texts : List (List Char)) :
    Gives (∃ text ∈ texts, 2 ^ 63 ≤ 4 * text.length)
      (fun stored : List StoredText => stored.map Vec.toList = texts) (texts.mapM Vec.ofList) := by
  induction texts with
  | nil => exact .ok rfl
  | cons text rest ih =>
    rw [List.mapM_cons]
    refine (Vec.gives_ofList text).bind (fun h => ⟨text, List.mem_cons_self, h⟩) fun v hv => ?_
    refine ih.bind (fun ⟨long, hmem, h⟩ => ⟨long, List.mem_cons_of_mem _ hmem, h⟩) fun vs hvs => ?_
    exact .ok (by rw [List.map_cons, hv, hvs])

namespace Shelf

/-- A history is put into memory. -/
theorem gives_ofHistory (history : History) :
    Gives history.Large (·.Holds history) (ofHistory history) := by
  refine (gives_mapM_ofList history.entries).bind .inl fun texts htexts => ?_
  have hlength : texts.length = history.entries.length := by rw [← htexts, List.length_map]
  refine (Vec.gives_ofList texts).bind (fun h => .inr (by rwa [← hlength]))
    fun entries hentries => ?_
  refine .ok ⟨by rw [hentries, htexts], ?_⟩
  have hlt : history.entries.length < 2 ^ 63 := by
    rw [← hlength, ← hentries]
    exact entries.length_lt (by decide)
  cases hpos : history.pos? with
  | none => rfl
  | some i =>
    have hi : i < history.entries.length := history.pos?_lt i hpos
    have hfits : i < 2 ^ 64 := by omega
    exact congrArg some (UInt64.toNat_ofNat_of_lt' hfits)

/-- A step back goes to the last of the entries before the one that is shown. -/
theorem previous_eq (shelf : Shelf) :
    shelf.previous =
      if shelf.position?.getD shelf.entries.length = 0 then .ok (shelf, none)
      else do
        let position ← Memory.sub (shelf.position?.getD shelf.entries.length) 1
        return ({ shelf with position? := some position }, shelf.entries.get? position) := by
  rw [previous]
  cases shelf.position? <;> rfl

namespace Holds

variable {shelf : Shelf} {history : History}

theorem toNat_length (h : shelf.Holds history) :
    shelf.entries.length.toNat = history.entries.length := by
  rw [Vec.toNat_length (by decide), ← h.entries, List.length_map]

theorem length_lt (h : shelf.Holds history) : history.entries.length < 2 ^ 63 := by
  rw [← h.toNat_length, Vec.toNat_length (by decide)]
  exact shelf.entries.length_lt (by decide)

theorem get? (h : shelf.Holds history) (i : UInt64) :
    (shelf.entries.get? i).map Vec.toList = history.entries[i.toNat]? := by
  rw [Vec.get?, ← h.entries, List.getElem?_map]

/-- The position is put to the entry that is so far back. -/
theorem moveTo (h : shelf.Holds history) {history' : History} {depth : Nat} {position : UInt64}
    (hmoved : history.Moved history' depth) (hdepth : 0 < depth)
    (hle : depth ≤ history.entries.length)
    (hposition : position.toNat = history.entries.length - depth) :
    ({ shelf with position? := some position } : Shelf).Holds history' ∧
      (shelf.entries.get? position).map Vec.toList = History.back? history.entries depth := by
  refine ⟨⟨h.entries.trans hmoved.entries.symm, ?_⟩, ?_⟩
  · rw [history'.pos?_eq, hmoved.depth, if_neg (Nat.ne_of_gt hdepth), hmoved.entries, ← hposition]
    rfl
  · rw [h.get?, hposition, History.back?_eq hdepth hle]

/-- The position is given up. -/
theorem leave (h : shelf.Holds history) {history' : History} (hmoved : history.Moved history' 0) :
    ({ shelf with position? := none } : Shelf).Holds history' where
  entries := h.entries.trans hmoved.entries.symm
  position? := by
    rw [history'.pos?_eq, hmoved.depth]
    rfl

/-- The entries before the one that is shown are as many as the depth leaves. -/
theorem toNat_before (h : shelf.Holds history) :
    (shelf.position?.getD shelf.entries.length).toNat = history.entries.length - history.depth := by
  have hposition := h.position?
  cases hshelf : shelf.position? with
  | none =>
    rw [hshelf] at hposition
    rw [History.depth_of_none hposition.symm]
    exact h.toNat_length
  | some i =>
    rw [hshelf] at hposition
    have hlt : i.toNat < history.entries.length := history.pos?_lt _ hposition.symm
    rw [History.depth_of_some hposition.symm]
    exact (Nat.sub_sub_self (Nat.le_of_lt hlt)).symm

theorem previous (h : shelf.Holds history) :
    ∃ shelf' entry?, shelf.previous = .ok (shelf', entry?) ∧ shelf'.Holds history.previous.1 ∧
      entry?.map Vec.toList = history.previous.2 := by
  have hbefore := h.toNat_before
  rw [previous_eq]
  obtain ⟨holdest, hprevious⟩ | ⟨hlt, hmoved, hentry⟩ := history.previous_cases
  · have hzero : shelf.position?.getD shelf.entries.length = 0 :=
      UInt64.toNat_inj.1 (by rw [hbefore, holdest, Nat.sub_self]; rfl)
    rw [if_pos hzero, hprevious]
    exact ⟨shelf, none, rfl, h, rfl⟩
  · have hpos : shelf.position?.getD shelf.entries.length ≠ 0 := by
      intro hzero
      have hzero : history.entries.length - history.depth = 0 := by
        rw [← hbefore, hzero]
        rfl
      omega
    have hone : (1 : UInt64).toNat ≤ (shelf.position?.getD shelf.entries.length).toNat := by
      rw [hbefore]
      exact Nat.sub_pos_of_lt hlt
    obtain ⟨position, hsub, hposition⟩ := Memory.exists_sub hone
    rw [hbefore] at hposition
    obtain ⟨hholds, hget⟩ := h.moveTo hmoved (Nat.succ_pos _) hlt
      (hposition.trans (Nat.sub_sub ..))
    rw [if_neg hpos, hsub, hentry]
    exact ⟨_, _, rfl, hholds, hget⟩

theorem next (h : shelf.Holds history) :
    ∃ shelf' entry?, shelf.next = .ok (shelf', entry?) ∧ shelf'.Holds history.next.1 ∧
      entry?.map Vec.toList = history.next.2 := by
  obtain ⟨hmoved, hentry⟩ := history.next_cases
  have hbefore := h.toNat_before
  have hdepth := history.depth_le
  have hlength := h.toNat_length
  have hlt := h.length_lt
  rw [hentry, Shelf.next]
  cases hshelf : shelf.position? with
  | none =>
    have hnone : history.depth = 0 := by
      rw [hshelf, Option.getD_none, hlength] at hbefore
      omega
    rw [hnone] at hmoved ⊢
    refine ⟨shelf, none, rfl, ?_, rfl⟩
    have hleft := h.leave hmoved
    rwa [← hshelf] at hleft
  | some i =>
    rw [hshelf, Option.getD_some] at hbefore
    have hone : (1 : UInt64).toNat = 1 := rfl
    obtain ⟨position, hadd, hposition⟩ := Memory.exists_add (a := i) (b := 1) (by omega)
    simp only [hadd]
    change ∃ shelf' entry?, (if position < shelf.entries.length then _ else _) = _ ∧ _
    split
    next hshown =>
      have hshown : position.toNat < shelf.entries.length.toNat := UInt64.lt_iff_toNat_lt.1 hshown
      have hdepth : position.toNat = history.entries.length - (history.depth - 1) := by omega
      obtain ⟨hholds, hget⟩ := h.moveTo hmoved (by omega) (by omega) hdepth
      exact ⟨_, _, rfl, hholds, hget⟩
    next hshown =>
      have hshown : ¬ position.toNat < shelf.entries.length.toNat :=
        fun hlt => hshown (UInt64.lt_iff_toNat_lt.2 hlt)
      have hnewest : history.depth - 1 = 0 := by omega
      rw [hnewest] at hmoved ⊢
      exact ⟨_, none, rfl, h.leave hmoved, rfl⟩

end Holds

end Shelf

/-! ### Both together -/

/-- The history and the line are in memory. -/
structure Store.Holds (store : Store) (history : History) (line : Line) : Prop where
  /-- The history. -/
  shelf : store.shelf.Holds history
  /-- The line. -/
  buffer : store.buffer.Holds line

namespace Store.Holds

variable {store : Store} {history : History} {line : Line}

/-- Another line. -/
theorem withBuffer (h : store.Holds history line) {buffer : Buffer} {line' : Line}
    (hbuffer : buffer.Holds line') : ({ store with buffer } : Store).Holds history line' :=
  ⟨h.shelf, hbuffer⟩

/-- A built-in function moves the cursor. -/
theorem move (h : store.Holds history line) (distance : Int64) :
    ∃ store', (do return { store with buffer := (← store.buffer.moveBy distance).1 }) =
        (.ok store' : Except Fault Store) ∧
      store'.Holds history (line.moveBy distance.toInt) := by
  obtain ⟨buffer, moved, heq, hholds, -⟩ := h.buffer.moveBy distance
  rw [heq]
  exact ⟨_, rfl, h.withBuffer hholds⟩

/-- A built-in function deletes characters. -/
theorem erase (h : store.Holds history line) (distance : Int64) :
    ∃ store', (do return { store with buffer := (← store.buffer.delete distance).1 }) =
        (.ok store' : Except Fault Store) ∧
      store'.Holds history (line.delete distance.toInt) := by
  obtain ⟨buffer, removed, heq, hholds, -⟩ := h.buffer.delete distance
  rw [heq]
  exact ⟨_, rfl, h.withBuffer hholds⟩

/-- A built-in function is never at fault. -/
theorem call (h : store.Holds history line) (b : Builtin) :
    ∃ store', b.perform store = .ok store' ∧
      store'.Holds (b.apply history line).1 (b.apply history line).2 := by
  cases b with
  | backwardChar => exact h.move (-1)
  | forwardChar => exact h.move 1
  | beginningOfLine => exact ⟨_, rfl, h.withBuffer (h.buffer.moveTo 0)⟩
  | endOfLine =>
    have hmoved := h.buffer.moveTo store.buffer.chars.length
    rw [h.buffer.toNat_length] at hmoved
    exact ⟨_, rfl, h.withBuffer hmoved⟩
  | backwardDeleteChar => exact h.erase (-1)
  | deleteChar => exact h.erase 1
  | killLine =>
    have hshorter := h.buffer.truncate store.buffer.cursor
    rw [h.buffer.cursor] at hshorter
    exact ⟨_, rfl, h.withBuffer hshorter⟩
  | discardLine =>
    have hlt := h.buffer.cursor_lt
    have hcursor := Memory.toInt_toInt64 (a := store.buffer.cursor) (by rwa [h.buffer.cursor])
    obtain ⟨distance, hneg, hdistance⟩ := Memory.exists_signed (n := -line.cursor) (by omega)
      (by omega)
    have herased := h.erase distance
    rw [hdistance] at herased
    simp only [Builtin.perform, Memory.neg, hcursor, h.buffer.cursor, hneg]
    exact herased
  | previousHistory =>
    obtain ⟨shelf, entry?, heq, hholds, hentry⟩ := h.shelf.previous
    rw [Builtin.apply_previousHistory, ← hentry]
    simp only [Builtin.perform, heq]
    cases entry? with
    | none => exact ⟨_, rfl, hholds, h.buffer⟩
    | some entry => exact ⟨_, rfl, hholds, .ofStored entry⟩
  | nextHistory =>
    have hposition := h.shelf.position?
    rw [Builtin.apply_nextHistory]
    cases hshelf : store.shelf.position? with
    | none =>
      rw [hshelf] at hposition
      rw [if_pos (History.depth_of_none hposition.symm)]
      exact ⟨store, by simp only [Builtin.perform, hshelf]; rfl, h⟩
    | some i =>
      rw [hshelf] at hposition
      have hlt : i.toNat < history.entries.length := history.pos?_lt _ hposition.symm
      have hdepth : history.depth ≠ 0 := by
        rw [History.depth_of_some hposition.symm]
        omega
      obtain ⟨shelf, entry?, heq, hholds, hentry⟩ := h.shelf.next
      rw [if_neg hdepth, ← hentry]
      simp only [Builtin.perform, hshelf, heq]
      cases entry? with
      | none => exact ⟨_, rfl, hholds, .ofStored .empty⟩
      | some entry => exact ⟨_, rfl, hholds, .ofStored entry⟩

/-- **Step lemma.** An operation does in memory what its edit does to the line, with the same
answer, unless the line that it makes is too large. -/
theorem gives_perform (h : store.Holds history line) (operation : Operation) :
    Gives (operation.edit.apply history line).2.1.Large
      (fun (store', answer) =>
        store'.Holds (operation.edit.apply history line).1 (operation.edit.apply history line).2.1 ∧
          answer = (operation.edit.apply history line).2.2)
      (operation.perform store) := by
  cases operation with
  | load text | replace text =>
    refine (Vec.gives_ofList text).bind id fun stored hstored => .ok ⟨h.withBuffer ?_, rfl⟩
    have hholds := Buffer.Holds.ofStored stored
    rwa [hstored] at hholds
  | insert text =>
    refine (Vec.gives_ofList text).bind (fun hlarge => ?_) fun stored hstored => ?_
    · refine Nat.le_trans hlarge (Nat.mul_le_mul_left 4 ?_)
      change _ ≤ (line.before ++ text ++ line.after).length
      rw [List.length_append, List.length_append]
      omega
    · have hgives := h.buffer.insert stored
      rw [hstored] at hgives
      exact hgives.bind id fun buffer hbuffer => .ok ⟨h.withBuffer hbuffer, rfl⟩
  | truncate size => exact .ok ⟨h.withBuffer (h.buffer.truncate size), rfl⟩
  | moveTo position => exact .ok ⟨h.withBuffer (h.buffer.moveTo position), rfl⟩
  | moveBy distance =>
    obtain ⟨buffer, moved, heq, hholds, hmoved⟩ := h.buffer.moveBy distance
    simp only [Operation.perform, heq]
    exact .ok ⟨h.withBuffer hholds, congrArg EditAnswer.moved hmoved⟩
  | delete distance =>
    obtain ⟨buffer, removed, heq, hholds, hremoved⟩ := h.buffer.delete distance
    simp only [Operation.perform, heq]
    exact .ok ⟨h.withBuffer hholds, congrArg EditAnswer.removed hremoved⟩
  | call b =>
    obtain ⟨store', heq, hholds⟩ := h.call b
    simp only [Operation.perform, heq, Operation.edit, Edit.apply, Builtin.ofName?_name]
    exact .ok ⟨hholds, rfl⟩

end Store.Holds

/-! ### Runs -/

namespace Operation

theorem run_concat (history : History) (operations : List Operation) (operation : Operation) :
    run history (operations ++ [operation]) = do
      let (store, answers) ← run history operations
      let (store, answer) ← operation.perform store
      return (store, answers ++ [answer]) := by
  simp only [run, List.foldlM_append, List.foldlM_cons, List.foldlM_nil, bind_pure, bind_assoc]

/-- The history does not fit in memory, or one of the lines that the operations make does not. -/
def Exceed (history : History) (operations : List Operation) : Prop :=
  history.Large ∨ ∃ done, done <+: operations ∧
    (Edit.run (done.map edit) history .empty).2.1.Large

/-- **Run lemma.** From an empty line on, operations do in memory what their edits do, with the same
answers, unless something is too large. -/
theorem gives_run (history : History) (operations : List Operation) :
    Gives (Exceed history operations)
      (fun (store, answers) =>
        store.Holds (Edit.run (operations.map edit) history .empty).1
            (Edit.run (operations.map edit) history .empty).2.1 ∧
          answers = (Edit.run (operations.map edit) history .empty).2.2)
      (run history operations) := by
  induction operations using List.reverseRecOn with
  | nil =>
    refine (Shelf.gives_ofHistory history).bind .inl fun shelf hshelf => ?_
    exact .ok ⟨⟨hshelf, rfl, rfl⟩, rfl⟩
  | append_singleton operations operation ih =>
    rw [run_concat]
    refine ih.bind ?_ fun (store, answers) ⟨hholds, hanswers⟩ => ?_
    · rintro (hlarge | ⟨done, hdone, hlarge⟩)
      · exact .inl hlarge
      · exact .inr ⟨done, hdone.trans (List.prefix_append ..), hlarge⟩
    · rw [List.map_append, List.map_singleton, Edit.run_concat]
      refine (hholds.gives_perform operation).bind (fun hlarge => ?_)
        fun (store', answer) ⟨hholds', hanswer⟩ => ?_
      · refine .inr ⟨operations ++ [operation], List.prefix_rfl, ?_⟩
        rwa [List.map_append, List.map_singleton, Edit.run_concat]
      · exact .ok ⟨hholds', by rw [hanswers, hanswer]⟩

end Operation

end LineEditor
