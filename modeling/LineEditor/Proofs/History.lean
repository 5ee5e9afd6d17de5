import LineEditor.Line.Edit
import LineEditor.Proofs.Lists

/-!
# Browsing the history

What a history holds are the lines that were entered into it and were not empty, the last of them if
there is a cap (`History.kept`). Where a browsing user is, is told by a depth: the number of entries
from the newest one to the one that is shown, both included, or zero when none is shown
(`History.depth`). One step back makes it one more, one step forward one less.

A `Browser` is no more than the lines and the depth, with the line that is edited. What it shows
after any `Visit`s is what the history and the two functions that browse it show
(`History.follows_depth`).
-/

namespace LineEditor

namespace History

variable (h : History)

/-- How far back the entry is that is shown. -/
def depth : Nat := h.pos?.elim 0 (h.entries.length - ·)

/-- The entry that is so far back, the newest being the first. -/
def back? (entries : List (List Char)) (depth : Nat) : Option (List Char) :=
  if depth = 0 then none else entries.reverse[depth - 1]?

/-- The lines that are kept: those that are not empty, the last of them if there is a cap. -/
def kept (cap : Nat) (lines : List (List Char)) : List (List Char) :=
  let lines := lines.filter (!·.isEmpty)
  if cap = 0 then lines else lines.rtake cap

theorem back?_eq {entries : List (List Char)} {depth : Nat} (hpos : 0 < depth)
    (hle : depth ≤ entries.length) : back? entries depth = entries[entries.length - depth]? := by
  rw [back?, if_neg (Nat.ne_of_gt hpos), List.getElem?_reverse (by omega)]
  congr 1
  omega

theorem exists_back? {entries : List (List Char)} {depth : Nat} (hpos : 0 < depth)
    (hle : depth ≤ entries.length) : ∃ entry, back? entries depth = some entry := by
  rw [back?_eq hpos hle]
  exact ⟨_, List.getElem?_eq_getElem (by omega)⟩

theorem depth_of_none {h : History} (hpos : h.pos? = none) : h.depth = 0 := by
  rw [depth, hpos, Option.elim]

theorem depth_of_some {h : History} {i : Nat} (hpos : h.pos? = some i) :
    h.depth = h.entries.length - i := by
  rw [depth, hpos, Option.elim]

theorem depth_le : h.depth ≤ h.entries.length := by
  cases hpos : h.pos? with
  | none =>
    rw [depth_of_none hpos]
    exact Nat.zero_le _
  | some i =>
    rw [depth_of_some hpos]
    exact Nat.sub_le ..

/-- The position by the depth. -/
theorem pos?_eq : h.pos? = if h.depth = 0 then none else some (h.entries.length - h.depth) := by
  cases hpos : h.pos? with
  | none => rw [depth_of_none hpos, if_pos rfl]
  | some i =>
    have hlt : i < h.entries.length := h.pos?_lt i hpos
    rw [depth_of_some hpos, if_neg (by omega)]
    exact congrArg some (by omega)

/-! ### What the operations do to the depth -/

/-- `h'` is `h` with another depth. -/
structure Moved (h h' : History) (depth : Nat) : Prop where
  /-- The cap stays. -/
  cap : h'.cap = h.cap
  /-- The entries stay. -/
  entries : h'.entries = h.entries
  /-- The depth is another one. -/
  depth : h'.depth = depth

theorem depth_push (line : List Char) : (h.push line).depth = 0 := by
  rw [push]
  split <;> rfl

theorem cap_push (line : List Char) : (h.push line).cap = h.cap := by
  rw [push]
  split <;> rfl

/-- Of one more line than before, the same ones are kept as of the kept ones and this line. -/
theorem entries_push {lines : List (List Char)} (hkept : h.entries = kept h.cap lines)
    (line : List Char) : (h.push line).entries = kept h.cap (lines ++ [line]) := by
  rw [kept, List.filter_append]
  by_cases hempty : line.isEmpty = true
  · have hnone : [line].filter (!·.isEmpty) = [] := by simp [hempty]
    rw [hnone, List.append_nil, push, if_pos hempty]
    exact hkept
  · have hsome : [line].filter (!·.isEmpty) = [line] := by simp [hempty]
    rw [hsome, push, if_neg hempty]
    by_cases hcap : h.cap = 0
    · simp [capped, kept, hkept, hcap]
    · simp only [capped, if_neg hcap, hkept, kept]
      exact rtake_rtake_concat ..

/-- A step back shows the entry that is one further back, unless there is none. -/
theorem previous_cases :
    (h.depth = h.entries.length ∧ h.previous = (h, none)) ∨
      h.depth < h.entries.length ∧ Moved h h.previous.1 (h.depth + 1) ∧
        h.previous.2 = back? h.entries (h.depth + 1) := by
  obtain ⟨cap, entries, pos?, hvalid⟩ := h
  cases pos? with
  | none =>
    by_cases hentries : 0 < entries.length
    · refine .inr ⟨hentries, ?_⟩
      simp only [previous, dif_pos hentries]
      refine ⟨⟨rfl, rfl, ?_⟩, (back?_eq (Nat.succ_pos _) hentries).symm⟩
      exact Nat.sub_sub_self hentries
    · refine .inl ⟨(Nat.eq_zero_of_not_pos hentries).symm, ?_⟩
      simp only [previous, dif_neg hentries]
  | some i =>
    have hlt : i < entries.length := hvalid i rfl
    cases i with
    | zero => exact .inl ⟨rfl, rfl⟩
    | succ i =>
      have hdepth : entries.length - i = entries.length - (i + 1) + 1 := by omega
      refine .inr ⟨Nat.sub_lt_of_pos_le (Nat.succ_pos _) (Nat.le_of_lt hlt), ⟨rfl, rfl, hdepth⟩, ?_⟩
      have hle : entries.length - (i + 1) + 1 ≤ entries.length := by omega
      refine Eq.trans ?_ (back?_eq (Nat.succ_pos _) hle).symm
      exact congrArg (entries[·]?) (by omega)

/-- A step forward shows the entry that is one less far back, if there is one. -/
theorem next_cases :
    Moved h h.next.1 (h.depth - 1) ∧ h.next.2 = back? h.entries (h.depth - 1) := by
  obtain ⟨cap, entries, pos?, hvalid⟩ := h
  cases pos? with
  | none => exact ⟨⟨rfl, rfl, rfl⟩, rfl⟩
  | some i =>
    have hlt : i < entries.length := hvalid i rfl
    by_cases hnext : i + 1 < entries.length
    · simp only [next, dif_pos hnext]
      have hdepth : entries.length - (i + 1) = entries.length - i - 1 := by omega
      have hpos : 0 < entries.length - i - 1 := by omega
      refine ⟨⟨rfl, rfl, hdepth⟩, Eq.trans ?_ (back?_eq hpos (by omega)).symm⟩
      exact congrArg (entries[·]?) (by omega)
    · simp only [next, dif_neg hnext]
      have hdepth : 0 = entries.length - i - 1 := by omega
      refine ⟨⟨rfl, rfl, hdepth⟩, ?_⟩
      change none = back? entries (entries.length - i - 1)
      rw [← hdepth]
      rfl

end History

/-! ### The functions that browse -/

namespace Builtin

variable (history : History) (line : Line)

theorem apply_previousHistory :
    previousHistory.apply history line =
      (history.previous.1, history.previous.2.elim line .ofText) := by
  rw [apply]
  rcases history.previous with ⟨_, _ | entry⟩ <;> rfl

theorem apply_nextHistory :
    nextHistory.apply history line =
      if history.depth = 0 then (history, line)
      else (history.next.1, .ofText (history.next.2.getD [])) := by
  rw [apply, history.pos?_eq]
  split_ifs
  · rfl
  · rcases history.next with ⟨_, _ | entry⟩ <;> rfl

end Builtin

/-! ### A list of lines and a depth -/

open History (back? kept)

/-- What is done with a history and the line that is edited. -/
inductive Visit where
  /-- Enters a line into the history. -/
  | push (line : List Char)
  /-- Steps back, and leaves the line alone. -/
  | previous
  /-- Steps forward, and leaves the line alone. -/
  | next
  /-- Applies the function that fetches the entry before. -/
  | fetchPrevious
  /-- Applies the function that fetches the entry after. -/
  | fetchNext
  deriving DecidableEq, Repr

namespace Visit

/-- The edit that a visit is. -/
def edit : Visit → Edit
  | .push line => .push line
  | .previous => .previous
  | .next => .next
  | .fetchPrevious => .call Builtin.previousHistory.name
  | .fetchNext => .call Builtin.nextHistory.name

/-- The line that is entered. -/
def pushed? : Visit → Option (List Char)
  | .push line => some line
  | _ => none

end Visit

/-- The lines that were entered, and how far back the user is who edits a line. -/
structure Browser where
  /-- The lines, oldest first. -/
  lines : List (List Char) := []
  /-- How far back the entry is that is shown, or zero. -/
  depth : Nat := 0
  /-- The line that is edited. -/
  line : Line
  deriving DecidableEq, Repr

namespace Browser

/-- A visit, when the history has a cap: the browser after it, and the answer. -/
def visit (cap : Nat) (b : Browser) : Visit → Browser × EditAnswer
  | .push line => ({ b with lines := b.lines ++ [line], depth := 0 }, .nothing)
  | .previous =>
    if b.depth = (kept cap b.lines).length then (b, .entry none)
    else ({ b with depth := b.depth + 1 }, .entry (back? (kept cap b.lines) (b.depth + 1)))
  | .next =>
    ({ b with depth := b.depth - 1 }, .entry (back? (kept cap b.lines) (b.depth - 1)))
  | .fetchPrevious =>
    if b.depth = (kept cap b.lines).length then (b, .found true)
    else
      ({ b with
          depth := b.depth + 1
          line := .ofText ((back? (kept cap b.lines) (b.depth + 1)).getD []) },
        .found true)
  | .fetchNext =>
    if b.depth = 0 then (b, .found true)
    else
      ({ b with
          depth := b.depth - 1
          line := .ofText ((back? (kept cap b.lines) (b.depth - 1)).getD []) },
        .found true)

/-- Visits from an empty history with a cap on; the answers to them. -/
def run (cap : Nat) (line : Line) (visits : List Visit) : Browser × List EditAnswer :=
  visits.foldl
    (fun (b, answers) v =>
      let (b, answer) := b.visit cap v
      (b, answers ++ [answer]))
    ({ line }, [])

/-- The browser tells what is in a history and where its user is. -/
structure Tells (b : Browser) (h : History) : Prop where
  /-- The entries are the lines that are kept. -/
  entries : h.entries = kept h.cap b.lines
  /-- The depth is the same. -/
  depth : h.depth = b.depth

/-- With another depth. -/
theorem Tells.moved {b : Browser} {h h' : History} {depth : Nat} {line : Line} (ht : b.Tells h)
    (hmoved : h.Moved h' depth) : ({ b with depth, line } : Browser).Tells h' where
  entries := by rw [hmoved.entries, hmoved.cap, ht.entries]
  depth := hmoved.depth

/-- **Step lemma.** A visit does to the browser what the edit does to the history and the line. -/
theorem Tells.visit {b : Browser} {h : History} (ht : b.Tells h) (v : Visit) :
    (v.edit.apply h b.line).1.cap = h.cap ∧
      (b.visit h.cap v).1.Tells (v.edit.apply h b.line).1 ∧
        (v.edit.apply h b.line).2 = ((b.visit h.cap v).1.line, (b.visit h.cap v).2) := by
  cases v with
  | push line =>
    refine ⟨h.cap_push line, ⟨?_, h.depth_push line⟩, rfl⟩
    rw [Visit.edit, Edit.apply, h.cap_push]
    exact h.entries_push ht.entries line
  | previous =>
    simp only [Visit.edit, Edit.apply, Browser.visit, ← ht.depth, ← ht.entries]
    obtain ⟨holdest, hprevious⟩ | ⟨hlt, hmoved, hentry⟩ := h.previous_cases
    · rw [if_pos holdest, hprevious]
      exact ⟨rfl, ht, rfl⟩
    · rw [if_neg (Nat.ne_of_lt hlt), hentry]
      exact ⟨hmoved.cap, ht.moved hmoved, rfl⟩
  | next =>
    simp only [Visit.edit, Edit.apply, Browser.visit, ← ht.depth, ← ht.entries]
    obtain ⟨hmoved, hentry⟩ := h.next_cases
    rw [hentry]
    exact ⟨hmoved.cap, ht.moved hmoved, rfl⟩
  | fetchPrevious =>
    simp only [Visit.edit, Edit.apply, Builtin.ofName?_name, Builtin.apply_previousHistory,
      Browser.visit, ← ht.depth, ← ht.entries]
    obtain ⟨holdest, hprevious⟩ | ⟨hlt, hmoved, hentry⟩ := h.previous_cases
    · rw [if_pos holdest, hprevious]
      exact ⟨rfl, ht, rfl⟩
    · obtain ⟨entry, hfound⟩ := History.exists_back? (Nat.succ_pos _) hlt
      rw [if_neg (Nat.ne_of_lt hlt), hentry, hfound]
      exact ⟨hmoved.cap, ht.moved hmoved, rfl⟩
  | fetchNext =>
    simp only [Visit.edit, Edit.apply, Builtin.ofName?_name, Builtin.apply_nextHistory,
      Browser.visit, ← ht.depth, ← ht.entries]
    obtain ⟨hmoved, hentry⟩ := h.next_cases
    split_ifs with hnone
    · exact ⟨rfl, ht, rfl⟩
    · rw [hentry]
      exact ⟨hmoved.cap, ht.moved hmoved, rfl⟩

theorem run_concat (cap : Nat) (line : Line) (visits : List Visit) (v : Visit) :
    run cap line (visits ++ [v]) =
      let (b, answers) := run cap line visits
      let (b, answer) := b.visit cap v
      (b, answers ++ [answer]) := by
  rw [run, List.foldl_append]
  rfl

/-- **Run lemma.** After any visits, from an empty history with a cap on, the browser tells what is
in the history, and has the line that is edited. -/
theorem tells_run (cap : Nat) (line : Line) (visits : List Visit) :
    (Edit.run (visits.map Visit.edit) (.empty cap) line).1.cap = cap ∧
      (run cap line visits).1.Tells (Edit.run (visits.map Visit.edit) (.empty cap) line).1 ∧
        (Edit.run (visits.map Visit.edit) (.empty cap) line).2 =
          ((run cap line visits).1.line, (run cap line visits).2) := by
  induction visits using List.reverseRecOn with
  | nil =>
    refine ⟨rfl, ⟨?_, rfl⟩, rfl⟩
    simp [Edit.run, run, History.empty, kept]
  | append_singleton visits v ih =>
    rw [List.map_append, List.map_singleton, Edit.run_concat, run_concat]
    obtain ⟨hcap, htells, hline⟩ := ih
    obtain ⟨hcap', htells', hline'⟩ := htells.visit v
    rw [hcap] at hcap' htells' hline'
    simp only [hline, hline']
    exact ⟨hcap', htells', trivial⟩

/-- The lines of a browser are those that were entered. -/
theorem lines_run (cap : Nat) (line : Line) (visits : List Visit) :
    (run cap line visits).1.lines = visits.filterMap Visit.pushed? := by
  induction visits using List.reverseRecOn with
  | nil => rfl
  | append_singleton visits v ih =>
    rw [run_concat, List.filterMap_append, ← ih]
    cases v with
    | push line => rfl
    | next => exact (List.append_nil _).symm
    | previous | fetchPrevious | fetchNext =>
      simp only [visit]
      split_ifs <;> exact (List.append_nil _).symm

end Browser

namespace History

/-- What holds after some visits, from an empty history with a cap on: `h` and `edited` are the
history and the line then, with the answers to the visits, and `b` and `answers` what the browser
makes of them. -/
structure FollowsDepth (cap : Nat) (visits : List Visit) (h : History)
    (edited : Line × List EditAnswer) (b : Browser) (answers : List EditAnswer) : Prop where
  /-- The lines of the browser are those that were entered, in order. -/
  lines : b.lines = visits.filterMap Visit.pushed?
  /-- The entries are those of them that are not empty, the last ones if there is a cap. -/
  entries : h.entries = kept cap b.lines
  /-- No depth is beyond the oldest entry. -/
  depth_le : b.depth ≤ h.entries.length
  /-- Without a depth there is no position, and otherwise it is that of the entry so far back. -/
  pos? : h.pos? = if b.depth = 0 then none else some (h.entries.length - b.depth)
  /-- At each depth there is an entry, counted from the newest. -/
  back? : ∀ depth, 0 < depth → depth ≤ h.entries.length → ∃ entry,
    back? (kept cap b.lines) depth = some entry ∧
      h.entries[h.entries.length - depth]? = some entry
  /-- The line and the answers are those of the browser. -/
  edited : edited = (b.line, answers)

/-- **Browsing follows a depth.** Whatever is entered and however the user browses, on the history
alone or by the functions that fetch its entries into the line, the entries are the lines that were
entered last, and steps back and forward count a depth up and down. -/
theorem follows_depth (cap : Nat) (line : Line) (visits : List Visit) :
    FollowsDepth cap visits (Edit.run (visits.map Visit.edit) (.empty cap) line).1
      (Edit.run (visits.map Visit.edit) (.empty cap) line).2
      (Browser.run cap line visits).1 (Browser.run cap line visits).2 := by
  obtain ⟨hcap, htells, hline⟩ := Browser.tells_run cap line visits
  generalize (Edit.run (visits.map Visit.edit) (.empty cap) line).1 = h at hcap htells ⊢
  have hentries := htells.entries
  rw [hcap] at hentries
  refine ⟨Browser.lines_run cap line visits, hentries, ?_, ?_, fun depth hpos hle => ?_, hline⟩
  · rw [← htells.depth]
    exact h.depth_le
  · rw [← htells.depth]
    exact h.pos?_eq
  · obtain ⟨entry, hentry⟩ := exists_back? hpos hle
    rw [← hentries, ← back?_eq hpos hle]
    exact ⟨entry, hentry, hentry⟩

end History

end LineEditor
