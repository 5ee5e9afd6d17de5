import Mathlib.Data.List.Basic
import Mathlib.Data.List.DropRight
import Mathlib.Tactic.Common

/-!
# Lists that change at one place

What stands where in a list that has got one more element at its end, or another one at a place in
it, what its last elements are, and what such a list of lines is when it is joined.
-/

namespace LineEditor

variable {α : Type} {l : List α} {a b : α}

/-- An element of a list with one more at its end is an old one or the new one. -/
theorem getElem?_concat_eq_some_iff {j : Nat} :
    (l ++ [a])[j]? = some b ↔ l[j]? = some b ∨ j = l.length ∧ a = b := by
  rcases Nat.lt_trichotomy j l.length with hlt | rfl | hgt
  · rw [List.getElem?_append_left hlt]
    exact ⟨.inl, fun h => h.elim id fun h => absurd h.1 (Nat.ne_of_lt hlt)⟩
  · rw [List.getElem?_concat_length, List.getElem?_eq_none (Nat.le_refl _)]
    simp
  · rw [List.getElem?_eq_none (by simp; omega), List.getElem?_eq_none (Nat.le_of_lt hgt)]
    simp [Nat.ne_of_gt hgt]

/-- An old element stands before the new one. -/
theorem lt_or_eq_of_getElem?_concat {j : Nat} (h : (l ++ [a])[j]? = some b) :
    j < l.length ∧ l[j]? = some b ∨ j = l.length ∧ b = a :=
  (getElem?_concat_eq_some_iff.1 h).imp (fun hold => ⟨(List.getElem?_eq_some_iff.1 hold).1, hold⟩)
    fun hnew => ⟨hnew.1, hnew.2.symm⟩

/-- An element of a list with one replaced is the new one or another old one. -/
theorem eq_or_of_getElem?_set {i j : Nat} (h : (l.set i a)[j]? = some b) :
    i = j ∧ b = a ∨ i ≠ j ∧ l[j]? = some b := by
  by_cases hij : i = j
  · subst hij
    rw [List.getElem?_set_self'] at h
    obtain ⟨_, _, hb⟩ := Option.map_eq_some_iff.1 h
    exact .inl ⟨rfl, hb.symm⟩
  · exact .inr ⟨hij, by rwa [List.getElem?_set_ne hij] at h⟩

/-- The length of some lists, joined, with one of them replaced. -/
theorem length_flatten_set_add {lists : List (List α)} {i : Nat} {s : List α}
    (h : lists[i]? = some s) (t : List α) :
    (lists.set i t).flatten.length + s.length = lists.flatten.length + t.length := by
  induction lists generalizing i with
  | nil => cases h
  | cons first rest ih =>
    cases i with
    | zero =>
      obtain rfl : first = s := Option.some_inj.1 h
      simp only [List.set_cons_zero, List.flatten_cons, List.length_append]
      omega
    | succ i =>
      have hrest := ih h
      simp only [List.set_cons_succ, List.flatten_cons, List.length_append]
      omega

/-- Of the last elements, the last ones. -/
theorem rtake_rtake (l : List α) (m n : Nat) : (l.rtake m).rtake n = l.rtake (min n m) := by
  simp only [List.rtake_eq_reverse_take_reverse, List.reverse_reverse, List.take_take]

/-- The last elements of a list with one more are found among the last ones of the old list. -/
theorem rtake_rtake_concat (l : List α) (n : Nat) (a : α) :
    (l.rtake n ++ [a]).rtake n = (l ++ [a]).rtake n := by
  cases n with
  | zero => rw [List.rtake_zero, List.rtake_zero]
  | succ n =>
    rw [List.rtake_concat_succ, List.rtake_concat_succ, rtake_rtake, Nat.min_eq_left (Nat.le_succ n)]

/-- What comes of an element, if there is one. -/
theorem flatMap_toList {β : Type} (o : Option β) (f : β → List α) :
    o.toList.flatMap f = o.elim [] f := by
  cases o <;> simp

/-- Behind other lines, a line follows all of their separators. -/
theorem intercalate_concat (separator : List α) (lines : List (List α)) (text : List α) :
    List.intercalate separator (lines ++ [text]) = lines.flatMap (· ++ separator) ++ text := by
  induction lines with
  | nil => simp
  | cons line rest ih =>
    have hne : rest ++ [text] ≠ [] := by simp
    rw [List.cons_append, List.intercalate_cons_of_ne_nil hne, ih, List.flatMap_cons,
      List.append_assoc (line ++ separator)]

end LineEditor
