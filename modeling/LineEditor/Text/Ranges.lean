/-!
# Sets of code points as sorted ranges

A property of code points is stored as the list of its maximal runs, in ascending order. The
membership test walks the list and stops at the first range that begins above the code point, so
that it is exact for sorted tables and cheap for small code points. `contains_iff` says that on a
sorted table the test holds exactly of the members of some range.
-/

namespace LineEditor.Text

/-- A set of code points: inclusive ranges in ascending order. -/
abbrev Ranges := List (Nat × Nat)

namespace Ranges

/-- Whether `n` lies in one of the ranges; the walk ends at the first range above `n`. -/
def contains : Ranges → Nat → Bool
  | [], _ => false
  | (low, high) :: rest, n =>
    if n < low then false
    else if n ≤ high then true
    else contains rest n

/-- Every range is non-empty, and each begins above the end of the one before it. -/
def Sorted (ranges : Ranges) : Prop :=
  (∀ r ∈ ranges, r.1 ≤ r.2) ∧ ranges.Pairwise fun a b => a.2 < b.1

instance (ranges : Ranges) : Decidable ranges.Sorted :=
  inferInstanceAs (Decidable (_ ∧ _))

/-- On a sorted table the test is membership in one of the ranges. -/
theorem contains_iff {ranges : Ranges} (h : ranges.Sorted) {n : Nat} :
    ranges.contains n = true ↔ ∃ r ∈ ranges, r.1 ≤ n ∧ n ≤ r.2 := by
  induction ranges with
  | nil => simp [contains]
  | cons r rest ih =>
    obtain ⟨hle, hpair⟩ := h
    have hrest : Sorted rest :=
      ⟨fun s hs => hle s (List.mem_cons_of_mem _ hs), (List.pairwise_cons.1 hpair).2⟩
    have habove := (List.pairwise_cons.1 hpair).1
    have hr := hle r List.mem_cons_self
    obtain ⟨low, high⟩ := r
    simp only [contains, List.mem_cons, exists_eq_or_imp]
    by_cases hlow : n < low
    · simp only [hlow, if_true, Bool.false_eq_true, false_iff]
      rintro (⟨h1, _⟩ | ⟨s, hs, h1, _⟩)
      · exact absurd h1 (Nat.not_le.2 hlow)
      · have := habove s hs
        simp only at this hr
        omega
    · by_cases hhigh : n ≤ high
      · simp [hlow, hhigh, Nat.not_lt.1 hlow]
      · simp [hlow, hhigh, ih hrest]

end Ranges

end LineEditor.Text
