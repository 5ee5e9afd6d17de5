import LineEditor.Memory
import Mathlib.Data.UInt
import Mathlib.Tactic.Common

/-!
# Words and vectors, by their values

What words are as numbers and vectors as lists, where nothing is at fault. A computation that can
only want memory *gives* what it should (`Gives`): it is never at fault in another way, and it wants
memory only if something is too large.
-/

namespace LineEditor.Memory

/-! ### Computations that can only want memory -/

/-- What is computed has a property, or something is too large for the memory. -/
inductive Gives {α : Type} (large : Prop) (P : α → Prop) : Except Fault α → Prop where
  /-- A result. -/
  | ok {a : α} (h : P a) : Gives large P (.ok a)
  /-- No result. -/
  | error (h : large) : Gives large P (.error .outOfMemory)

namespace Gives

variable {α β : Type} {large large' : Prop} {P : α → Prop} {Q : β → Prop} {x : Except Fault α}
  {f : α → Except Fault β}

/-- One computation after another. -/
theorem bind (h : Gives large P x) (hlarge : large → large')
    (hf : ∀ a, P a → Gives large' Q (f a)) : Gives large' Q (x >>= f) := by
  cases h with
  | ok h => exact hf _ h
  | error h => exact .error (hlarge h)

/-- Where nothing is too large there is a result. -/
theorem exists_ok (h : Gives large P x) (hfits : ¬ large) : ∃ a, x = .ok a ∧ P a := by
  cases h with
  | ok h => exact ⟨_, rfl, h⟩
  | error h => exact absurd h hfits

/-- Nothing but memory can be wanting. -/
theorem eq_outOfMemory (h : Gives large P x) {fault : Fault} (hx : x = .error fault) :
    fault = .outOfMemory ∧ large := by
  cases h with
  | ok h => cases hx
  | error h =>
    cases hx
    exact ⟨rfl, h⟩

/-- A result has the property. -/
theorem of_eq_ok (h : Gives large P x) {a : α} (hx : x = .ok a) : P a := by
  cases h with
  | ok h =>
    cases hx
    exact h
  | error h => cases hx

end Gives

/-! ### Words -/

section Words

variable {a b : UInt64}

theorem toNat_nearest (n : Int) : (nearest n).toNat = min n.toNat (2 ^ 64 - 1) :=
  UInt64.toNat_ofNat_of_lt' (Nat.lt_of_le_of_lt (Nat.min_le_right ..) (by decide))

theorem toNat_magnitude (d : Int64) : (magnitude d).toNat = d.toInt.natAbs := by
  have hlow := Int64.le_toInt d
  have hhigh := Int64.toInt_lt d
  have hfits : d.toInt.natAbs < 2 ^ 64 := by omega
  exact UInt64.toNat_ofNat_of_lt' hfits

/-- Of words that are not too large the sign bit is not set. -/
theorem toInt_toInt64 (h : a.toNat < 2 ^ 63) : a.toInt64.toInt = a.toNat := by
  have hbits : 2 * a.toBitVec.toNat < 2 ^ 64 := by
    rw [UInt64.toNat_toBitVec]
    omega
  exact BitVec.toInt_eq_toNat_of_lt hbits

theorem exists_add (h : a.toNat + b.toNat < 2 ^ 64) :
    ∃ c, add a b = .ok c ∧ c.toNat = a.toNat + b.toNat :=
  ⟨_, if_pos h, UInt64.toNat_ofNat_of_lt' h⟩

theorem exists_sub (h : b.toNat ≤ a.toNat) :
    ∃ c, sub a b = .ok c ∧ c.toNat = a.toNat - b.toNat :=
  ⟨_, if_pos (UInt64.le_iff_toNat_le.2 h), UInt64.toNat_sub_of_le _ _ (UInt64.le_iff_toNat_le.2 h)⟩

theorem exists_signed {n : Int} (hlow : -2 ^ 63 ≤ n) (hhigh : n < 2 ^ 63) :
    ∃ c, signed n = .ok c ∧ c.toInt = n :=
  ⟨_, if_pos ⟨hlow, hhigh⟩, Int64.toInt_ofInt_of_le hlow hhigh⟩

end Words

/-! ### Vectors -/

namespace Vec

variable {α : Type} {bytes : Nat} {v : Vec α bytes} {start stop : UInt64}

/-- A list is put into memory. -/
theorem gives_ofList (elements : List α) :
    Gives (2 ^ 63 ≤ bytes * elements.length) (fun v : Vec α bytes => v.toList = elements)
      (ofList elements) := by
  unfold ofList
  split
  next h => exact .ok rfl
  next h => exact .error (Nat.not_lt.1 h)

section Length

variable (hbytes : 0 < bytes)

include hbytes

theorem length_lt (v : Vec α bytes) : v.toList.length < 2 ^ 63 :=
  Nat.lt_of_le_of_lt (Nat.le_mul_of_pos_left _ hbytes) v.size_lt

theorem toNat_length (v : Vec α bytes) : v.length.toNat = v.toList.length :=
  UInt64.toNat_ofNat_of_lt' (Nat.lt_trans (v.length_lt hbytes) (by decide))

/-- Between bounds that are within the vector. -/
theorem splice_eq (hstart : start.toNat ≤ stop.toNat) (hstop : stop.toNat ≤ v.toList.length)
    (elements : Vec α bytes) :
    v.splice start stop elements =
      ofList (v.toList.take start.toNat ++ elements.toList ++ v.toList.drop stop.toNat) := by
  refine if_pos ⟨UInt64.le_iff_toNat_le.2 hstart, UInt64.le_iff_toNat_le.2 ?_⟩
  rwa [toNat_length hbytes]

/-- What is left when elements are removed fits in memory, too. -/
theorem exists_drain (hstart : start.toNat ≤ stop.toNat) (hstop : stop.toNat ≤ v.toList.length) :
    ∃ v', v.drain start stop = .ok v' ∧
      v'.toList = v.toList.take start.toNat ++ v.toList.drop stop.toNat := by
  have hgives : Gives _ (fun v' : Vec α bytes => v'.toList = _) _ :=
    gives_ofList (v.toList.take start.toNat ++ v.toList.drop stop.toNat)
  rw [drain, splice_eq hbytes hstart hstop, empty, List.append_nil]
  refine hgives.exists_ok (Nat.not_le.2 (Nat.lt_of_le_of_lt (Nat.mul_le_mul_left _ ?_) v.size_lt))
  rw [List.length_append, List.length_take, List.length_drop]
  omega

end Length

end Vec

end LineEditor.Memory
