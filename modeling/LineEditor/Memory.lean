/-!
# Words and vectors

What a machine of 64 bits computes with. A *word* is a number below `2 ^ 64`, and a *signed word* is
an integer from `-2 ^ 63` on and below `2 ^ 63`. Arithmetic whose result does not fit is a fault;
saturating arithmetic gives the nearest word instead. A *vector* lies in one piece of memory, which
is smaller than `2 ^ 63` bytes. To have a larger one is a fault, and so is a bound beyond the end.
-/

namespace LineEditor.Memory

/-- What can go wrong. -/
inductive Fault where
  /-- A result does not fit in its word. -/
  | overflow
  /-- A bound is beyond the end of a vector, or before the bound that it follows. -/
  | outOfRange
  /-- A vector does not fit in memory. -/
  | outOfMemory
  deriving DecidableEq, Repr

/-! ### Words -/

/-- The word of a number. -/
def word (n : Nat) : Except Fault UInt64 :=
  if n < 0x10000000000000000 then .ok (.ofNat n) else .error .overflow

/-- The signed word of an integer. -/
def signed (n : Int) : Except Fault Int64 :=
  if -0x8000000000000000 ≤ n ∧ n < 0x8000000000000000 then .ok (.ofInt n) else .error .overflow

/-- The word that is nearest to an integer. -/
def nearest (n : Int) : UInt64 := .ofNat (min n.toNat 0xFFFFFFFFFFFFFFFF)

/-- The sum of two words. -/
def add (a b : UInt64) : Except Fault UInt64 := word (a.toNat + b.toNat)

/-- The difference of two words. -/
def sub (a b : UInt64) : Except Fault UInt64 :=
  if b ≤ a then .ok (a - b) else .error .overflow

/-- The difference of two signed words. -/
def subSigned (a b : Int64) : Except Fault Int64 := signed (a.toInt - b.toInt)

/-- A signed word with the opposite sign. -/
def neg (a : Int64) : Except Fault Int64 := signed (-a.toInt)

/-- The word nearest to the sum of two words. -/
def saturatingAdd (a b : UInt64) : UInt64 := nearest (a.toNat + b.toNat)

/-- The word nearest to the difference of two words. -/
def saturatingSub (a b : UInt64) : UInt64 := nearest (a.toNat - b.toNat)

/-- The word nearest to the sum of a word and a signed word. -/
def saturatingAddSigned (a : UInt64) (b : Int64) : UInt64 := nearest (a.toNat + b.toInt)

/-- The absolute value of a signed word; every one fits in a word. -/
def magnitude (a : Int64) : UInt64 := .ofNat a.toInt.natAbs

/-! ### Vectors -/

/-- A vector, each element of which takes so many bytes. -/
structure Vec (α : Type) (bytes : Nat) where
  /-- The elements. -/
  toList : List α
  /-- The vector fits in memory. -/
  size_lt : bytes * toList.length < 0x8000000000000000
  deriving DecidableEq, Repr

namespace Vec

variable {α : Type} {bytes : Nat}

/-- The vector without elements. -/
def empty : Vec α bytes where
  toList := []
  size_lt := Nat.lt_of_le_of_lt (Nat.le_of_eq (Nat.mul_zero bytes)) (Nat.succ_pos _)

instance : Inhabited (Vec α bytes) := ⟨empty⟩

/-- The vector of some elements. -/
def ofList (elements : List α) : Except Fault (Vec α bytes) :=
  if h : bytes * elements.length < 0x8000000000000000 then .ok ⟨elements, h⟩ else .error .outOfMemory

/-- The number of elements. -/
def length (v : Vec α bytes) : UInt64 := .ofNat v.toList.length

/-- The element at a position. -/
def get? (v : Vec α bytes) (i : UInt64) : Option α := v.toList[i.toNat]?

/-- Keeps the first elements only. -/
def truncate (v : Vec α bytes) (size : UInt64) : Vec α bytes where
  toList := v.toList.take size.toNat
  size_lt :=
    Nat.lt_of_le_of_lt (Nat.mul_le_mul_left bytes (List.length_take_le' ..)) v.size_lt

/-- Puts elements in place of those from one position up to another. -/
def splice (v : Vec α bytes) (start stop : UInt64) (elements : Vec α bytes) :
    Except Fault (Vec α bytes) :=
  if start ≤ stop ∧ stop ≤ v.length then
    ofList (v.toList.take start.toNat ++ elements.toList ++ v.toList.drop stop.toNat)
  else .error .outOfRange

/-- Removes the elements from one position up to another. -/
def drain (v : Vec α bytes) (start stop : UInt64) : Except Fault (Vec α bytes) :=
  v.splice start stop empty

end Vec

end LineEditor.Memory
