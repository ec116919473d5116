import Mathlib.Data.BitVec

/-!
# Checked word arithmetic

Machine words whose operations may be undefined, as in C: shifting by the width or more, and leaving the range in a
signed product or sum. Such an operation is an `Option`, an expression a `do` block, and `none` means that some
operation in it has no value.
-/

namespace Checked

variable {w v : ℕ}

/-- `x >> n`, unsigned. -/
def shiftRight (x : BitVec w) (n : BitVec v) : Option (BitVec w) :=
  if n.toNat < w then some (x >>> n) else none

/-- `x << n`, unsigned. -/
def shiftLeft (x : BitVec w) (n : BitVec v) : Option (BitVec w) :=
  if n.toNat < w then some (x <<< n) else none

/-- `x * y`, signed. -/
def mul (x y : BitVec w) : Option (BitVec w) :=
  if x.smulOverflow y then none else some (x * y)

/-- `x + y`, signed. -/
def add (x y : BitVec w) : Option (BitVec w) :=
  if x.saddOverflow y then none else some (x + y)

@[simp] theorem shiftRight_of_lt (x : BitVec w) {n : BitVec v} (h : n.toNat < w) :
    shiftRight x n = some (x >>> n) := if_pos h

@[simp] theorem shiftLeft_of_lt (x : BitVec w) {n : BitVec v} (h : n.toNat < w) :
    shiftLeft x n = some (x <<< n) := if_pos h

theorem shiftRight_of_le (x : BitVec w) {n : BitVec v} (h : w ≤ n.toNat) : shiftRight x n = none :=
  if_neg (by omega)

/-- A signed product has a value iff it fits. -/
theorem isSome_mul (x y : BitVec w) :
    (mul x y).isSome ↔ -2 ^ (w - 1) ≤ x.toInt * y.toInt ∧ x.toInt * y.toInt < 2 ^ (w - 1) := by
  have hov : x.smulOverflow y = true ↔ ¬(-2 ^ (w - 1) ≤ x.toInt * y.toInt ∧ x.toInt * y.toInt < 2 ^ (w - 1)) := by
    simp only [BitVec.smulOverflow, Bool.or_eq_true, decide_eq_true_eq]; omega
  cases h : x.smulOverflow y <;> simp_all [mul]

end Checked
