import Mathlib.Algebra.BigOperators.Fin
import Mathlib.Algebra.BigOperators.Group.List.Basic
import Mathlib.Algebra.Field.ZMod
import Mathlib.Data.BitVec
import Mathlib.Tactic.Ring

/-!
# Bits as elements of `ZMod 2`, and the inner product of two words

`toZ2` turns `^^` and `&&` into `+` and `*`. `dot a x` is the parity of `a &&& x`; under it a left shift
and a right shift are adjoint (`dot_shiftLeft`), which reads a row of a bit matrix off a word-level step.
-/

namespace WordDot

open Finset

def toZ2 (b : Bool) : ZMod 2 := if b then 1 else 0

@[simp] theorem toZ2_false : toZ2 false = 0 := rfl
@[simp] theorem toZ2_true : toZ2 true = 1 := rfl

theorem toZ2_xor (a b : Bool) : toZ2 (a ^^ b) = toZ2 a + toZ2 b := by
  cases a <;> cases b <;> decide

theorem toZ2_and (a b : Bool) : toZ2 (a && b) = toZ2 a * toZ2 b := by
  cases a <;> cases b <;> decide

theorem toZ2_injective : Function.Injective toZ2 := by
  intro a b h
  cases a <;> cases b <;> first | rfl | exact absurd h (by decide)

section
variable {w : ℕ}

def dot (a x : BitVec w) : ZMod 2 := ∑ b ∈ range w, toZ2 (a.getLsbD b) * toZ2 (x.getLsbD b)

theorem dot_comm (a x : BitVec w) : dot a x = dot x a := sum_congr rfl fun _ _ => mul_comm _ _

@[simp] theorem dot_zero (x : BitVec w) : dot 0#w x = 0 := sum_eq_zero fun b _ => by simp

theorem dot_xor (a x y : BitVec w) : dot a (x ^^^ y) = dot a x + dot a y := by
  unfold dot
  rw [← sum_add_distrib]
  exact sum_congr rfl fun b _ => by rw [BitVec.getLsbD_xor, toZ2_xor, mul_add]

theorem xor_dot (a b x : BitVec w) : dot (a ^^^ b) x = dot a x + dot b x := by
  rw [dot_comm, dot_xor, dot_comm x a, dot_comm x b]

theorem dot_twoPow {r : ℕ} (hr : r < w) (x : BitVec w) : dot (BitVec.twoPow w r) x = toZ2 (x.getLsbD r) := by
  unfold dot
  rw [sum_eq_single_of_mem r (mem_range.2 hr)]
  · simp [hr]
  · intro b _ hb; simp [Ne.symm hb]

/-- Shifting the right factor left is shifting the left factor right. -/
theorem dot_shiftLeft (a x : BitVec w) (n : ℕ) : dot a (x <<< n) = dot (a >>> n) x := by
  by_cases hn : n ≤ w
  · obtain ⟨m, hm⟩ := Nat.exists_eq_add_of_le hn
    have hm' : w = m + n := by omega
    -- the first `n` terms vanish on the left, the last `n` on the right
    have hl : dot a (x <<< n) = ∑ b ∈ range m, toZ2 (a.getLsbD (n + b)) * toZ2 (x.getLsbD b) := by
      unfold dot
      rw [show range w = range (n + m) by rw [hm], sum_range_add, sum_eq_zero, zero_add]
      · refine sum_congr rfl fun b hb => ?_
        have hb' : n + b < w := by have := mem_range.1 hb; omega
        rw [BitVec.getLsbD_shiftLeft, Nat.add_sub_cancel_left]
        simp only [hb', decide_true, Bool.true_and, Nat.not_lt.2 (Nat.le_add_right n b), decide_false, Bool.not_false]
      · intro b hb; simp [mem_range.1 hb]
    have hr : dot (a >>> n) x = ∑ b ∈ range m, toZ2 (a.getLsbD (n + b)) * toZ2 (x.getLsbD b) := by
      unfold dot
      rw [show range w = range (m + n) by rw [hm'], sum_range_add, add_eq_left.2]
      · exact sum_congr rfl fun b _ => by rw [BitVec.getLsbD_ushiftRight]
      · apply sum_eq_zero
        intro b _
        rw [BitVec.getLsbD_ushiftRight, BitVec.getLsbD_of_ge a _ (by omega), toZ2_false, zero_mul]
    rw [hl, hr]
  · have h1 : x <<< n = 0#w := BitVec.shiftLeft_eq_zero (by omega)
    have h2 : a >>> n = 0#w := BitVec.ushiftRight_eq_zero (by omega)
    rw [h1, h2, dot_comm, dot_zero, dot_zero]

theorem dot_ushiftRight (a x : BitVec w) (n : ℕ) : dot a (x >>> n) = dot (a <<< n) x := by
  rw [dot_comm (a <<< n), dot_shiftLeft, dot_comm]

end

end WordDot
