import Mathlib.Data.Nat.Bitwise

/-!
# The Gray code of a number

`gray n = n ^^^ (n >>> 1)` is xor-linear, and zero only at zero. Counting on by `2 ^ s` changes it in two bits (one when
`s = 0`): the bit below `s` and the lowest bit from `s` on that was zero (`gray_add_two_pow`).
-/

namespace Gray

def gray (n : ℕ) : ℕ := n ^^^ (n >>> 1)

theorem testBit_gray (n k : ℕ) : (gray n).testBit k = (n.testBit k ^^ n.testBit (k + 1)) := by
  rw [gray, Nat.testBit_xor, Nat.testBit_shiftRight, Nat.add_comm]

theorem gray_xor (m n : ℕ) : gray (m ^^^ n) = gray m ^^^ gray n := by
  apply Nat.eq_of_testBit_eq
  intro k
  simp only [testBit_gray, Nat.testBit_xor]
  cases m.testBit k <;> cases n.testBit k <;> cases m.testBit (k + 1) <;> cases n.testBit (k + 1) <;> rfl

theorem gray_lt {n k : ℕ} (h : n < 2 ^ k) : gray n < 2 ^ k :=
  Nat.xor_lt_two_pow h ((Nat.shiftRight_le n 1).trans_lt h)

theorem gray_eq_zero {n : ℕ} (h : gray n = 0) : n = 0 := by
  have hbit : ∀ d k, n < 2 ^ (k + d) → n.testBit k = false := by
    intro d
    induction d with
    | zero => intro k hk; exact Nat.testBit_lt_two_pow hk
    | succ d ih =>
      intro k hk
      have hk' := testBit_gray n k
      rw [h, ih (k + 1) (by rwa [Nat.add_right_comm]), Bool.xor_false, Nat.zero_testBit] at hk'
      exact hk'.symm
  refine Nat.eq_of_testBit_eq fun k => ?_
  rw [Nat.zero_testBit]
  exact hbit n k (Nat.lt_two_pow_self.trans_le (Nat.pow_le_pow_right (by omega) (Nat.le_add_left n k)))

/-! ## Counting on -/

/-- From bit `s` on, bit `c` is the lowest zero of `n`. -/
structure LowestZero (s c n : ℕ) : Prop where
  le : s ≤ c
  zero : n.testBit c = false
  ones : ∀ b, s ≤ b → b < c → n.testBit b = true

theorem add_two_pow_of_testBit {n s : ℕ} (h : n.testBit s = false) : n + 2 ^ s = n ^^^ 2 ^ s := by
  have hsplit : n = 2 ^ (s + 1) * (n / 2 ^ (s + 1)) + n % 2 ^ (s + 1) := (Nat.div_add_mod n _).symm
  have hlow : n % 2 ^ (s + 1) < 2 ^ s := by
    refine Nat.lt_pow_two_of_testBit _ fun k hk => ?_
    rw [Nat.testBit_mod_two_pow]
    rcases Nat.eq_or_lt_of_le hk with rfl | hlt
    · rw [h, Bool.and_false]
    · rw [decide_eq_false (by omega), Bool.false_and]
  generalize n / 2 ^ (s + 1) = q at hsplit
  generalize n % 2 ^ (s + 1) = r at hsplit hlow
  have hr : r + 2 ^ s < 2 ^ (s + 1) := by rw [Nat.pow_succ]; omega
  subst hsplit
  apply Nat.eq_of_testBit_eq
  intro k
  rw [Nat.add_assoc, Nat.testBit_xor, Nat.testBit_two_pow_mul_add _ hr, Nat.testBit_two_pow_mul_add _ (by omega),
    Nat.add_comm r]
  rcases Nat.lt_trichotomy k s with hlt | rfl | hgt
  · rw [if_pos (by omega), if_pos (by omega), Nat.testBit_two_pow_add_gt hlt, Nat.testBit_two_pow_of_ne (by omega),
      Bool.xor_false]
  · rw [if_pos (by omega), if_pos (by omega), Nat.testBit_two_pow_add_eq, Nat.testBit_two_pow_self, Bool.xor_true]
  · rw [if_neg (by omega), if_neg (by omega), Nat.testBit_two_pow_of_ne (by omega), Bool.xor_false]

/-- A carry out of bit `s` clears it and goes on one bit higher. -/
theorem add_two_pow_of_carry {n s : ℕ} (h : n.testBit s = true) : n + 2 ^ s = (n ^^^ 2 ^ s) + 2 ^ (s + 1) := by
  have hclear : (n ^^^ 2 ^ s).testBit s = false := by
    rw [Nat.testBit_xor, h, Nat.testBit_two_pow_self]; rfl
  have hback := add_two_pow_of_testBit hclear
  rw [Nat.xor_assoc, Nat.xor_self, Nat.xor_zero] at hback
  rw [Nat.pow_succ]
  omega

theorem gray_two_pow (s : ℕ) : gray (2 ^ s) = 2 ^ s ^^^ (2 ^ s >>> 1) := rfl

/-- **Counting on by `2 ^ s`**, by induction along the carry. -/
theorem gray_add_two_pow {s c n : ℕ} (h : LowestZero s c n) :
    gray (n + 2 ^ s) = gray n ^^^ (2 ^ s >>> 1) ^^^ 2 ^ c := by
  obtain ⟨d, rfl⟩ := Nat.exists_eq_add_of_le h.le
  induction d generalizing s n with
  | zero =>
    have hzero : n.testBit s = false := h.zero
    rw [add_two_pow_of_testBit hzero, gray_xor, gray_two_pow, Nat.add_zero, ← Nat.xor_assoc, Nat.xor_right_comm]
  | succ d ih =>
    have hcarry := h.ones s le_rfl (by omega)
    have hnext : LowestZero (s + 1) (s + 1 + d) (n ^^^ 2 ^ s) := by
      refine ⟨by omega, ?_, fun b hb hbc => ?_⟩
      · rw [Nat.testBit_xor, Nat.testBit_two_pow_of_ne (by omega), Bool.xor_false,
          show s + 1 + d = s + (d + 1) by omega, h.zero]
      · rw [Nat.testBit_xor, Nat.testBit_two_pow_of_ne (by omega), Bool.xor_false]
        exact h.ones b (by omega) (by omega)
    have hshift : (2 ^ (s + 1)) >>> 1 = 2 ^ s := by
      rw [Nat.shiftRight_eq_div_pow, Nat.pow_succ, pow_one, Nat.mul_div_cancel _ (by omega)]
    have hrest := ih hnext
    rw [hshift, show s + 1 + d = s + (d + 1) by omega] at hrest
    rw [add_two_pow_of_carry hcarry, hrest, gray_xor, gray_two_pow]
    congr 1
    rw [Nat.xor_assoc, Nat.xor_comm (2 ^ s) (2 ^ s >>> 1), Nat.xor_assoc, Nat.xor_self, Nat.xor_zero]

end Gray
