import Mathlib.Algebra.BigOperators.Intervals
import Mathlib.Algebra.Order.BigOperators.Group.Finset
import Mathlib.Algebra.BigOperators.Ring.Finset
import Mathlib.Algebra.Ring.Nat
import Mathlib.Tactic.Ring

/-!
# Tables of totals by key, and keys that remember the last digits

`tally f m n j` adds up `f` over the positions from `m` to `n` whose key is `j`; with `f = 1` it counts them. `window` is
a key that is a number of `D` digits, which moves down by one digit as a new one comes in on top. The last lemma is about
two totals packed into one word.
-/

namespace Tally

open Finset

/-! ## Totals -/

section
variable {K M : Type*} [DecidableEq K] [AddCommMonoid M] (key : ℕ → K) (f : ℕ → M)

/-- The total of `f` over the positions from `m` to `n` with key `j`. -/
def tally (m n : ℕ) (j : K) : M := ∑ i ∈ Ico m n, if key i = j then f i else 0

@[simp] theorem tally_self (m : ℕ) (j : K) : tally key f m m j = 0 := by simp [tally]

theorem tally_succ {m n : ℕ} (h : m ≤ n) (j : K) :
    tally key f m (n + 1) j = tally key f m n j + if key n = j then f n else 0 :=
  sum_Ico_succ_top h _

theorem tally_append {m n k : ℕ} (hmn : m ≤ n) (hnk : n ≤ k) (j : K) :
    tally key f m n j + tally key f n k j = tally key f m k j :=
  sum_Ico_consecutive _ hmn hnk

theorem tally_eq_zero {key : ℕ → K} {j : K} (h : ∀ i, key i ≠ j) (m n : ℕ) : tally key f m n j = 0 := by
  simp [tally, h]

end

section
variable {K : Type*} [DecidableEq K] (key : ℕ → K)

/-- How often the key `j` occurs. -/
abbrev count (m n : ℕ) (j : K) : ℕ := tally key (fun _ => 1) m n j

theorem tally_le {f : ℕ → ℕ} {c : ℕ} (hf : ∀ i, f i ≤ c) (m n : ℕ) (j : K) :
    tally key f m n j ≤ c * count key m n j := by
  rw [count, tally, tally, mul_sum]
  refine sum_le_sum fun i _ => ?_
  split <;> simp [hf]

theorem tally_sub (f : ℕ → ℕ) (c m n : ℕ) (j : K) :
    tally key (fun i => (f i : ℤ) - c) m n j = tally key f m n j - c * count key m n j := by
  simp only [tally, Nat.cast_sum, mul_sum, ← sum_sub_distrib]
  refine sum_congr rfl fun i _ => ?_
  split <;> simp

/-- Keys below `N` only: the counts add up to the number of positions. -/
theorem sum_count {key : ℕ → ℕ} {N : ℕ} (hkey : ∀ i, key i < N) (m n : ℕ) : ∑ j ∈ range N, count key m n j = n - m := by
  simp only [count, tally]
  rw [sum_comm]
  simp [hkey]

end

/-! ## Digits -/

/-- The `D` digits from place `i` on as a number, the first the least significant. -/
def window (b D : ℕ) (τ : ℕ → ℕ) (i : ℕ) : ℕ := ∑ d ∈ range D, τ (i + d) * b ^ d

variable {b : ℕ} {τ : ℕ → ℕ}

theorem window_lt (hτ : ∀ i, τ i < b) (D i : ℕ) : window b D τ i < b ^ D := by
  induction D with
  | zero => simp [window]
  | succ D ih =>
    have hd : (τ (i + D) + 1) * b ^ D ≤ b * b ^ D := Nat.mul_le_mul_right _ (hτ _)
    rw [window, sum_range_succ, ← window, pow_succ']
    rw [Nat.add_mul, Nat.one_mul] at hd
    omega

/-- A new digit on top, and the lowest dropped. -/
theorem window_succ (hτ : ∀ i, τ i < b) (D i : ℕ) :
    window b (D + 1) τ (i + 1) = window b (D + 1) τ i / b + τ (i + 1 + D) * b ^ D := by
  have hb : 0 < b := (Nat.zero_le _).trans_lt (hτ 0)
  have hlow : window b (D + 1) τ i = τ i + b * window b D τ (i + 1) := by
    rw [window, sum_range_succ', window, mul_sum, add_comm]
    simp only [pow_succ', Nat.add_zero, pow_zero, Nat.mul_one]
    refine congrArg _ (sum_congr rfl fun d _ => ?_)
    rw [show i + (d + 1) = i + 1 + d by omega]
    ring
  rw [hlow, Nat.add_mul_div_left _ _ hb, Nat.div_eq_of_lt (hτ i), Nat.zero_add, window, sum_range_succ, ← window]

/-! ## Two totals in one word -/

section
variable {a b n s : ℕ}

theorem packed_upper : (n * 2 ^ a + s) % 2 ^ (a + b) / 2 ^ a = (n + s / 2 ^ a) % 2 ^ b := by
  rw [pow_add, Nat.mod_mul_right_div_self, Nat.add_comm (n * 2 ^ a), Nat.add_mul_div_right _ _ (Nat.two_pow_pos a),
    Nat.add_comm]

theorem packed_lower : (n * 2 ^ a + s) % 2 ^ (a + b) % 2 ^ a = s % 2 ^ a := by
  rw [pow_add, Nat.mod_mul_right_mod, Nat.mul_add_mod_self_right]

/-- As long as the upper total fits, both read right, if the lower one is small for it. -/
theorem packed_of_lt {c : ℕ} (hs : s ≤ c * n) (hc : c * 2 ^ b ≤ 2 ^ a) (hn : n < 2 ^ b) :
    (n * 2 ^ a + s) % 2 ^ (a + b) / 2 ^ a = n ∧ (n * 2 ^ a + s) % 2 ^ (a + b) % 2 ^ a = s := by
  have hlt : s < 2 ^ a := by
    rcases Nat.eq_zero_or_pos c with rfl | hpos
    · simp only [Nat.zero_mul, Nat.le_zero] at hs
      exact hs ▸ Nat.two_pow_pos a
    · exact (hs.trans_lt (Nat.mul_lt_mul_of_pos_left hn hpos)).trans_le hc
  rw [packed_upper, packed_lower, Nat.div_eq_of_lt hlt, Nat.add_zero, Nat.mod_eq_of_lt hn, Nat.mod_eq_of_lt hlt]
  exact ⟨rfl, rfl⟩

/-- When it does not, it reads too low. -/
theorem packed_upper_lt (hn : 2 ^ b ≤ n) : (n * 2 ^ a + s) % 2 ^ (a + b) / 2 ^ a < n := by
  rw [packed_upper]
  exact (Nat.mod_lt _ (Nat.two_pow_pos b)).trans_le hn

end

end Tally
