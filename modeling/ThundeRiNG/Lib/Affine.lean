import Mathlib.Algebra.Ring.GeomSum
import Mathlib.Data.BitVec
import Mathlib.Data.FinEnum
import Mathlib.Tactic.LinearCombination
import ThundeRiNG.Lib.Orbit

/-!
# Affine maps `x ↦ a * x + c` under iteration

`iterate_step` is the closed form over any commutative ring; `iterate_step_sub` says how far `n`
steps move a point, as the geometric sum times one fixed factor. Over `BitVec w` the 2-adic size of
that sum decides the period: `2 ^ w` exactly when `a ≡ 1 (mod 4)` and `c` is odd
(`minimalPeriod_step`), and a divisor of `2 ^ w` for every odd `a` (`iterate_two_pow`).
-/

namespace Affine

open Finset

section
variable {R : Type*} [CommRing R] (a c : R)

def step (x : R) : R := a * x + c

theorem iterate_step (n : ℕ) (x : R) : (step a c)^[n] x = a ^ n * x + (∑ i ∈ range n, a ^ i) * c := by
  induction n with
  | zero => simp
  | succ n ih =>
    rw [Function.iterate_succ_apply', ih, geom_sum_succ]
    simp only [step]; ring

theorem iterate_step_sub (n : ℕ) (x : R) :
    (step a c)^[n] x - x = (∑ i ∈ range n, a ^ i) * ((a - 1) * x + c) := by
  rw [iterate_step]
  linear_combination -x * geom_sum_mul a n

theorem iterate_step_eq_self_iff (n : ℕ) (x : R) :
    (step a c)^[n] x = x ↔ (∑ i ∈ range n, a ^ i) * ((a - 1) * x + c) = 0 := by
  rw [← iterate_step_sub, sub_eq_zero]

/-- Affine maps compose to affine maps. -/
theorem step_comp (a' c' : R) : step a c ∘ step a' c' = step (a * a') (a * c' + c) := by
  funext x; simp only [Function.comp_apply, step]; ring

/-- Squaring, as a square-and-multiply loop does it: the increment of the double step needs no division. -/
theorem step_comp_self : step a c ∘ step a c = step (a * a) ((a + 1) * c) := by
  rw [step_comp]; congr 1; ring

theorem step_one_zero : step (1 : R) 0 = id := by
  funext x; simp [step]

/-- Affine maps take affine maps to affine maps with the same multiplier. -/
theorem semiconj_step {a c c' e v : R} (h : e * c + v = a * v + c') :
    Function.Semiconj (fun x => e * x + v) (step a c) (step a c') := fun x => by
  simp only [step]; linear_combination h

end

/-! ## The 2-adic size of a geometric sum -/

theorem geomSum_two_mul (a m : ℕ) : ∑ i ∈ range (2 * m), a ^ i = (a ^ m + 1) * ∑ i ∈ range m, a ^ i := by
  have hshift : ∀ i ∈ range m, a ^ (m + i) = a ^ m * a ^ i := fun i _ => pow_add a m i
  rw [Nat.two_mul, sum_range_add, sum_congr rfl hshift, ← mul_sum]
  ring

theorem geomSum_mod_two {a : ℕ} (ha : a % 2 = 1) (n : ℕ) : (∑ i ∈ range n, a ^ i) % 2 = n % 2 := by
  induction n with
  | zero => simp
  | succ n ih =>
    have hpow : a ^ n % 2 = 1 := by simp [Nat.pow_mod, ha]
    rw [sum_range_succ]; omega

theorem two_pow_dvd_geomSum_two_pow {a : ℕ} (ha : a % 2 = 1) (j : ℕ) :
    2 ^ j ∣ ∑ i ∈ range (2 ^ j), a ^ i := by
  induction j with
  | zero => simp
  | succ j ih =>
    have hpow : a ^ 2 ^ j % 2 = 1 := by simp [Nat.pow_mod, ha]
    rw [pow_succ, Nat.mul_comm (2 ^ j) 2, geomSum_two_mul]
    exact Nat.mul_dvd_mul (by omega) ih

/-- For `a ≡ 1 (mod 4)` the sum of `n` powers is divisible by exactly the powers of two that divide `n`. -/
theorem two_pow_dvd_geomSum {a : ℕ} (ha : a % 4 = 1) : ∀ j n : ℕ, 2 ^ j ∣ ∑ i ∈ range n, a ^ i ↔ 2 ^ j ∣ n
  | 0, n => by simp
  | j + 1, n => by
    have hodd := geomSum_mod_two (a := a) (by omega) n
    rcases Nat.even_or_odd' n with ⟨m, rfl | rfl⟩
    · -- `a ^ m + 1` is twice an odd number, so it carries exactly one factor of two
      have hpow : a ^ m % 4 = 1 := by simp [Nat.pow_mod, ha]
      obtain ⟨k, hk⟩ : ∃ k, a ^ m + 1 = 2 * (2 * k + 1) := ⟨a ^ m / 4, by omega⟩
      have hcop : Nat.Coprime (2 ^ j) (2 * k + 1) := Nat.Coprime.pow_left _ (by simp)
      rw [geomSum_two_mul, hk, Nat.mul_assoc, pow_succ', Nat.mul_dvd_mul_iff_left (by omega),
        hcop.dvd_mul_left, Nat.mul_dvd_mul_iff_left (by omega), two_pow_dvd_geomSum ha j m]
    · have hp : 2 ∣ 2 ^ (j + 1) := Dvd.intro_left _ (pow_succ 2 j).symm
      constructor <;> intro h <;> have := hp.trans h <;> omega

/-! ## Words -/

section
variable {w : ℕ}

theorem ofNat_eq_zero_iff (n : ℕ) : ((n : ℕ) : BitVec w) = 0 ↔ 2 ^ w ∣ n := by
  rw [BitVec.natCast_eq_ofNat, ← BitVec.toNat_inj, BitVec.toNat_ofNat, Nat.dvd_iff_mod_eq_zero]; simp

theorem natCast_toNat (a : BitVec w) : ((a.toNat : ℕ) : BitVec w) = a := by simp

theorem geomSum_eq_natCast (a : BitVec w) (n : ℕ) :
    ∑ i ∈ range n, a ^ i = ((∑ i ∈ range n, a.toNat ^ i : ℕ) : BitVec w) := by
  push_cast; simp only [natCast_toNat]

/-- An odd word is not a zero divisor. -/
theorem mul_eq_zero_iff_of_odd {u : BitVec w} (hu : u.toNat % 2 = 1) (n : ℕ) :
    ((n : ℕ) : BitVec w) * u = 0 ↔ 2 ^ w ∣ n := by
  have hcop : Nat.Coprime (2 ^ w) u.toNat := by
    refine Nat.Coprime.pow_left _ ?_
    rw [Nat.coprime_two_left, Nat.odd_iff]; exact hu
  conv_lhs => rw [← natCast_toNat u, ← Nat.cast_mul, ofNat_eq_zero_iff]
  exact hcop.dvd_mul_right

variable {a c : BitVec w}

/-- The factor of `iterate_step_sub` is odd whenever `a` and `c` are. -/
theorem odd_offset (hw : 0 < w) (ha : a.toNat % 2 = 1) (hc : c.toNat % 2 = 1) (x : BitVec w) :
    ((a - 1) * x + c).toNat % 2 = 1 := by
  have h2 : 2 ∣ 2 ^ w := dvd_pow_self 2 (by omega)
  have ha1 : (a - 1).toNat % 2 = 0 := by
    have h1 : (1 : BitVec w).toNat = 1 := by simp [Nat.mod_eq_of_lt, Nat.one_lt_two_pow (by omega : w ≠ 0)]
    have hle : (1 : BitVec w) ≤ a := by rw [BitVec.le_def, h1]; omega
    rw [BitVec.toNat_sub_of_le hle, h1]; omega
  rw [BitVec.toNat_add, BitVec.toNat_mul, Nat.mod_mod_of_dvd _ h2, Nat.add_mod, Nat.mod_mod_of_dvd _ h2,
    Nat.mul_mod, ha1, hc]
  simp

/-- **Full period**: for `a ≡ 1 (mod 4)` and odd `c` a word returns exactly at the multiples of `2 ^ w`. -/
theorem iterate_step_eq_self_iff_dvd (hw : 0 < w) (ha : a.toNat % 4 = 1) (hc : c.toNat % 2 = 1) (x : BitVec w)
    (n : ℕ) : (step a c)^[n] x = x ↔ 2 ^ w ∣ n := by
  rw [iterate_step_eq_self_iff, geomSum_eq_natCast,
    mul_eq_zero_iff_of_odd (odd_offset hw (by omega) hc x), two_pow_dvd_geomSum ha]

theorem minimalPeriod_step (hw : 0 < w) (ha : a.toNat % 4 = 1) (hc : c.toNat % 2 = 1) (x : BitVec w) :
    Function.minimalPeriod (step a c) x = 2 ^ w := by
  refine Nat.dvd_antisymm ?_ ?_
  · exact Function.IsPeriodicPt.minimalPeriod_dvd ((iterate_step_eq_self_iff_dvd hw ha hc x _).2 dvd_rfl)
  · exact (iterate_step_eq_self_iff_dvd hw ha hc x _).1 Function.iterate_minimalPeriod

/-- Under the same conditions every word is reached from every other. -/
theorem exists_iterate_step_eq (hw : 0 < w) (ha : a.toNat % 4 = 1) (hc : c.toNat % 2 = 1) (x y : BitVec w) :
    ∃ n < 2 ^ w, (step a c)^[n] x = y := by
  have hp := minimalPeriod_step hw ha hc x
  have hcard : (univ : Finset (BitVec w)).card = Function.minimalPeriod (step a c) x := by
    rw [hp, card_univ, ← FinEnum.card_eq_fintypeCard, FinEnum.card_bitVec]
  rw [← hp]
  exact Orbit.exists_iterate_eq (fun _ => mem_univ _) hcard (mem_univ y)

/-- For `a ≡ 5 (mod 8)` the multiples of `a - 1` are the multiples of four. -/
theorem exists_sub_one_mul_eq (ha : a.toNat % 8 = 5) {z : BitVec w} (hz : z.toNat % 4 = 0) : ∃ v, (a - 1) * v = z := by
  have hcop : Nat.Coprime (a.toNat / 4) (2 ^ w) := by
    refine (Nat.Coprime.pow_left w ?_).symm
    rw [Nat.coprime_two_left, Nat.odd_iff]; omega
  have hw : 1 < 2 ^ w := lt_of_le_of_lt (by omega) a.isLt
  obtain ⟨m, -, hm⟩ := Nat.exists_mul_mod_eq_one_of_coprime hcop hw
  have hunit : ((a.toNat / 4 * m : ℕ) : BitVec w) = 1 := by
    rw [BitVec.natCast_eq_ofNat, ← BitVec.toNat_inj, BitVec.toNat_ofNat, hm]
    simp [Nat.mod_eq_of_lt hw]
  have hfour : a - 1 = ((4 * (a.toNat / 4) : ℕ) : BitVec w) := by
    have hdiv : ((4 * (a.toNat / 4) + 1 : ℕ) : BitVec w) = a := by
      rw [show 4 * (a.toNat / 4) + 1 = a.toNat by omega, natCast_toNat]
    rw [sub_eq_iff_eq_add]
    exact hdiv.symm.trans (Nat.cast_succ _)
  refine ⟨((m * (z.toNat / 4) : ℕ) : BitVec w), ?_⟩
  calc (a - 1) * ((m * (z.toNat / 4) : ℕ) : BitVec w)
      = ((a.toNat / 4 * m : ℕ) : BitVec w) * ((4 * (z.toNat / 4) : ℕ) : BitVec w) := by rw [hfour]; push_cast; ring
    _ = z := by rw [hunit, one_mul, show 4 * (z.toNat / 4) = z.toNat by omega, natCast_toNat]

/-- **One sequence for all increments**: for `a ≡ 5 (mod 8)` and increments that agree modulo four up to a sign, each
    orbit is, from some point on, an affine image of each other one. -/
theorem exists_iterate_step_conj (hw : 0 < w) (ha : a.toNat % 8 = 5) (hc : c.toNat % 2 = 1) {c' e : BitVec w}
    (he : e * e = 1) (hcc : (e * c - c').toNat % 4 = 0) (x y : BitVec w) :
    ∃ v, ∃ d < 2 ^ w, ∀ n, (step a c')^[n] y = e * (step a c)^[n + d] x + v := by
  obtain ⟨v, hv⟩ := exists_sub_one_mul_eq ha hcc
  have hconj := semiconj_step (show e * c + v = a * v + c' by linear_combination -hv)
  have ha4 : a.toNat % 4 = 1 := by omega
  obtain ⟨d, hd, hx⟩ := exists_iterate_step_eq hw ha4 hc x (e * (y - v))
  refine ⟨v, d, hd, fun n => ?_⟩
  have hy : e * (e * (y - v)) + v = y := by linear_combination (y - v) * he
  rw [Function.iterate_add_apply, hx]
  exact (congrArg _ hy.symm).trans ((hconj.iterate_right n).eq (e * (y - v))).symm

/-- For every odd multiplier, whatever the increment, `2 ^ w` steps are the identity. -/
theorem iterate_two_pow (ha : a.toNat % 2 = 1) (x : BitVec w) : (step a c)^[2 ^ w] x = x := by
  rw [iterate_step_eq_self_iff, geomSum_eq_natCast,
    (ofNat_eq_zero_iff _).2 (two_pow_dvd_geomSum_two_pow ha w), zero_mul]

/-- So only the number of steps modulo `2 ^ w` matters. -/
theorem iterate_mod_two_pow (ha : a.toNat % 2 = 1) (n : ℕ) (x : BitVec w) :
    (step a c)^[n % 2 ^ w] x = (step a c)^[n] x :=
  Function.IsPeriodicPt.iterate_mod_apply (iterate_two_pow ha x) n

end

end Affine
