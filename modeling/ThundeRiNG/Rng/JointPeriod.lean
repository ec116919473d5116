import Mathlib.Tactic.NormNum.Prime
import ThundeRiNG.Lib.Gf2Poly
import ThundeRiNG.Rng.StateSharing

/-!
# The period of one sequence: root LCG and xorshift32 decorrelator (`sou_function.h:27-34`, `mpcg.h:20-24`)

`instance` steps its private decorrelator once per word (`sou/rng_instance_1.cpp:95-99`) while the root
LCG makes one step per word, so the state of a sequence is the pair of the two. The root has period
`2^64` (`rootPeriod`), the decorrelator `2^32 - 1` from any nonzero seed (`xorshiftjumpPeriod`), and the
two are coprime.
-/

namespace ThundeRiNG

open Function

/-! ## The root LCG -/

theorem rootPeriod (s : RngState) : minimalPeriod stateTransitionFunciton s = 2 ^ 64 := by
  rw [stateTransitionFunciton_eq]
  exact Affine.minimalPeriod_step (by omega) (by decide) (by decide) s

theorem root_visits_all (s y : RngState) : ∃ n < 2 ^ 64, stateTransitionFunciton^[n] s = y := by
  rw [stateTransitionFunciton_eq]
  exact Affine.exists_iterate_step_eq (by omega) (by decide) (by decide) s y

/-! ## The decorrelator -/

theorem xorLinear_xorshiftjump : Gf2.XorLinear xorshiftjump := by
  have h13 : Gf2.XorLinear fun y : Rng32 => y ^^^ (y <<< 13) := .xor .id (Gf2.xorLinear_shiftLeft 13)
  have h17 : Gf2.XorLinear fun y : Rng32 => y ^^^ (y >>> 17) := .xor .id (Gf2.xorLinear_ushiftRight 17)
  have h5 : Gf2.XorLinear fun y : Rng32 => y ^^^ (y <<< 5) := .xor .id (Gf2.xorLinear_shiftLeft 5)
  exact h5.comp (h17.comp h13)

/-- The characteristic polynomial of the (13, 17, 5) step, coded as bits. -/
def xorshift32Poly : ℕ := 0x1003ec241

theorem apply_xorshift32Poly (v : Rng32) : Gf2.apply xorshiftjump xorshift32Poly v = 0 := by
  refine (Gf2.xorLinear_apply xorLinear_xorshiftjump _).eq_zero_of_twoPow ?_ v
  decide +kernel

/-- The primes of `2^32 - 1`, each with an inverse of `X ^ ((2^32 - 1) / q) - 1` modulo the polynomial. -/
def xorshift32Certificate : List (ℕ × ℕ) :=
  [(3, 0x9a1b191d), (5, 0x256daa81), (17, 0x552bd776), (257, 0xac9b5802), (65537, 0xd1472012)]

theorem xorshiftjumpPeriod {x : Rng32} (hx : x ≠ 0) : minimalPeriod xorshiftjump x = 2 ^ 32 - 1 := by
  refine Gf2.minimalPeriod_of_certificate xorLinear_xorshiftjump apply_xorshift32Poly (n := 32)
    (c := xorshift32Certificate) ?_ ?_ ?_ ?_ hx
  · decide
  · simp only [xorshift32Certificate, List.map, List.forall_mem_cons]
    norm_num
  · decide +kernel
  · decide +kernel

theorem iterate_xorshiftjump_eq_iff {x : Rng32} (hx : x ≠ 0) {m n : ℕ} (hm : m < 2 * (2 ^ 32 - 1))
    (hn : n < 2 * (2 ^ 32 - 1)) :
    xorshiftjump^[m] x = xorshiftjump^[n] x ↔ m = n ∨ m = n + (2 ^ 32 - 1) ∨ n = m + (2 ^ 32 - 1) :=
  Orbit.iterate_eq_iterate_iff_of_lt (xorshiftjumpPeriod hx) hm hn

theorem xorshiftjump_ne_zero {x : Rng32} (hx : x ≠ 0) (k : ℕ) : xorshiftjump^[k] x ≠ 0 :=
  Gf2.iterate_ne_zero xorLinear_xorshiftjump hx (by decide) (xorshiftjumpPeriod hx) k

/-! ## Both together -/

/-- **Joint period**: the pair of root state and decorrelator state returns exactly at the multiples of
    `2^64 * (2^32 - 1)`. -/
theorem jointPeriod (s : RngState) (x : Rng32) (hx : x ≠ 0) :
    (∀ k, (stateTransitionFunciton^[k] s, xorshiftjump^[k] x) = (s, x) ↔ 2 ^ 64 * (2 ^ 32 - 1) ∣ k) ∧
    (∀ k, xorshiftjump^[k] x ≠ 0) ∧ (∀ y, ∃ n < 2 ^ 64, stateTransitionFunciton^[n] s = y) := by
  refine ⟨?_, xorshiftjump_ne_zero hx, root_visits_all s⟩
  intro k
  have hcop : Nat.Coprime (2 ^ 64) (2 ^ 32 - 1) := by decide
  rw [Prod.mk.injEq, Orbit.iterate_eq_self_iff (rootPeriod s), Orbit.iterate_eq_self_iff (xorshiftjumpPeriod hx)]
  constructor
  · rintro ⟨h1, h2⟩; exact hcop.mul_dvd_of_dvd_of_dvd h1 h2
  · intro h; exact ⟨(Dvd.intro _ rfl).trans h, (Dvd.intro_left _ rfl).trans h⟩

theorem jointPeriod_seed :
    (stateTransitionFunciton^[2 ^ 64 * (2 ^ 32 - 1)] RNG_INIT_STATE, xorshiftjump^[2 ^ 64 * (2 ^ 32 - 1)] 0xa0f16c6d) =
      (RNG_INIT_STATE, (0xa0f16c6d : Rng32)) :=
  ((jointPeriod RNG_INIT_STATE 0xa0f16c6d (by decide)).1 _).2 dvd_rfl

end ThundeRiNG
