import Mathlib.Data.Fintype.Card
import Mathlib.Data.Nat.Prime.Basic
import Mathlib.Dynamics.PeriodicPts.Lemmas
import Mathlib.Tactic.Ring

/-!
# Exact periods of a map

The period of a point is `Function.minimalPeriod`. Two ways of using it that a generator needs:
a certificate (`minimalPeriod_eq_of_quotients`: the point comes back after `N` steps and after no
`N / p`), and what a long period buys (`exists_iterate_eq`: an orbit as long as a finite set it
stays in visits every point of that set).
-/

namespace Orbit

open Function

variable {α : Type*} {f : α → α} {x : α}

/-- A point that returns after `N` steps, but after `N / p` steps for no prime `p` of `N`, has period `N`. -/
theorem minimalPeriod_eq_of_quotients {N : ℕ} (hret : f^[N] x = x)
    (hq : ∀ p, p.Prime → p ∣ N → f^[N / p] x ≠ x) : minimalPeriod f x = N := by
  obtain ⟨m, hm⟩ := IsPeriodicPt.minimalPeriod_dvd (show IsPeriodicPt f N x from hret)
  by_cases h1 : m = 1
  · rw [h1, Nat.mul_one] at hm; exact hm.symm
  · -- a prime of the cofactor `m` gives a quotient that is still a multiple of the period
    obtain ⟨p, hp, k, rfl⟩ := Nat.exists_prime_and_dvd h1
    refine absurd ?_ (hq p hp ⟨minimalPeriod f x * k, by rw [hm]; ring⟩)
    have hdiv : N / p = minimalPeriod f x * k := by
      rw [hm, show minimalPeriod f x * (p * k) = minimalPeriod f x * k * p by ring]
      exact Nat.mul_div_cancel _ hp.pos
    exact isPeriodicPt_iff_minimalPeriod_dvd.2 ⟨k, hdiv⟩

theorem iterate_eq_self_iff {N : ℕ} (h : minimalPeriod f x = N) (k : ℕ) : f^[k] x = x ↔ N ∣ k := by
  rw [← h]; exact isPeriodicPt_iff_minimalPeriod_dvd

/-- Positions on a cycle are known modulo its length. -/
theorem iterate_eq_iterate_iff {N : ℕ} (h : minimalPeriod f x = N) (hN : 0 < N) (m n : ℕ) :
    f^[m] x = f^[n] x ↔ m % N = n % N := by
  subst h
  rw [← iterate_mod_minimalPeriod_eq (n := m), ← iterate_mod_minimalPeriod_eq (n := n)]
  exact iterate_eq_iterate_iff_of_lt_minimalPeriod (Nat.mod_lt m hN) (Nat.mod_lt n hN)

/-- In the first two rounds two positions meet when they are equal or a round apart. -/
theorem iterate_eq_iterate_iff_of_lt {N : ℕ} (h : minimalPeriod f x = N) {m n : ℕ} (hm : m < 2 * N) (hn : n < 2 * N) :
    f^[m] x = f^[n] x ↔ m = n ∨ m = n + N ∨ n = m + N := by
  have hmod : ∀ k < 2 * N, k % N = if k < N then k else k - N := by
    intro k hk
    split
    · exact Nat.mod_eq_of_lt ‹_›
    · rw [Nat.mod_eq_sub_mod (by omega), Nat.mod_eq_of_lt (by omega)]
  rw [iterate_eq_iterate_iff h (by omega), hmod m hm, hmod n hn]
  split <;> split <;> omega

/-- Blocks of `L` positions, as many as fit into one round, do not meet. -/
theorem iterate_block_inj {N K L : ℕ} (h : minimalPeriod f x = N) (hKL : K * L ≤ N) {j k a b : ℕ} (hj : j < K)
    (hk : k < K) (ha : a < L) (hb : b < L) (heq : f^[a] (f^[j * L] x) = f^[b] (f^[k * L] x)) : j = k ∧ a = b := by
  have hlt : ∀ i < K, ∀ c < L, c + i * L < minimalPeriod f x := by
    intro i hi c hc
    have hblock : (i + 1) * L ≤ K * L := Nat.mul_le_mul_right L hi
    rw [Nat.succ_mul] at hblock
    omega
  rw [← iterate_add_apply, ← iterate_add_apply] at heq
  have hpos : a + j * L = b + k * L := iterate_injOn_Iio_minimalPeriod (hlt j hj a ha) (hlt k hk b hb) heq
  have hdiv : ∀ i c, c < L → (c + i * L) / L = i := by
    intro i c hc
    rw [Nat.add_mul_div_right _ _ (by omega), Nat.div_eq_of_lt hc, Nat.zero_add]
  have hjk : j = k := by rw [← hdiv j a ha, ← hdiv k b hb, hpos]
  subst hjk
  exact ⟨rfl, by omega⟩

/-- An orbit inside a finite set of exactly as many points as its period visits the whole set. -/
theorem exists_iterate_eq {S : Finset α} (hS : ∀ n, f^[n] x ∈ S) (hcard : S.card = minimalPeriod f x) {y : α}
    (hy : y ∈ S) : ∃ n < minimalPeriod f x, f^[n] x = y := by
  classical
  have himg : (Finset.range (minimalPeriod f x)).image (fun n => f^[n] x) = S := by
    refine Finset.eq_of_subset_of_card_le (fun z hz => ?_) ?_
    · obtain ⟨n, _, rfl⟩ := Finset.mem_image.1 hz
      exact hS n
    · rw [Finset.card_image_of_injOn, Finset.card_range, hcard]
      intro a ha b hb hab
      exact iterate_injOn_Iio_minimalPeriod (by simpa using ha) (by simpa using hb) hab
  rw [← himg] at hy
  obtain ⟨n, hn, rfl⟩ := Finset.mem_image.1 hy
  exact ⟨n, Finset.mem_range.1 hn, rfl⟩

/-- An orbit that misses one point, and is as long as all the others together, visits all the others. -/
theorem exists_iterate_eq_of_ne [Fintype α] {z : α} (hz : ∀ n, f^[n] x ≠ z)
    (hcard : Fintype.card α = minimalPeriod f x + 1) {y : α} (hy : y ≠ z) : ∃ n < minimalPeriod f x, f^[n] x = y := by
  classical
  have hmem : ∀ y, y ≠ z → y ∈ Finset.univ.erase z := fun y hy => Finset.mem_erase.2 ⟨hy, Finset.mem_univ y⟩
  refine exists_iterate_eq (fun n => hmem _ (hz n)) ?_ (hmem y hy)
  rw [Finset.card_erase_of_mem (Finset.mem_univ z), Finset.card_univ, hcard, Nat.add_sub_cancel]

end Orbit
