import Mathlib.Data.BitVec
import Mathlib.Data.Fintype.Fin
import ThundeRiNG.Lib.Generator

/-!
# Generators that are served in turn

`n` generators of one kind, and a counter of `w` bits that says whose turn it is. A call moves one generator and the
counter. Until the counter wraps, call `m * n + k` returns word `m` of generator `k` (`word_call`).
-/

structure Turns (w : ℕ) (S : Type*) (n : ℕ) where
  counter : BitVec w
  rng : Fin n → S

namespace Turns

open Function Generator

variable {w n : ℕ} {S B : Type*}

def call (f : S → B × S) (hn : 0 < n) (g : Turns w S n) : B × Turns w S n :=
  let current : Fin n := ⟨g.counter.toNat % n, Nat.mod_lt _ hn⟩
  let r := f (g.rng current)
  (r.1, ⟨g.counter + 1, update g.rng current r.2⟩)

def start (seed : Fin n → S) : Turns w S n := ⟨0, seed⟩

/-- How many words generator `k` has had after `c` calls. -/
def served (n c k : ℕ) : ℕ := (c + (n - 1 - k)) / n

theorem served_zero {k : ℕ} (hn : 0 < n) : served n 0 k = 0 := Nat.div_eq_of_lt (by omega)

theorem served_succ {k : ℕ} (hk : k < n) (c : ℕ) : served n (c + 1) k = served n c k + if c % n = k then 1 else 0 := by
  have hdvd : n ∣ c + (n - 1 - k) + 1 ↔ c % n = k := by
    have hlt := Nat.mod_lt c (Nat.zero_lt_of_lt hk)
    have hsum : c + (n - 1 - k) + 1 = n * (c / n) + (c % n + (n - k)) := by
      have := Nat.div_add_mod c n
      omega
    rw [hsum, Nat.dvd_add_right (Nat.dvd_mul_right _ _)]
    constructor
    · rintro ⟨q, hq⟩
      rcases q with _ | _ | q
      · omega
      · omega
      · have := Nat.mul_le_mul_left n (show 2 ≤ q + 1 + 1 by omega)
        omega
    · intro h
      exact ⟨1, by omega⟩
  rw [served, Nat.add_right_comm, Nat.succ_div, served]
  simp only [hdvd]

theorem served_mul_add {k : ℕ} (hk : k < n) (m : ℕ) : served n (m * n + k) k = m := by
  have hsum : m * n + k + (n - 1 - k) = n - 1 + n * m := by
    have := Nat.mul_comm m n
    omega
  rw [served, hsum, Nat.add_mul_div_left _ _ (by omega), Nat.div_eq_of_lt (by omega), Nat.zero_add]

variable {f : S → B × S} {hn : 0 < n} {seed : Fin n → S}

theorem after_call {c : ℕ} (hc : c ≤ 2 ^ w) :
    (after (call f hn) c (start seed : Turns w S n)).counter = BitVec.ofNat w c ∧
      ∀ k : Fin n, (after (call f hn) c (start seed : Turns w S n)).rng k = after f (served n c k) (seed k) := by
  induction c with
  | zero => exact ⟨rfl, fun k => by rw [served_zero hn]; rfl⟩
  | succ c ih =>
    obtain ⟨hcounter, hrng⟩ := ih (by omega)
    have hcur : (after (call f hn) c (start seed : Turns w S n)).counter.toNat = c := by
      rw [hcounter, BitVec.toNat_ofNat, Nat.mod_eq_of_lt (by omega)]
    rw [after_add]
    refine ⟨(congrArg (· + 1) hcounter).trans (BitVec.ofNat_add c 1).symm, fun k => ?_⟩
    rw [served_succ k.isLt]
    change update _ _ _ k = _
    simp only [hcur]
    by_cases hk : c % n = k
    · obtain rfl : (⟨c % n, Nat.mod_lt _ hn⟩ : Fin n) = k := Fin.ext hk
      rw [update_self, if_pos rfl, after_add, hrng]
      rfl
    · rw [update_of_ne (fun h => hk (congrArg Fin.val h).symm), if_neg hk, hrng, Nat.add_zero]

/-- Call `m * n + k` returns word `m` of generator `k`. -/
theorem word_call {m : ℕ} (k : Fin n) (hm : m * n + k < 2 ^ w) :
    (call f hn (after (call f hn) (m * n + k) (start seed : Turns w S n))).1 = (f (after f m (seed k))).1 := by
  obtain ⟨hcounter, hrng⟩ := @after_call w n S B f hn seed _ hm.le
  have hcur : (after (call f hn) (m * n + k) (start seed : Turns w S n)).counter.toNat % n = k := by
    rw [hcounter, BitVec.toNat_ofNat, Nat.mod_eq_of_lt hm, Nat.mul_comm, Nat.mul_add_mod, Nat.mod_eq_of_lt k.isLt]
  have hrngk := hrng k
  rw [served_mul_add k.isLt] at hrngk
  rw [call]
  simp only [hcur, Fin.eta, hrngk]

end Turns
