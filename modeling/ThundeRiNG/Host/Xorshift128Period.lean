import Mathlib.Data.FinEnum
import Mathlib.NumberTheory.LucasPrimality
import Mathlib.SetTheory.Cardinal.Finite
import Mathlib.Tactic.NormNum.Prime
import Mathlib.Tactic.ReduceModChar
import ThundeRiNG.Host.Xorshift128
import ThundeRiNG.Lib.Gf2Poly

/-!
# The period of `xorshift128.h` (`:14-30`)

States form a vector space under wordwise `^`, on which `step_forward` is linear. A polynomial of degree 128
vanishes at it: this is checked on the 32 states `⟨0, 0, 0, 2^j⟩`, whose images under the step generate the
rest (`eq_zero_of_lastWord`). A certificate over the nine primes of `2^128 - 1` then gives the exact period
(`minimalPeriod_stepForward`), so the nonzero states form one cycle (`exists_iterate_stepForward`).
-/

namespace ThundeRiNG.Xorshift128

open Function

/-! ## Linearity -/

instance : XorOp State := ⟨fun s s' => ⟨s.x ^^^ s'.x, s.y ^^^ s'.y, s.z ^^^ s'.z, s.w ^^^ s'.w⟩⟩
instance : Zero State := ⟨⟨0, 0, 0, 0⟩⟩

theorem xor_mk (x y z w x' y' z' w' : Word) :
    (⟨x, y, z, w⟩ : State) ^^^ ⟨x', y', z', w'⟩ = ⟨x ^^^ x', y ^^^ y', z ^^^ z', w ^^^ w'⟩ := rfl

theorem zero_mk : (0 : State) = ⟨0, 0, 0, 0⟩ := rfl

instance : LawfulXor State where
  xor_assoc := fun ⟨_, _, _, _⟩ ⟨_, _, _, _⟩ ⟨_, _, _, _⟩ => by simp only [xor_mk, BitVec.xor_assoc]
  xor_self := fun ⟨_, _, _, _⟩ => by simp only [xor_mk, LawfulXor.xor_self, zero_mk]
  xor_zero := fun ⟨_, _, _, _⟩ => by simp only [xor_mk, xor_zero, zero_mk]
  xor_comm := fun ⟨_, _, _, _⟩ ⟨_, _, _, _⟩ => by simp only [xor_mk, LawfulXor.xor_comm]

theorem xorLinear_stepForward : Gf2.XorLinear stepForward := by
  have hx : Gf2.XorLinear State.x := fun _ _ => rfl
  have hw : Gf2.XorLinear State.w := fun _ _ => rfl
  have h19 : Gf2.XorLinear fun w : Word => w ^^^ (w >>> 19) := .xor .id (Gf2.xorLinear_ushiftRight 19)
  have h11 : Gf2.XorLinear fun x : Word => x ^^^ (x <<< 11) := .xor .id (Gf2.xorLinear_shiftLeft 11)
  have h8 : Gf2.XorLinear fun t : Word => t ^^^ (t >>> 8) := .xor .id (Gf2.xorLinear_ushiftRight 8)
  have hlast : Gf2.XorLinear fun s => (stepForward s).w := (h19.comp hw).xor ((h8.comp h11).comp hx)
  intro s s'
  exact congrArg (State.mk _ _ _) (hlast s s')

/-- The states with one nonzero word, and their images, generate all states. -/
theorem eq_zero_of_lastWord {f : State → State} (hf : Gf2.XorLinear f)
    (hcomm : ∀ s, f (stepForward s) = stepForward (f s)) (h : ∀ j < 32, f ⟨0, 0, 0, BitVec.twoPow 32 j⟩ = 0)
    (s : State) : f s = 0 := by
  have h0 : stepForward 0 = 0 := by decide
  have hw : ∀ w, f ⟨0, 0, 0, w⟩ = 0 := by
    have hlin : Gf2.XorLinear fun w : Word => f ⟨0, 0, 0, w⟩ := by
      intro w w'
      rw [← hf, xor_mk, LawfulXor.xor_self]
    exact hlin.eq_zero_of_twoPow h
  have hz : ∀ z, f ⟨0, 0, z, 0⟩ = 0 := by
    intro z
    have hstep : stepForward ⟨0, 0, 0, z⟩ ^^^ ⟨0, 0, 0, z ^^^ (z >>> 19)⟩ = ⟨0, 0, z, 0⟩ := by
      simp [stepForward, xor_mk]
    rw [← hstep, hf, hcomm, hw, hw, h0, LawfulXor.xor_self]
  have hy : ∀ y, f ⟨0, y, 0, 0⟩ = 0 := by
    intro y
    have hstep : stepForward ⟨0, 0, y, 0⟩ = ⟨0, y, 0, 0⟩ := by simp [stepForward]
    rw [← hstep, hcomm, hz, h0]
  have hx : ∀ x, f ⟨x, 0, 0, 0⟩ = 0 := by
    intro x
    have hstep : stepForward ⟨0, x, 0, 0⟩ = ⟨x, 0, 0, 0⟩ := by simp [stepForward]
    rw [← hstep, hcomm, hy, h0]
  obtain ⟨x, y, z, w⟩ := s
  have hsum : (⟨x, y, z, w⟩ : State) = ⟨x, 0, 0, 0⟩ ^^^ ⟨0, y, 0, 0⟩ ^^^ ⟨0, 0, z, 0⟩ ^^^ ⟨0, 0, 0, w⟩ := by
    simp [xor_mk]
  rw [hsum, hf, hf, hf, hx, hy, hz, hw, LawfulXor.xor_self, LawfulXor.xor_self, LawfulXor.xor_self]

/-! ## The exact period -/

/-- The characteristic polynomial of the step, coded as bits. -/
def xorshift128Poly : ℕ := 0x1000000010046d8b3f985d65ffd3c8001

theorem apply_xorshift128Poly (s : State) : Gf2.apply stepForward xorshift128Poly s = 0 := by
  refine eq_zero_of_lastWord (Gf2.xorLinear_apply xorLinear_stepForward _)
    (Gf2.apply_comm xorLinear_stepForward _) ?_ s
  decide +kernel

/-- The primes of `2^128 - 1`, each with an inverse of `X ^ ((2^128 - 1) / q) - 1` modulo the polynomial. -/
def xorshift128Certificate : List (ℕ × ℕ) :=
  [(3, 0x64c67953816627d8e1c03fd390fef03c), (5, 0x7232a2b2d2cd53a867f6d94da8f0e71f),
   (17, 0xd92cfed57f9e066f93380aec55c55bd2), (257, 0x69811d7e2688b56f2a355778589f965c),
   (641, 0xcce7c6e13d991eee18d029420f46ad66), (65537, 0xebffb80a9dc68f285f9da04a028d3ac),
   (274177, 0x5cb6e0cad66a1311fb7fd060f21d1ed1), (6700417, 0x4909a189c67b7953b575a8e2c60df884),
   (67280421310721, 0x35c6d222f6580cd92fd392c181af582b)]

theorem prime_67280421310721 : Nat.Prime 67280421310721 := by
  apply lucas_primality _ (3 : ZMod 67280421310721) (by reduce_mod_char)
  intro q hq hdvd
  have hfac : 67280421310721 - 1 = 2 ^ 8 * 5 * 47 * 373 * 2998279 := by norm_num
  have hmem : q = 2 ∨ q = 5 ∨ q = 47 ∨ q = 373 ∨ q = 2998279 := by
    rw [hfac, hq.dvd_mul, hq.dvd_mul, hq.dvd_mul, hq.dvd_mul] at hdvd
    have heq : ∀ p, p.Prime → q ∣ p → q = p := by
      intro p hp h
      exact (Nat.prime_dvd_prime_iff_eq hq hp).1 h
    rcases hdvd with (((h | h) | h) | h) | h
    · exact .inl (heq 2 (by norm_num) (hq.dvd_of_dvd_pow h))
    · exact .inr (.inl (heq 5 (by norm_num) h))
    · exact .inr (.inr (.inl (heq 47 (by norm_num) h)))
    · exact .inr (.inr (.inr (.inl (heq 373 (by norm_num) h))))
    · exact .inr (.inr (.inr (.inr (heq 2998279 (by norm_num) h))))
  rcases hmem with rfl | rfl | rfl | rfl | rfl
  all_goals
    norm_num
    reduce_mod_char
    decide

/-- The period is a multiple of the order of `X`, and no proper part of it is: one prime at a time, each its own
    computation. -/
theorem xorshift128Certificate_spec : Gf2.powMod xorshift128Poly 128 (2 ^ 128 - 1) = 1 ∧
    ∀ q ∈ xorshift128Certificate,
      Gf2.mulMod xorshift128Poly 128 q.2 (Gf2.powMod xorshift128Poly 128 ((2 ^ 128 - 1) / q.1) ^^^ 1) = 1 := by
  refine ⟨by decide +kernel, ?_⟩
  unfold xorshift128Certificate
  iterate 9 refine List.forall_mem_cons.2 ⟨by decide +kernel, ?_⟩
  exact fun q hq => absurd hq List.not_mem_nil

theorem minimalPeriod_stepForward {s : State} (hs : s ≠ 0) : minimalPeriod stepForward s = 2 ^ 128 - 1 := by
  refine Gf2.minimalPeriod_of_certificate xorLinear_stepForward apply_xorshift128Poly (n := 128)
    (c := xorshift128Certificate) ?_ ?_ ?_ ?_ hs
  · decide
  · simp only [xorshift128Certificate, List.map, List.forall_mem_cons]
    exact ⟨by norm_num, by norm_num, by norm_num, by norm_num, by norm_num, by norm_num, by norm_num, by norm_num,
      prime_67280421310721, by simp⟩
  · exact xorshift128Certificate_spec.1
  · exact xorshift128Certificate_spec.2

/-- `step_forward` repeats itself after `2^128 - 1` steps, from every state. -/
theorem iterate_stepForward_period (s : State) : stepForward^[2 ^ 128 - 1] s = s := by
  exact Gf2.iterate_eq_of_powMod xorLinear_stepForward apply_xorshift128Poly xorshift128Certificate_spec.1 s

theorem iterate_stepForward_ne_zero {s : State} (hs : s ≠ 0) (k : ℕ) : stepForward^[k] s ≠ 0 :=
  Gf2.iterate_ne_zero xorLinear_stepForward hs (by decide) (minimalPeriod_stepForward hs) k

theorem stepForward_eq_self_iff (s : State) : stepForward s = s ↔ s = 0 := by
  constructor
  · intro h
    by_contra hs
    have hdvd := (Orbit.iterate_eq_self_iff (minimalPeriod_stepForward hs) 1).1 h
    omega
  · rintro rfl; exact xorLinear_stepForward.map_zero

/-! ## One cycle -/

def State.equivProd : State ≃ Word × Word × Word × Word where
  toFun s := (s.x, s.y, s.z, s.w)
  invFun p := ⟨p.1, p.2.1, p.2.2.1, p.2.2.2⟩
  left_inv _ := rfl
  right_inv _ := rfl

instance : Fintype State := Fintype.ofEquiv _ State.equivProd.symm

theorem card_state : Fintype.card State = 2 ^ 128 := by
  have hword : Fintype.card Word = 2 ^ 32 := by rw [← FinEnum.card_eq_fintypeCard, FinEnum.card_bitVec]
  rw [Fintype.card_congr State.equivProd, Fintype.card_prod, Fintype.card_prod, Fintype.card_prod, hword]
  norm_num

/-- From any nonzero state, every nonzero state is reached within one round. -/
theorem exists_iterate_stepForward {s s' : State} (hs : s ≠ 0) (hs' : s' ≠ 0) :
    ∃ n < 2 ^ 128 - 1, stepForward^[n] s = s' := by
  have hcard : Fintype.card State = minimalPeriod stepForward s + 1 := by
    rw [card_state, minimalPeriod_stepForward hs]
    norm_num
  rw [← minimalPeriod_stepForward hs]
  exact Orbit.exists_iterate_eq_of_ne (iterate_stepForward_ne_zero hs) hcard hs'

end ThundeRiNG.Xorshift128
