import ThundeRiNG.Host.PcgBasic
import ThundeRiNG.Lib.Turns

/-!
# Streams that differ in the increment only (`test/rngs/ompcg.h`)

`molcg` serves `CO_NUM` generators in turn, which `original_lcg_init` seeds with 42 and the numbers from 54 on, so that
each has an increment of its own. That makes one sequence out of them all the same: the multiplier is 5
modulo 8, and so each run of states is, up to a sign and a constant, a later part of each other one. `molcg`, which
puts out the upper half of the state, lets this through. Of any two of its streams, each word of the one is, but for a
last unit of carry, a constant plus or minus the word that the other has a fixed number of rounds later
(`molcg_streams`).

| here | there |
| --- | --- |
| `lcgRandomR`       | `:16-22` |
| `molcg`            | `:24-30` |
| `originalLcgInit`  | `:46-53` |
-/

namespace ThundeRiNG.Lcg

open Function

def lcgRandomR (rng : Pcg32Random) : Rng32 × Pcg32Random :=
  let oldstate := rng.state
  ((oldstate >>> 32).setWidth 32, { rng with state := oldstate * PCG_DEFAULT_MULTIPLIER_64 + rng.inc })

/-- `counter` and `opcg_rng`. -/
abbrev Opcg (CO_NUM : ℕ) := Turns 64 Pcg32Random CO_NUM

def molcg {CO_NUM : ℕ} (hCO : 0 < CO_NUM) : Opcg CO_NUM → Rng32 × Opcg CO_NUM := Turns.call lcgRandomR hCO

/-- `54u + i` has 32 bits. -/
def originalLcgInit (index : ℕ) : Pcg32Random := pcg32SrandomR 42 ((54 + BitVec.ofNat 32 index).setWidth 64)

/-- After `original_lcg_init` for every index. -/
def Opcg.start (CO_NUM : ℕ) : Opcg CO_NUM := Turns.start fun index => originalLcgInit index

/-! ## The states of two streams -/

/-- Word `n` of generator `index`. -/
def lcgWord (index n : ℕ) : Rng32 := (lcgRandomR (Generator.after lcgRandomR n (originalLcgInit index))).1

theorem after_lcgRandomR (n : ℕ) (rng : Pcg32Random) :
    after lcgRandomR n rng = ⟨(Affine.step PCG_DEFAULT_MULTIPLIER_64 rng.inc)^[n] rng.state, rng.inc⟩ := by
  refine after_eq (fun state => ?_) n rng.state
  simp only [lcgRandomR, Affine.step, mul_comm]

theorem inc_originalLcgInit (index : ℕ) :
    (originalLcgInit index).inc = (((54 + BitVec.ofNat 32 index).setWidth 64) <<< 1) ||| 1 := by
  simp only [originalLcgInit, pcg32SrandomR, inc_pcg32RandomR]

/-- An increment is 1 or 3 modulo 4, as the index is even or odd. -/
theorem inc_mod_four (index : ℕ) : (originalLcgInit index).inc.toNat % 4 = 1 + 2 * (index % 2) := by
  have hbits : ∀ x : BitVec 32, ((x.setWidth 64 <<< 1) ||| 1 : BitVec 64).toNat % 4 = 1 + 2 * (x.toNat % 2) := by
    intro x
    have hx := x.isLt
    have hmod : (x.setWidth 64 <<< 1 : BitVec 64).toNat = 2 * x.toNat := by
      rw [BitVec.toNat_shiftLeft, BitVec.toNat_setWidth, Nat.shiftLeft_eq, Nat.mod_eq_of_lt (a := x.toNat) (by omega)]
      omega
    have hor := Nat.two_pow_add_eq_or_of_lt (i := 1) (show 1 < 2 ^ 1 by decide) x.toNat
    rw [pow_one] at hor
    rw [BitVec.toNat_or, hmod, show (1 : BitVec 64).toNat = 1 from rfl, ← hor]
    omega
  have h54 : (54 : BitVec 32).toNat = 54 := rfl
  rw [inc_originalLcgInit, hbits, BitVec.toNat_add, BitVec.toNat_ofNat, h54]
  omega

/-! ## Their upper halves -/

/-- What `molcg` puts out of a state. -/
def upper (x : BitVec 64) : Rng32 := (x >>> 32).setWidth 32

theorem toNat_upper (x : BitVec 64) : (upper x).toNat = x.toNat / 2 ^ 32 := by
  have hx := x.isLt
  rw [upper, BitVec.toNat_setWidth, BitVec.toNat_ushiftRight, Nat.shiftRight_eq_div_pow]
  omega

theorem upper_add (x v : BitVec 64) : upper (x + v) = upper v + upper x ∨ upper (x + v) = upper v + 1 + upper x := by
  have hx := x.isLt
  have hv := v.isLt
  simp only [← BitVec.toNat_inj, BitVec.toNat_add, toNat_upper, show (1 : Rng32).toNat = 1 from rfl]
  omega

theorem upper_neg_add (x v : BitVec 64) : upper (-x + v) = upper v - upper x ∨ upper (-x + v) = upper v - 1 - upper x := by
  have hx := x.isLt
  have hv := v.isLt
  simp only [← BitVec.toNat_inj, BitVec.toNat_add, BitVec.toNat_neg, BitVec.toNat_sub, toNat_upper,
    show (1 : Rng32).toNat = 1 from rfl]
  omega

/-- **One sequence in all streams**: as long as `counter` has not wrapped, the calls of `molcg` return the words of
    `CO_NUM` generators in turn; and for each two of these there are a number of rounds and a constant such that the
    words of the one are the constant plus the other's words so many rounds later, or plus one more, if both indices are
    even or both odd, and else the constant minus these words, or minus one more. -/
theorem molcg_streams {CO_NUM : ℕ} (hCO : 0 < CO_NUM) (j k : Fin CO_NUM) :
    (∀ n, n * CO_NUM + j < 2 ^ 64 →
      (molcg hCO (Generator.after (molcg hCO) (n * CO_NUM + j) (Opcg.start CO_NUM))).1 = lcgWord j n) ∧
    ∃ d < 2 ^ 64, ∃ c : Rng32, ∀ n,
      if (j : ℕ) % 2 = k % 2 then lcgWord j n = c + lcgWord k (n + d) ∨ lcgWord j n = c + 1 + lcgWord k (n + d)
      else lcgWord j n = c - lcgWord k (n + d) ∨ lcgWord j n = c - 1 - lcgWord k (n + d) := by
  refine ⟨fun n hn => Turns.word_call j hn, ?_⟩
  have hword : ∀ index n, lcgWord index n = upper ((Affine.step PCG_DEFAULT_MULTIPLIER_64 (originalLcgInit index).inc)^[n]
      (originalLcgInit index).state) := fun index n => by
    rw [lcgWord, show Generator.after lcgRandomR n (originalLcgInit index) = _ from after_lcgRandomR n _]; rfl
  have hodd : (originalLcgInit k).inc.toNat % 2 = 1 := by have := inc_mod_four k; omega
  have hmult : PCG_DEFAULT_MULTIPLIER_64.toNat % 8 = 5 := by decide
  have hj := inc_mod_four j
  have hk := inc_mod_four k
  by_cases hpar : (j : ℕ) % 2 = k % 2
  · obtain ⟨v, d, hd, hn⟩ := Affine.exists_iterate_step_conj (by decide) hmult hodd (one_mul 1)
      (show (1 * (originalLcgInit k).inc - (originalLcgInit j).inc).toNat % 4 = 0 by rw [one_mul, BitVec.toNat_sub]; omega)
      (originalLcgInit k).state (originalLcgInit j).state
    refine ⟨d, hd, upper v, fun n => ?_⟩
    rw [if_pos hpar, hword, hword, hn, one_mul]
    exact upper_add _ v
  · obtain ⟨v, d, hd, hn⟩ :=
      Affine.exists_iterate_step_conj (by decide) hmult hodd (show (-1 : BitVec 64) * -1 = 1 by decide)
        (show (-1 * (originalLcgInit k).inc - (originalLcgInit j).inc).toNat % 4 = 0 by
          rw [neg_one_mul, BitVec.toNat_sub, BitVec.toNat_neg]; omega)
        (originalLcgInit k).state (originalLcgInit j).state
    refine ⟨d, hd, upper v, fun n => ?_⟩
    rw [if_neg hpar, hword, hword, hn, neg_one_mul]
    exact upper_neg_add _ v

/-- Two streams, the one with an even and the other with an odd index. -/
theorem molcg_streams_two :
    (∀ n, n * 2 + ((0 : Fin 2) : ℕ) < 2 ^ 64 →
      (molcg two_pos (Generator.after (molcg two_pos) (n * 2 + ((0 : Fin 2) : ℕ)) (Opcg.start 2))).1 =
        lcgWord ((0 : Fin 2) : ℕ) n) ∧
    ∃ d < 2 ^ 64, ∃ c : Rng32, ∀ n,
      if ((0 : Fin 2) : ℕ) % 2 = ((1 : Fin 2) : ℕ) % 2 then
        lcgWord ((0 : Fin 2) : ℕ) n = c + lcgWord ((1 : Fin 2) : ℕ) (n + d) ∨
          lcgWord ((0 : Fin 2) : ℕ) n = c + 1 + lcgWord ((1 : Fin 2) : ℕ) (n + d)
      else
        lcgWord ((0 : Fin 2) : ℕ) n = c - lcgWord ((1 : Fin 2) : ℕ) (n + d) ∨
          lcgWord ((0 : Fin 2) : ℕ) n = c - 1 - lcgWord ((1 : Fin 2) : ℕ) (n + d) :=
  molcg_streams two_pos 0 1

end ThundeRiNG.Lcg
