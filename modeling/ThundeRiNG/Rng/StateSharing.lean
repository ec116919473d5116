import ThundeRiNG.Lib.Affine
import ThundeRiNG.Rng.Functions

/-!
# State sharing: one root LCG, many streams (`sou_function.h:5-8`, `mpcg.h:20-29`)

Every instance adds its own odd constant to the shared root state. Adding a constant to the states
of an LCG gives the states of another LCG with the same multiplier (`multiStream_step`), whose
increment depends on the stream only (`streamInc`).
-/

namespace ThundeRiNG

/-- The root states `S_0 = s`, `S_{n+1} = RNG_A * S_n + RNG_INC`. -/
def rootState (s : RngState) (n : ℕ) : RngState := stateTransitionFunciton^[n] s

@[simp] theorem rootState_zero (s : RngState) : rootState s 0 = s := rfl

theorem rootState_succ (s : RngState) (n : ℕ) :
    rootState s (n + 1) = stateTransitionFunciton (rootState s n) := Function.iterate_succ_apply' _ _ _

theorem rootState_add (s : RngState) (m n : ℕ) : rootState s (m + n) = rootState (rootState s m) n := by
  rw [Nat.add_comm]; exact Function.iterate_add_apply _ _ _ _

/-- The root step as an affine map of the library. -/
theorem stateTransitionFunciton_eq : stateTransitionFunciton = Affine.step RNG_A RNG_INC := by
  funext s; simp only [stateTransitionFunciton, Affine.step]; ring

/-! ## The offset of a stream -/

theorem or_one_of_even {w : ℕ} (x : BitVec w) : (x <<< 1) ||| 1 = 2 * x + 1 := by
  have hdisj : (x <<< 1) &&& 1 = 0 := by
    ext i hi
    rcases i with _ | i <;> simp [BitVec.getElem_one]
  rw [← BitVec.add_eq_or_of_and_eq_zero _ _ hdisj, BitVec.shiftLeft_eq_mul_twoPow]
  have h2 : BitVec.twoPow w 1 = 2 := by
    rw [← BitVec.toNat_inj]; simp [BitVec.toNat_twoPow]
  rw [h2, mul_comm]

/-- What `multi_stream` adds: the low bit is free, so `| 1` is `+ 1`. -/
theorem offset_eq (seq : RngState) : (RNG_A * (seq <<< 1)) ||| 1 = 2 * RNG_A * seq + 1 := by
  have hshift : RNG_A * (seq <<< 1) = (RNG_A * seq) <<< 1 := by
    rw [BitVec.shiftLeft_eq_mul_twoPow, BitVec.shiftLeft_eq_mul_twoPow, mul_assoc]
  rw [hshift, or_one_of_even]; ring

theorem multiStream_eq (s seq : RngState) : multiStream s seq = s + (2 * RNG_A * seq + 1) := by
  rw [multiStream, offset_eq]

/-- The increment of stream `seq`'s own LCG. -/
def streamInc (seq : RngState) : RngState := RNG_INC + (1 - RNG_A) * ((RNG_A * 2 * seq) ||| 1)

theorem streamInc_eq (seq : RngState) : streamInc seq = RNG_INC + (1 - RNG_A) * (2 * RNG_A * seq + 1) := by
  have h : RNG_A * (2 : RngState) * seq = RNG_A * (seq <<< 1) := by
    rw [BitVec.shiftLeft_eq_mul_twoPow, mul_assoc, mul_comm (2 : RngState) seq]; rfl
  rw [streamInc, h, offset_eq]

theorem multiStream_step (s seq : RngState) :
    multiStream (stateTransitionFunciton s) seq = RNG_A * multiStream s seq + streamInc seq := by
  rw [multiStream_eq, multiStream_eq, streamInc_eq, stateTransitionFunciton]; ring

/-! ## Parity and injectivity -/

theorem two_mul_add_one_odd (x : RngState) : (2 * x + 1).toNat % 2 = 1 := by
  have h1 : (1 : RngState).toNat = 1 := rfl
  have h2 : (2 : RngState).toNat = 2 := rfl
  rw [BitVec.toNat_add, BitVec.toNat_mul, h1, h2]; omega

theorem streamInc_odd (seq : RngState) : (streamInc seq).toNat % 2 = 1 := by
  have hA : 1 - RNG_A = 2 * 0x53d705e959b5406a := by decide
  have hI : RNG_INC = 2 * 0x36 + 1 := by decide
  have h : streamInc seq = 2 * (0x36 + 0x53d705e959b5406a * (2 * RNG_A * seq + 1)) + 1 := by
    rw [streamInc_eq, hA, hI]; ring
  rw [h]; exact two_mul_add_one_odd _

/-- Multiplying by a small power of two loses nothing below the matching bound. -/
theorem eq_of_mul_eq {m : ℕ} {a b : RngState} (hm : 0 < m) (ha : m * a.toNat < 2 ^ 64) (hb : m * b.toNat < 2 ^ 64)
    (h : (m : RngState) * a = m * b) : a = b := by
  have ham : ∀ x : RngState, m * x.toNat < 2 ^ 64 → ((m : RngState) * x).toNat = m * x.toNat := by
    intro x hx
    rw [BitVec.toNat_mul, BitVec.natCast_eq_ofNat, BitVec.toNat_ofNat, Nat.mod_mul_mod, Nat.mod_eq_of_lt hx]
  have hn : m * a.toNat = m * b.toNat := by rw [← ham a ha, ← ham b hb, h]
  exact BitVec.toNat_inj.1 (Nat.eq_of_mul_eq_mul_left hm hn)

/-- `(1 - RNG_A) * 2 * RNG_A` is `8` times a unit, so the increments separate ids below `2 ^ 61`. -/
theorem streamInc_injOn {seq seq' : RngState} (hs : seq.toNat < 2 ^ 61) (hs' : seq'.toNat < 2 ^ 61)
    (h : streamInc seq = streamInc seq') : seq = seq' := by
  have hunit : (0x90205b810bd454b1 : RngState) * ((1 - RNG_A) * (2 * RNG_A)) = (8 : ℕ) := by decide
  rw [streamInc_eq, streamInc_eq] at h
  refine eq_of_mul_eq (m := 8) (by omega) (by omega) (by omega) ?_
  rw [← hunit]
  linear_combination (0x90205b810bd454b1 : RngState) * h

/-- `2 * RNG_A` is `2` times a unit, so the shared states separate ids below `2 ^ 63`. -/
theorem multiStream_injOn {s seq seq' : RngState} (hs : seq.toNat < 2 ^ 63) (hs' : seq'.toNat < 2 ^ 63)
    (h : multiStream s seq = multiStream s seq') : seq = seq' := by
  have hunit : (0xc097ef87329e28a5 : RngState) * (2 * RNG_A) = (2 : ℕ) := by decide
  rw [multiStream_eq, multiStream_eq] at h
  refine eq_of_mul_eq (m := 2) (by omega) (by omega) (by omega) ?_
  rw [← hunit]
  linear_combination (0xc097ef87329e28a5 : RngState) * h

/-- **State sharing**: from any root state, stream `seq` runs its own LCG with multiplier `RNG_A` and the odd
    increment `streamInc seq`, and ids below `2 ^ 61` give different increments and different states. -/
theorem stateSharing (s : RngState) :
    (∀ (seq : RngState) (n : ℕ),
      multiStream (rootState s (n + 1)) seq = RNG_A * multiStream (rootState s n) seq + streamInc seq) ∧
    (∀ seq : RngState, (streamInc seq).toNat % 2 = 1) ∧
    (∀ seq seq' : RngState, seq.toNat < 2 ^ 61 → seq'.toNat < 2 ^ 61 → seq ≠ seq' →
      streamInc seq ≠ streamInc seq' ∧ ∀ n, multiStream (rootState s n) seq ≠ multiStream (rootState s n) seq') := by
  refine ⟨?_, streamInc_odd, ?_⟩
  · intro seq n
    rw [rootState_succ, multiStream_step]
  · intro seq seq' hs hs' hne
    constructor
    · intro h
      exact hne (streamInc_injOn hs hs' h)
    · intro n h
      exact hne (multiStream_injOn (by omega) (by omega) h)

theorem stateSharing_ids_7_8 :
    streamInc 7 ≠ streamInc 8 ∧
      ∀ n, multiStream (rootState RNG_INIT_STATE n) 7 ≠ multiStream (rootState RNG_INIT_STATE n) 8 :=
  (stateSharing RNG_INIT_STATE).2.2 7 8 (by decide) (by decide) (by decide)

/-- The host's `int` version is the same function as long as `seq << 1` does not overflow. -/
theorem Mpcg.multiStream_eq_multiStream (s : RngState) (seq : BitVec 32) (h : -2 ^ 30 ≤ seq.toInt)
    (h' : seq.toInt < 2 ^ 30) : Mpcg.multiStream s seq = ThundeRiNG.multiStream s (seq.signExtend 64) := by
  have hshift : (seq <<< 1).signExtend 64 = seq.signExtend 64 <<< 1 := by
    have hn := BitVec.toInt_signExtend_of_le (x := seq) (v := 64) (by omega)
    rw [← BitVec.toInt_inj, BitVec.toInt_signExtend_of_le (by omega), BitVec.toInt_shiftLeft,
      BitVec.toInt_shiftLeft]
    simp only [BitVec.toInt_eq_toNat_bmod, Nat.shiftLeft_eq, Int.bmod] at hn h h' ⊢
    omega
  rw [Mpcg.multiStream, ThundeRiNG.multiStream, hshift]

end ThundeRiNG
