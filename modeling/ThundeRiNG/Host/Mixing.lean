import ThundeRiNG.Lib.Checked
import ThundeRiNG.Rng.Equidistribution
import ThundeRiNG.Rng.StateSharing

/-!
# The host's mixing functions (`mpcg.h`, `xorwow.h`, `xorshift128.h`, `rng_header.h`)

On the host `rng32_t` is `uint32_t` and `rng_state_t` is `uint64_t`, and the compiler may assume that no shift count
reaches the width and no signed product overflows. `Mixing` has the functions with these checks (`none` is undefined
behaviour); `Rng.Functions` has the values the hardware computes.

| here | there |
| --- | --- |
| `Mpcg.multiStreamSeeked`, `seekedOffset`, `seekedInc` | `misc/mpcg.h:31-34` |
| `Mixing.outputFunction`, `Mixing.multiStreamSeeked`   | `misc/mpcg.h:31-41` |
| `Mixing.outputFunctionInter` | `test/rngs/xorwow.h:33-38` |
| `Mixing.mixPermutation`      | `test/rngs/xorshift128.h:438-443` |
| `Mixing.pcgOutputXshRs6432`  | `test/rng_header.h:38-42` |
-/

namespace ThundeRiNG

/-! ## The seeked streams -/

/-- What `multi_stream_seeked` adds to the root state. -/
def seekedOffset (seq : BitVec 32) : RngState := (0x5b5fee90a1001dcd * seq.signExtend 64 + 0x219b40fff5054705) ||| 1

theorem multiStreamSeeked_eq (s : RngState) (seq : BitVec 32) :
    Mpcg.multiStreamSeeked s seq = s + seekedOffset seq := rfl

/-- The increment of the LCG that stream `seq` runs. -/
def seekedInc (seq : BitVec 32) : RngState := RNG_INC + (1 - RNG_A) * seekedOffset seq

theorem or_one_odd (x : RngState) : (x ||| 1).toNat % 2 = 1 := by
  rw [BitVec.toNat_or, show (1 : RngState).toNat = 1 from rfl, Nat.or_mod_two_eq_one]
  exact Or.inr rfl

theorem seekedOffset_odd (seq : BitVec 32) : (seekedOffset seq).toNat % 2 = 1 := or_one_odd _

/-- `| 1` moves an even value up by one and keeps an odd one, so it merges neighbours only. -/
theorem or_one_cases (x : RngState) : x ||| 1 = x ∨ x ||| 1 = x + 1 := by
  cases h0 : x.getLsbD 0 with
  | true =>
    left
    ext i hi
    rcases i with _ | i <;> simp_all [BitVec.getElem_one]
  | false =>
    right
    have hdisj : x &&& 1 = 0 := by
      ext i hi
      rcases i with _ | i <;> simp_all [BitVec.getElem_one]
    exact (BitVec.add_eq_or_of_and_eq_zero _ _ hdisj).symm

theorem sub_of_or_one_eq {x y : RngState} (h : x ||| 1 = y ||| 1) : x - y = 0 ∨ x - y = 1 ∨ x - y = -1 := by
  rcases or_one_cases x with hx | hx <;> rcases or_one_cases y with hy | hy <;> rw [hx, hy] at h
  · left; rw [h]; ring
  · right; left; rw [h]; ring
  · right; right; rw [← h]; ring
  · left; linear_combination h

/-- The difference of two `int`s is exact in 64 bits. -/
theorem toInt_sub_signExtend (x y : BitVec 32) :
    (x.signExtend 64 - y.signExtend 64).toInt = x.toInt - y.toInt := by
  have hx := BitVec.toInt_lt (x := x)
  have hx' := BitVec.le_toInt x
  have hy := BitVec.toInt_lt (x := y)
  have hy' := BitVec.le_toInt y
  rw [BitVec.toInt_sub, BitVec.toInt_signExtend_of_le (by omega), BitVec.toInt_signExtend_of_le (by omega)]
  apply Int.bmod_eq_of_le <;> omega

/-- A collision would put `seq - seq'` at `0` or at plus or minus the inverse of the multiplier, which is further
    than two `int`s are from each other. -/
theorem seekedOffset_injective {seq seq' : BitVec 32} (h : seekedOffset seq = seekedOffset seq') : seq = seq' := by
  have hunit : (0x960b9150979a1705 : RngState) * 0x5b5fee90a1001dcd = 1 := by decide
  have hprod := sub_of_or_one_eq h
  have hdiff : seq.signExtend 64 - seq'.signExtend 64 =
      (0x960b9150979a1705 : RngState) * (0x5b5fee90a1001dcd * seq.signExtend 64 + 0x219b40fff5054705 -
        (0x5b5fee90a1001dcd * seq'.signExtend 64 + 0x219b40fff5054705)) := by
    linear_combination -(seq.signExtend 64 - seq'.signExtend 64) * hunit
  have hint := toInt_sub_signExtend seq seq'
  have hx := BitVec.toInt_lt (x := seq)
  have hx' := BitVec.le_toInt seq
  have hy := BitVec.toInt_lt (x := seq')
  have hy' := BitVec.le_toInt seq'
  rw [hdiff] at hint
  rcases hprod with hd | hd | hd <;> rw [hd] at hint
  · rw [← BitVec.toInt_inj]
    simp at hint; omega
  · rw [show ((0x960b9150979a1705 : RngState) * 1).toInt = -7634848967949674747 from by decide] at hint
    omega
  · rw [show ((0x960b9150979a1705 : RngState) * -1).toInt = 7634848967949674747 from by decide] at hint
    omega

theorem multiStreamSeeked_step (s : RngState) (seq : BitVec 32) :
    Mpcg.multiStreamSeeked (stateTransitionFunciton s) seq =
      RNG_A * Mpcg.multiStreamSeeked s seq + seekedInc seq := by
  rw [multiStreamSeeked_eq, multiStreamSeeked_eq, seekedInc, stateTransitionFunciton]; ring

theorem seekedInc_odd (seq : BitVec 32) : (seekedInc seq).toNat % 2 = 1 := by
  have hA : 1 - RNG_A = 2 * 0x53d705e959b5406a := by decide
  have hI : RNG_INC = 2 * 0x36 + 1 := by decide
  have h : seekedInc seq = 2 * (0x36 + 0x53d705e959b5406a * seekedOffset seq) + 1 := by
    rw [seekedInc, hA, hI]; ring
  rw [h]; exact two_mul_add_one_odd _

/-- **Seeked streams**: from every state two different `int`s give different values, what is added is odd, and
    along the root states stream `seq` runs the LCG with multiplier `RNG_A` and the odd increment `seekedInc seq`. -/
theorem seekedStreams (s : RngState) :
    (∀ seq seq' : BitVec 32, seq ≠ seq' → Mpcg.multiStreamSeeked s seq ≠ Mpcg.multiStreamSeeked s seq') ∧
    (∀ seq : BitVec 32, (Mpcg.multiStreamSeeked s seq - s).toNat % 2 = 1) ∧
    (∀ (seq : BitVec 32) (n : ℕ), Mpcg.multiStreamSeeked (rootState s (n + 1)) seq =
      RNG_A * Mpcg.multiStreamSeeked (rootState s n) seq + seekedInc seq) ∧
    (∀ seq : BitVec 32, (seekedInc seq).toNat % 2 = 1) := by
  refine ⟨?_, ?_, ?_, seekedInc_odd⟩
  · intro seq seq' hne h
    rw [multiStreamSeeked_eq, multiStreamSeeked_eq] at h
    exact hne (seekedOffset_injective (add_left_cancel h))
  · intro seq
    rw [multiStreamSeeked_eq, add_sub_cancel_left]
    exact seekedOffset_odd seq
  · intro seq n
    rw [rootState_succ, multiStreamSeeked_step]

theorem seekedStreams_0_1 :
    Mpcg.multiStreamSeeked Mpcg.RNG_INIT_STATE 0 ≠ Mpcg.multiStreamSeeked Mpcg.RNG_INIT_STATE 1 :=
  (seekedStreams Mpcg.RNG_INIT_STATE).1 0 1 (by decide)

/-! ## Defined arithmetic -/

namespace Mixing

open Checked

/-- `((s >> 18u) ^ s) >> 27u`, kept to 32 bits. -/
def xorshiftedWord (s : RngState) : Option Rng32 := do
  let t ← shiftRight s (18 : Rng32)
  let x ← shiftRight (t ^^^ s) (27 : Rng32)
  return x.setWidth 32

/-- `(xorshifted >> rot) | (xorshifted << ((-rot) & 31))`. -/
def rotated (xorshifted rot : Rng32) : Option Rng32 := do
  let right ← shiftRight xorshifted rot
  let left ← shiftLeft xorshifted ((-rot) &&& 31)
  return right ||| left

def outputFunction (oldstate : RngState) : Option Rng32 := do
  let xorshifted ← xorshiftedWord oldstate
  let rot ← shiftRight oldstate (59 : Rng32)
  rotated xorshifted (rot.setWidth 32)

def pcgOutputXshRs6432 (state : RngState) : Option Rng32 := do
  let t ← shiftRight state (22 : Rng32)
  let c ← shiftRight state (61 : Rng32)
  let x ← shiftRight (t ^^^ state) (c + 22)
  return x.setWidth 32

/-- The old state gives the count, the new one the word. -/
def outputFunctionInter (oldstate newstate : RngState) (shift : BitVec 32) : Option Rng32 := do
  let xorshifted ← xorshiftedWord newstate
  let rot ← shiftRight oldstate (53 : Rng32)
  rotated xorshifted ((rot + (shift &&& 2047).signExtend 64).setWidth 32)

/-- `a` is not used. -/
def mixPermutation (oldstate : RngState) (_a : BitVec 32) : Option Rng32 := do
  let xorshifted ← xorshiftedWord oldstate
  let rot ← shiftRight oldstate (27 : Rng32)
  rotated xorshifted (rot.setWidth 32)

/-- Both literals fit in a `long`, so the product, the sum and `| 1u` are done in `long`; only the sum with the state is
    unsigned. -/
def multiStreamSeeked (state : RngState) (seq : BitVec 32) : Option RngState := do
  let p ← mul (0x5b5fee90a1001dcd : RngState) (seq.signExtend 64)
  let q ← add p 0x219b40fff5054705
  return state + (q ||| 1)

@[simp] theorem xorshiftedWord_eq (s : RngState) : xorshiftedWord s = some (xorshifted s) := rfl

/-- The value is there, and is `x` rotated. -/
def Rotates (x : Rng32) (r : Option Rng32) : Prop := ∃ k < 32, r = some (x.rotateRight k)

theorem rotated_eq (x : Rng32) {rot : Rng32} (h : rot.toNat < 32) :
    rotated x rot = some (x.rotateRight rot.toNat) := by
  have hmask : ((-rot) &&& (31 : Rng32)).toNat < 32 := by
    rw [BitVec.toNat_and]
    exact Nat.lt_of_le_of_lt Nat.and_le_right (by decide)
  rw [← shiftRight_or_shiftLeft_eq_rotateRight x rot h]
  simp only [rotated, shiftRight_of_lt x h, shiftLeft_of_lt x hmask]
  rfl

/-- The mask keeps the left count below 32 whatever `rot` is; only the right shift can be undefined. -/
theorem rotates_rotated (x rot : Rng32) : Rotates x (rotated x rot) ↔ rot.toNat < 32 := by
  constructor
  · rintro ⟨k, hk, h⟩
    by_contra hge
    simp [rotated, shiftRight_of_le x (Nat.le_of_not_lt hge)] at h
  · intro h
    exact ⟨rot.toNat, h, rotated_eq x h⟩

/-- The five top bits are below 32. -/
theorem rotates_outputFunction (s : RngState) : Rotates (xorshifted s) (outputFunction s) := by
  have hlt : ((s >>> (59 : Rng32)).setWidth 32 : Rng32).toNat < 32 := by
    have hs := s.isLt
    simp [Nat.shiftRight_eq_div_pow]; omega
  exact (rotates_rotated _ _).2 hlt

/-- At most `7 + 22`. -/
theorem isSome_pcgOutputXshRs6432 (s : RngState) : (pcgOutputXshRs6432 s).isSome := by
  have hlt : (s >>> (61 : Rng32) + 22).toNat < 64 := by
    have hs := s.isLt
    simp [Nat.shiftRight_eq_div_pow]; omega
  have h : pcgOutputXshRs6432 s =
      (shiftRight (s >>> (22 : Rng32) ^^^ s) (s >>> (61 : Rng32) + 22)).bind (fun x => some (x.setWidth 32)) := rfl
  rw [h, shiftRight_of_lt _ hlt]
  rfl

theorem rotates_outputFunctionInter (s t : RngState) (shift : BitVec 32) :
    Rotates (xorshifted t) (outputFunctionInter s t shift) ↔ (s >>> 53).toNat + (shift &&& 2047).toNat < 32 := by
  have hlt : (s >>> 53).toNat < 2048 := by
    have hs := s.isLt
    simp [Nat.shiftRight_eq_div_pow]; omega
  have hshift : (shift &&& 2047).toNat < 2048 := by
    rw [BitVec.toNat_and]
    exact Nat.lt_of_le_of_lt Nat.and_le_right (by decide)
  have hext : ((shift &&& 2047).signExtend 64).toNat = (shift &&& 2047).toNat := by
    have hmsb : (shift &&& 2047).msb = false := by
      rw [BitVec.msb_and, show (2047 : BitVec 32).msb = false from rfl, Bool.and_false]
    rw [BitVec.signExtend_eq_setWidth_of_msb_false hmsb, BitVec.toNat_setWidth]
    omega
  have hrot : ((s >>> (53 : Rng32) + (shift &&& 2047).signExtend 64).setWidth 32 : Rng32).toNat =
      (s >>> 53).toNat + (shift &&& 2047).toNat := by
    rw [BitVec.toNat_setWidth, BitVec.toNat_add, hext]
    change ((s >>> 53).toNat + _) % _ % _ = _
    omega
  rw [← hrot]
  exact rotates_rotated _ _

theorem rotates_mixPermutation (s : RngState) (a : BitVec 32) :
    Rotates (xorshifted s) (mixPermutation s a) ↔ ((s >>> 27).setWidth 32 : Rng32).toNat < 32 :=
  rotates_rotated _ _

/-- Of all `int`s, only `-1`, `0` and `1` times the multiplier fit in a `long`. -/
theorem isSome_multiStreamSeeked (s : RngState) (seq : BitVec 32) :
    (multiStreamSeeked s seq).isSome ↔ seq = -1 ∨ seq = 0 ∨ seq = 1 := by
  have hA : (0x5b5fee90a1001dcd : RngState).toInt = 6584243485182795213 := by decide
  have hseq : (seq.signExtend 64).toInt = seq.toInt := BitVec.toInt_signExtend_of_le (by omega)
  have hmul := isSome_mul (0x5b5fee90a1001dcd : RngState) (seq.signExtend 64)
  rw [hA, hseq] at hmul
  constructor
  · intro h
    obtain ⟨r, hr⟩ := Option.isSome_iff_exists.1 h
    obtain ⟨p, hp, -⟩ := Option.bind_eq_some_iff.1 hr
    have hrange := hmul.1 (Option.isSome_iff_exists.2 ⟨p, hp⟩)
    have hval : seq.toInt = -1 ∨ seq.toInt = 0 ∨ seq.toInt = 1 := by omega
    simpa [← BitVec.toInt_inj] using hval
  · rintro (rfl | rfl | rfl) <;> rfl

/-! ### All five together -/

/-- What is asked of one call of each: every operation has a value, and the three that rotate do so. -/
structure Defined (oldstate state : RngState) (shift a seq : BitVec 32) : Prop where
  output : Rotates (xorshifted state) (outputFunction state)
  xshRs : (pcgOutputXshRs6432 state).isSome
  inter : Rotates (xorshifted state) (outputFunctionInter oldstate state shift)
  mix : Rotates (xorshifted state) (mixPermutation state a)
  seeked : (multiStreamSeeked state seq).isSome

/-- **Defined arithmetic**: `output_function` and the random shift are always defined. `output_function_inter` is
    iff the eleven top bits and the masked shift stay below 32 together, `mix_permutation` iff bits 27 to 58 do,
    and `multi_stream_seeked` for three stream numbers only. -/
theorem defined_iff (oldstate state : RngState) (shift a seq : BitVec 32) :
    Defined oldstate state shift a seq ↔
      (oldstate >>> 53).toNat + (shift &&& 2047).toNat < 32 ∧
      ((state >>> 27).setWidth 32 : Rng32).toNat < 32 ∧
      (seq = -1 ∨ seq = 0 ∨ seq = 1) := by
  rw [← rotates_outputFunctionInter oldstate state shift, ← rotates_mixPermutation state a,
    ← isSome_multiStreamSeeked state seq]
  constructor
  · intro h
    exact ⟨h.inter, h.mix, h.seeked⟩
  · rintro ⟨hinter, hmix, hseeked⟩
    exact ⟨rotates_outputFunction state, isSome_pcgOutputXshRs6432 state, hinter, hmix, hseeked⟩

/-- The first call of each caller: stream 0 is number `54 + 0 * 2 + 1`, its shift is `(0 * 3) | 1`, the states are
    the root's first and its second. The product for number 55 is too large. -/
theorem not_defined :
    multiStreamSeeked (stateTransitionFunciton Mpcg.RNG_INIT_STATE) 55 = none ∧
    ¬ ∀ oldstate state shift a seq, Defined oldstate state shift a seq := by
  have hnone : multiStreamSeeked (stateTransitionFunciton Mpcg.RNG_INIT_STATE) 55 = none := by decide
  refine ⟨hnone, fun h => ?_⟩
  have hseeked := (h Mpcg.RNG_INIT_STATE (stateTransitionFunciton Mpcg.RNG_INIT_STATE) 1 0 55).seeked
  rw [hnone] at hseeked
  exact absurd hseeked Bool.false_ne_true

end Mixing

end ThundeRiNG
