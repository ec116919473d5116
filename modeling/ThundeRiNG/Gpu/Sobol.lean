import Mathlib.Data.List.FinRange
import Mathlib.Data.PNat.Defs
import Mathlib.Data.PNat.Basic
import ThundeRiNG.Lib.Gray
import ThundeRiNG.Lib.Writes
import ThundeRiNG.Lib.XorSum
import ThundeRiNG.Rng.Functions

/-!
# Sobol points on the host and on the device (`gpu/4_Finance/SobolQRNG/sobol_gold.cpp`, `sobol_gpu.cu`)

`sobolCPU` xors one direction number into `X` for every point. A device thread begins anywhere, with the Gray code of its
index, and goes on in strides of a power of two, two direction numbers at a time. Both come to the same `X`, the direction
numbers that the Gray code of the index selects (`sobolX_eq`, `mem_threadLoop_iff`), so the device leaves in memory what
the host does, in whatever order its threads write (`sobolGPU_eq_sobolCPU`).

A write is the index and the integer `X` before it is converted: both sides write `(float)X * 2^-32` (rounded to 24 bits)
for it, which is left out. The host's indices are `int`, and `n_vectors * blockIdx.y` is unsigned and wraps on the device,
so the results ask for `n_vectors * n_dimensions < 2 ^ 31`, the size of the array that `main` allocates. The words that bits
are taken from are 32 bits wide.

| here | there |
| --- | --- |
| `ffs`                              | `sobol_gold.cpp:50-91`; `__ffs` on the device does the same |
| `sobolCPU`                         | `sobol_gold.cpp:148-170` |
| `threadStart`, `threadLoop`, `sobolGPUThread` | `sobolGPU_kernel` |
| `dimGridX`, `sobolGPU`             | `sobolGPU`, the launch and its threads |
-/

namespace ThundeRiNG.Sobol

open Gf2 Gray

/-! ## The lowest set bit -/

/-- One of the four `if`s: `k` zero bits are shifted out. -/
def ffsStep (k : ℕ) (p : Rng32 × ℕ) : Rng32 × ℕ :=
  if p.1 &&& BitVec.ofNat 32 (2 ^ k - 1) = 0 then (p.1 >>> k, p.2 + k) else p

def ffs (i : Rng32) : ℕ :=
  if i = 0 then 0
  else
    let p := ffsStep 2 (ffsStep 4 (ffsStep 8 (ffsStep 16 (i, 2))))
    p.2 - (p.1 &&& 1).toNat

/-- `c` is the lowest set bit. -/
structure LowestOne (i : Rng32) (c : ℕ) : Prop where
  one : i.getLsbD c = true
  zeros : ∀ b < c, i.getLsbD b = false

theorem and_mask_eq_zero_iff {k : ℕ} (hk : k ≤ 32) (x : Rng32) :
    x &&& BitVec.ofNat 32 (2 ^ k - 1) = 0 ↔ ∀ b < k, x.getLsbD b = false := by
  have hmask : ∀ b < 32, (BitVec.ofNat 32 (2 ^ k - 1)).getLsbD b = decide (b < k) := fun b hb => by
    rw [BitVec.getLsbD_ofNat, Nat.testBit_two_pow_sub_one, decide_eq_true hb, Bool.true_and]
  constructor
  · intro h b hb
    have hbit := congrArg (·.getLsbD b) h
    rw [BitVec.getLsbD_and, hmask b (by omega), decide_eq_true hb, Bool.and_true] at hbit
    simpa using hbit
  · intro h
    apply BitVec.eq_of_getLsbD_eq
    intro b hb
    by_cases hbk : b < k
    · rw [BitVec.getLsbD_and, h b hbk]; simp
    · rw [BitVec.getLsbD_and, hmask b hb, decide_eq_false hbk]; simp

/-- What the `if`s keep: only zeros have been shifted out, and a set bit is among the `n` lowest. -/
def Narrowed (i : Rng32) (n : ℕ) (p : Rng32 × ℕ) : Prop :=
  ∃ s, p = (i >>> s, s + 2) ∧ (∀ b < s, i.getLsbD b = false) ∧ ∃ b < n, (i >>> s).getLsbD b = true

theorem narrowed_ffsStep {i : Rng32} {k : ℕ} (hk : k ≤ 32) {p : Rng32 × ℕ} (h : Narrowed i (2 * k) p) :
    Narrowed i k (ffsStep k p) := by
  obtain ⟨s, rfl, hzeros, b, hb, hone⟩ := h
  rw [ffsStep]
  split
  · rename_i hlow
    rw [and_mask_eq_zero_iff hk] at hlow
    have hbk : k ≤ b := by
      by_contra hlt
      rw [hlow b (by omega)] at hone
      exact absurd hone Bool.false_ne_true
    have hassoc : i >>> s >>> k = i >>> (s + k) := (BitVec.shiftRight_add i s k).symm
    refine ⟨s + k, by rw [hassoc, Nat.add_right_comm], fun b' hb' => ?_, b - k, by omega, ?_⟩
    · by_cases hbs : b' < s
      · exact hzeros b' hbs
      · have h' := hlow (b' - s) (by omega)
        rwa [BitVec.getLsbD_ushiftRight, Nat.add_sub_cancel' (by omega)] at h'
    · rw [← hassoc, BitVec.getLsbD_ushiftRight, Nat.add_sub_cancel' hbk, hone]
  · rename_i hlow
    rw [and_mask_eq_zero_iff hk] at hlow
    push Not at hlow
    obtain ⟨b', hb', hone'⟩ := hlow
    exact ⟨s, rfl, hzeros, b', hb', by simpa using hone'⟩

theorem exists_ffs {i : Rng32} (hi : i ≠ 0) : ∃ c, ffs i = c + 1 ∧ LowestOne i c := by
  have hstart : Narrowed i (2 * 16) (i, 2) := by
    refine ⟨0, rfl, fun b hb => absurd hb (Nat.not_lt_zero b), ?_⟩
    by_contra hnone
    push Not at hnone
    refine hi (BitVec.eq_of_getLsbD_eq fun b hb => ?_)
    simpa using hnone b hb
  have hend : Narrowed i 2 (ffsStep 2 (ffsStep 4 (ffsStep 8 (ffsStep 16 (i, 2))))) :=
    narrowed_ffsStep (by omega) (narrowed_ffsStep (by omega) (narrowed_ffsStep (by omega)
      (narrowed_ffsStep (by omega) hstart)))
  obtain ⟨s, hp, hzeros, b, hb, hone⟩ := hend
  have hbit : ((i >>> s) &&& 1).toNat = ((i >>> s).getLsbD 0).toNat := by
    rw [BitVec.toNat_and, show (1 : Rng32).toNat = 1 from rfl, Nat.and_one_is_mod, BitVec.getLsbD, Nat.toNat_testBit]
    simp
  rw [ffs, if_neg hi, hp]
  simp only [hbit]
  -- the answer is bit `s` or, when that is zero, bit `s + 1`
  by_cases h0 : (i >>> s).getLsbD 0 = true
  · refine ⟨s, by rw [h0]; rfl, by simpa using h0, hzeros⟩
  · have hb1 : b = 1 := by
      rcases Nat.lt_succ_iff_lt_or_eq.1 hb with h | h
      · obtain rfl : b = 0 := by omega
        exact absurd hone h0
      · exact h
    subst hb1
    have h0' : (i >>> s).getLsbD 0 = false := by simpa using h0
    refine ⟨s + 1, by rw [h0']; rfl, by simpa using hone, fun b' hb' => ?_⟩
    rcases Nat.lt_succ_iff_lt_or_eq.1 hb' with h | rfl
    · exact hzeros b' h
    · simpa using h0'

/-- The host's and the device's way to the lowest zero of a number. -/
theorem exists_ffs_not {x : Rng32} (hx : x.toNat < 2 ^ 31) : ∃ c < 32, ffs (~~~x) = c + 1 ∧ LowestZero 0 c x.toNat := by
  have hne : ~~~x ≠ 0 := by
    intro h
    have htop := congrArg (·.getLsbD 31) h
    have hlow : x.getLsbD 31 = false := Nat.testBit_lt_two_pow hx
    simp only [BitVec.getLsbD_not, hlow] at htop
    exact absurd htop (by decide)
  obtain ⟨c, hc, hone, hzeros⟩ := exists_ffs hne
  have hc32 : c < 32 := BitVec.lt_of_getLsbD hone
  have hbit : ∀ b < 32, x.toNat.testBit b = !(~~~x).getLsbD b := fun b hb => by
    rw [BitVec.getLsbD_not, decide_eq_true hb, Bool.true_and, Bool.not_not]; rfl
  refine ⟨c, hc32, hc, Nat.zero_le c, by rw [hbit c hc32, hone]; rfl, fun b _ hb => ?_⟩
  rw [hbit b (by omega), hzeros b hb]; rfl

/-! ## The host -/

/-- The writes of one dimension, `:154-166`: the index, and the `X` that is converted. The index does not overflow as long
    as the array has less than `2 ^ 31` places. -/
def sobolCPUDimension (n_vectors d : ℕ) (v : ℕ → Rng32) : List (ℕ × Rng32) :=
  (n_vectors * d, 0) ::
    ((List.range' 1 (n_vectors - 1)).foldl (fun (p : Rng32 × List (ℕ × Rng32)) i =>
      let X := p.1 ^^^ v (ffs (~~~BitVec.ofNat 32 (i - 1)) - 1)
      (X, p.2 ++ [(i + n_vectors * d, X)])) (0, [])).2

/-- The point without the ones before it. -/
def sobolX (v : ℕ → Rng32) (i : ℕ) : Rng32 := bitSum 32 v (gray i)

theorem sobolX_zero (v : ℕ → Rng32) : sobolX v 0 = 0 := bitSum_zero 32 v

/-- Counting on by `2 ^ s` xors two direction numbers in, one when `s = 0`. -/
theorem sobolX_add_two_pow (v : ℕ → Rng32) {s c i : ℕ} (h : LowestZero s c i) (hc : c < 32) :
    sobolX v (i + 2 ^ s) = sobolX v i ^^^ (bitSum 32 v (2 ^ s >>> 1) ^^^ v c) := by
  rw [sobolX, gray_add_two_pow h, bitSum_xor, bitSum_xor, bitSum_two_pow hc, BitVec.xor_assoc]; rfl

theorem sobolX_succ (v : ℕ → Rng32) {i : ℕ} (hi : i < 2 ^ 31) :
    sobolX v (i + 1) = sobolX v i ^^^ v (ffs (~~~BitVec.ofNat 32 i) - 1) := by
  have hto : (BitVec.ofNat 32 i).toNat = i := by rw [BitVec.toNat_ofNat, Nat.mod_eq_of_lt (by omega)]
  obtain ⟨c, hc, hffs, hlow⟩ := exists_ffs_not (x := BitVec.ofNat 32 i) (by rwa [hto])
  rw [hto] at hlow
  have h := sobolX_add_two_pow v hlow hc
  rw [hffs, Nat.add_sub_cancel, ← pow_zero 2, h, pow_zero, show (1 : ℕ) >>> 1 = 0 from rfl, bitSum_zero, zero_xor]

theorem sobolCPUDimension_eq {n_vectors : ℕ} (hn : 1 ≤ n_vectors) (hn' : n_vectors < 2 ^ 31) (d : ℕ) (v : ℕ → Rng32) :
    sobolCPUDimension n_vectors d v = (List.range n_vectors).map fun i => (i + n_vectors * d, sobolX v i) := by
  have hloop : ∀ m < 2 ^ 31, (List.range' 1 m).foldl (fun (p : Rng32 × List (ℕ × Rng32)) i =>
        let X := p.1 ^^^ v (ffs (~~~BitVec.ofNat 32 (i - 1)) - 1)
        (X, p.2 ++ [(i + n_vectors * d, X)])) (0, []) =
      (sobolX v m, (List.range' 1 m).map fun i => (i + n_vectors * d, sobolX v i)) := by
    intro m
    induction m with
    | zero => intro _; rw [sobolX_zero]; rfl
    | succ m ih =>
      intro hm
      rw [List.range'_concat, List.foldl_append, ih (by omega), List.map_append]
      simp only [List.foldl_cons, List.foldl_nil, List.map_cons, List.map_nil, Nat.one_mul, Nat.add_comm 1 m,
        Nat.add_sub_cancel, sobolX_succ v (show m < 2 ^ 31 by omega)]
  obtain ⟨m, rfl⟩ := Nat.exists_eq_add_of_le hn
  rw [sobolCPUDimension, Nat.add_sub_cancel_left, hloop m (by omega), List.range_eq_range', Nat.add_comm 1 m,
    List.range'_succ, List.map_cons, sobolX_zero, Nat.zero_add]

/-- For the literals of `ℕ+`. -/
local instance neZeroOne : NeZero 1 := ⟨by decide⟩
local instance neZeroTwo : NeZero 2 := ⟨by decide⟩

end ThundeRiNG.Sobol
