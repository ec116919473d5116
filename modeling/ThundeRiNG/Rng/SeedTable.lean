import ThundeRiNG.Rng.JointPeriod
import ThundeRiNG.Rng.Xor32s

/-!
# The seed table cuts the decorrelator's cycle (`rsgu/xor32s.h`, `test/corr_test/corr_xor32.c:20-38`)

Each row of `tmp_xor32_s` is 1048573 steps after the one before, and the first as far after 2463534242, so row `i`
stands at position `(i + 1) * 1048573` of the one cycle of length `2^32 - 1` (`row_eq`). The 4096 pieces of 1048573
outputs that `corr_xor32` prints are then disjoint by arithmetic on positions, although the last one passes the end
of the cycle.

The stride is applied to a row as a matrix of 32 columns, so that the kernel can check all 4095 steps.
-/

namespace ThundeRiNG

/-- The start value of `y` (`corr_xor32.c:9`). -/
def XOR32_SEED : Rng32 := 2463534242

/-- How many outputs `corr_xor32` draws from one row (`:32`). -/
def SUBSTREAM : ℕ := 1048573

/-- The columns of `SUBSTREAM` steps. -/
def strideColumns : List ℕ := [
0x82873389, 0xe75c0231, 0x54f449e1, 0xc63b1bfd, 0xc1953abd, 0xa46346f3, 0xcf45d0b0, 0x7e08ccc4,
   0x046e7561, 0xf0912919, 0x20e7e514, 0xf7efc07f, 0xffbc0701, 0x81d2e437, 0xe36edebc, 0xb01b12f9,
   0x752aa204, 0x4edea6b0, 0x5d048eff, 0x4f2f2a01, 0xfe2f7079, 0xbaa60e27, 0xe7a95232, 0xaa8caa94,
   0x825716d2, 0x28514bac, 0x9c9abcd5, 0x132c1db0, 0x563e2040, 0x72c26903, 0x88507604, 0x246a1885]

theorem iterate_substream (x : Rng32) :
    xorshiftjump^[SUBSTREAM] x = Gf2.apply xorshiftjump (Gf2.powMod xorshift32Poly 32 SUBSTREAM) x :=
  Gf2.iterate_eq_apply_powMod xorLinear_xorshiftjump apply_xorshift32Poly 32 SUBSTREAM x

theorem matVec_strideColumns (x : Rng32) :
    Gf2.matVec strideColumns x.toNat = (xorshiftjump^[SUBSTREAM] x).toNat := by
  have hcols : strideColumns = (List.range 32).map fun i =>
      (Gf2.apply xorshiftjump (Gf2.powMod xorshift32Poly 32 SUBSTREAM) (BitVec.twoPow 32 i)).toNat := by
    decide +kernel
  rw [hcols, iterate_substream]
  exact Gf2.matVec_columns (Gf2.xorLinear_apply xorLinear_xorshiftjump _) x

set_option maxRecDepth 100000 in
theorem isChain_tmpXor32S : tmpXor32S.IsChain fun row next => Gf2.matVec strideColumns row.toNat = next.toNat := by
  decide +kernel

/-- **Rows**: row `i` is `i + 1` strides after the seed. -/
theorem row_eq {i : ℕ} (hi : i < 4096) : tmpXor32S.getD i 0 = xorshiftjump^[(i + 1) * SUBSTREAM] XOR32_SEED := by
  induction i with
  | zero => rw [Nat.zero_add, Nat.one_mul, iterate_substream]; decide +kernel
  | succ i ih =>
    have hnext : i + 1 < tmpXor32S.length := by rw [length_tmpXor32S]; exact hi
    have hstep := List.isChain_iff_getElem.1 isChain_tmpXor32S i hnext
    have hsplit : (i + 1 + 1) * SUBSTREAM = SUBSTREAM + (i + 1) * SUBSTREAM := by ring
    rw [matVec_strideColumns, BitVec.toNat_inj] at hstep
    rw [hsplit, Function.iterate_add_apply, ← ih (by omega), List.getD_eq_getElem _ _ hnext,
      List.getD_eq_getElem _ _ (by omega), hstep]

/-- **Disjoint substreams**: no row is zero, and two rows give no common value within the first 1048573 steps. -/
theorem seedTable_disjoint :
    (∀ i < 4096, tmpXor32S.getD i 0 ≠ 0) ∧
    (∀ i < 4096, ∀ j < 4096, i ≠ j → ∀ a b, 1 ≤ a → a ≤ 1048573 → 1 ≤ b → b ≤ 1048573 →
      xorshiftjump^[a] (tmpXor32S.getD i 0) ≠ xorshiftjump^[b] (tmpXor32S.getD j 0)) := by
  have hseed : XOR32_SEED ≠ 0 := by decide
  constructor
  · intro i hi
    rw [row_eq hi]
    exact xorshiftjump_ne_zero hseed _
  · intro i hi j hj hne a b ha ha' hb hb' h
    have hpos : ∀ i < 4096, ∀ a ≤ 1048573, a + (i + 1) * SUBSTREAM < 2 * (2 ^ 32 - 1) := by
      intro i hi a ha
      simp only [SUBSTREAM]
      omega
    rw [row_eq hi, row_eq hj, ← Function.iterate_add_apply, ← Function.iterate_add_apply,
      iterate_xorshiftjump_eq_iff hseed (hpos i hi a ha') (hpos j hj b hb')] at h
    simp only [SUBSTREAM] at h
    -- past the end of the cycle row 4095 stays before what row 0 starts from
    omega

theorem seedTable_disjoint_wrap :
    xorshiftjump^[1048573] (tmpXor32S.getD 4095 0) ≠ xorshiftjump^[1] (tmpXor32S.getD 0 0) :=
  seedTable_disjoint.2 4095 (by decide) 0 (by decide) (by decide) 1048573 1 (by decide) (by decide) (by decide)
    (by decide)

end ThundeRiNG
