import ThundeRiNG.Rng.JointPeriod

/-!
# Seeds by stepping (`test/lcg_jumpahead/jumpxor32.c`)

The program prints 16384 states of xorshift32, each `period / SEQ_NUM` steps after the one before. It takes the
cycle to be `2^32` long, one more than it is: the last substream passes the start of the cycle by one state more than
the first one left there.

| here | there |
| --- | --- |
| `xorshift`        | `:7-12`, on the static `y` |
| `SEQ_NUM`, `period` | `:18`, `:22` |
| `jumpxor32`       | the loop of `main`, `:29-38`: the values printed |
-/

namespace ThundeRiNG.Jumpxor32

open Function

def Y_INIT : Rng32 := 2463534242

def xorshift (y : Rng32) : Rng32 :=
  let y := y ^^^ (y <<< 13)
  let y := y ^^^ (y >>> 17)
  y ^^^ (y <<< 5)

def SEQ_NUM : BitVec 64 := 16384
def period : BitVec 64 := 1 <<< 32

/-- One round of the outer loop: `period / SEQ_NUM` steps, then the state is printed. -/
def round (p : Rng32 × List Rng32) : Rng32 × List Rng32 :=
  let y := xorshift^[(period / SEQ_NUM).toNat] p.1
  (y, p.2 ++ [y])

def jumpxor32 : List Rng32 := ((List.range SEQ_NUM.toNat).foldl (fun p _ => round p) (Y_INIT, [])).2

theorem xorshift_eq : xorshift = xorshiftjump := rfl

theorem period_div_SEQ_NUM : (period / SEQ_NUM).toNat = 2 ^ 18 := by decide

theorem foldl_round (n : ℕ) :
    (List.range n).foldl (fun p _ => round p) (Y_INIT, []) =
      (xorshift^[n * 2 ^ 18] Y_INIT, (List.range n).map fun j => xorshift^[(j + 1) * 2 ^ 18] Y_INIT) := by
  induction n with
  | zero => rfl
  | succ n ih =>
    have hsplit : (n + 1) * 2 ^ 18 = 2 ^ 18 + n * 2 ^ 18 := by ring
    rw [List.range_succ, List.foldl_append, ih, List.foldl_cons, List.foldl_nil, round, period_div_SEQ_NUM,
      List.map_append, List.map_singleton, hsplit, iterate_add_apply]

/-- Value `j` is `(j + 1) * 2^18` steps after the start. -/
theorem jumpxor32_getD {j : ℕ} (hj : j < SEQ_NUM.toNat) :
    jumpxor32.getD j 0 = xorshift^[(j + 1) * 2 ^ 18] Y_INIT := by
  have hlen : j < ((List.range SEQ_NUM.toNat).map fun j => xorshift^[(j + 1) * 2 ^ 18] Y_INIT).length := by
    rw [List.length_map, List.length_range]; exact hj
  rw [jumpxor32, foldl_round, List.getD_eq_getElem _ _ hlen, List.getElem_map, List.getElem_range]

/-- Two positions meet exactly when they are equal or the true period apart. -/
theorem iterate_jumpxor32_eq_iff {j k a b : ℕ} (hj : j < SEQ_NUM.toNat) (hk : k < SEQ_NUM.toNat) (ha : a ≤ 2 ^ 18)
    (hb : b ≤ 2 ^ 18) :
    xorshift^[a] (jumpxor32.getD j 0) = xorshift^[b] (jumpxor32.getD k 0) ↔
      a + (j + 1) * 2 ^ 18 = b + (k + 1) * 2 ^ 18 ∨
      a + (j + 1) * 2 ^ 18 = b + (k + 1) * 2 ^ 18 + (2 ^ 32 - 1) ∨
      b + (k + 1) * 2 ^ 18 = a + (j + 1) * 2 ^ 18 + (2 ^ 32 - 1) := by
  have hpos : ∀ j < 16384, ∀ a ≤ 2 ^ 18, a + (j + 1) * 2 ^ 18 < 2 * (2 ^ 32 - 1) := by omega
  rw [jumpxor32_getD hj, jumpxor32_getD hk, ← iterate_add_apply, ← iterate_add_apply, xorshift_eq]
  exact iterate_xorshiftjump_eq_iff (by decide) (hpos j hj a ha) (hpos k hk b hb)

/-- The last output of the last substream and the first of the first, or the other way round. -/
def Meet (j a k b : ℕ) : Prop :=
  (j = 16383 ∧ a = 2 ^ 18 ∧ k = 0 ∧ b = 1) ∨ (j = 0 ∧ a = 1 ∧ k = 16383 ∧ b = 2 ^ 18)

/-- **Exactly one overlap**: outputs of two substreams differ, except the last of the last and the first of the
    first. -/
theorem substreams_disjoint_iff :
    ∀ j < SEQ_NUM.toNat, ∀ k < SEQ_NUM.toNat, j ≠ k → ∀ a b, 1 ≤ a → a ≤ (period / SEQ_NUM).toNat → 1 ≤ b →
      b ≤ (period / SEQ_NUM).toNat →
        (xorshift^[a] (jumpxor32.getD j 0) ≠ xorshift^[b] (jumpxor32.getD k 0) ↔ ¬ Meet j a k b) := by
  intro j hj k hk hne a b ha ha' hb hb'
  have hj' : j < 16384 := hj
  have hk' : k < 16384 := hk
  rw [period_div_SEQ_NUM] at ha' hb'
  rw [Ne, iterate_jumpxor32_eq_iff hj hk ha' hb', Meet]
  omega

theorem substreams_disjoint_iff_zero_one :
    xorshift^[1] (jumpxor32.getD 0 0) ≠ xorshift^[1] (jumpxor32.getD 1 0) ↔ ¬ Meet 0 1 1 1 :=
  substreams_disjoint_iff 0 (by decide) 1 (by decide) (by decide) 1 1 (by decide) (by decide) (by decide) (by decide)

/-- The partition the program aims at fails: output `2^18` of substream 16383 is output 1 of substream 0. -/
theorem substreams_not_disjoint :
    ¬ ∀ j < SEQ_NUM.toNat, ∀ k < SEQ_NUM.toNat, j ≠ k → ∀ a b, 1 ≤ a → a ≤ (period / SEQ_NUM).toNat → 1 ≤ b →
      b ≤ (period / SEQ_NUM).toNat → xorshift^[a] (jumpxor32.getD j 0) ≠ xorshift^[b] (jumpxor32.getD k 0) := by
  intro h
  refine h 16383 (by decide) 0 (by decide) (by decide) (2 ^ 18) 1 (by decide) (by decide) (by decide) (by decide) ?_
  rw [iterate_jumpxor32_eq_iff (by decide) (by decide) (by decide) (by decide)]; decide

end ThundeRiNG.Jumpxor32
