import ThundeRiNG.Rng.Rsgu

/-!
# Arbitrary strides of an LCG (`test/lcg_jumpahead/lcg_jump_ahead_test.c`)

`delta` steps of `x ↦ cur_mult * x + cur_plus` in at most 64 rounds of square-and-multiply. The loop is written
out twice, once in `pcg_advance_lcg_64`, which applies the map it finds, and once in `calculate_acc_value`, which
returns its coefficients. Everything is `uint64_t`, so all arithmetic wraps.

| here | there |
| --- | --- |
| `accLoop`                              | the loop, `:22-32` and `:41-49` |
| `pcgAdvanceLcg64`, `calculateAccValue` | `:19-55`; the two pointers are the pair returned |
| `Pcg32Random`, `pcg32RandomR`          | `pcg32_random_t`, `pcg32_random_r` (`test/pcg_basic/pcg_basic.c`) |
| `pcg32RandomRSeek`, `…InnerSeek`       | `:67-91` |

The three output lines of each `pcg32_random_r…` are the text of `output_function`.
-/

namespace ThundeRiNG.Lcg

open Function

/-! ## The loop -/

/-- The `if` of the loop body. -/
def accumulate (delta acc_mult acc_plus cur_mult cur_plus : BitVec 64) : BitVec 64 × BitVec 64 :=
  if delta &&& 1 ≠ 0 then (acc_mult * cur_mult, acc_plus * cur_mult + cur_plus) else (acc_mult, acc_plus)

def accLoop (delta acc_mult acc_plus cur_mult cur_plus : BitVec 64) : BitVec 64 × BitVec 64 :=
  if 0 < delta then
    let acc := accumulate delta acc_mult acc_plus cur_mult cur_plus
    accLoop (delta / 2) acc.1 acc.2 (cur_mult * cur_mult) ((cur_mult + 1) * cur_plus)
  else (acc_mult, acc_plus)
termination_by delta.toNat
decreasing_by
  rename_i h
  have h2 : (2 : BitVec 64).toNat = 2 := rfl
  have hpos : 0 < delta.toNat := h
  rw [BitVec.toNat_udiv, h2]; omega

def pcgAdvanceLcg64 (state delta cur_mult cur_plus : BitVec 64) : BitVec 64 :=
  let acc := accLoop delta 1 0 cur_mult cur_plus
  acc.1 * state + acc.2

def calculateAccValue (delta cur_mult cur_plus : BitVec 64) : BitVec 64 × BitVec 64 :=
  accLoop delta 1 0 cur_mult cur_plus

/-- An odd `delta` moves one application of the current map into the accumulator. -/
theorem step_accumulate (delta acc_mult acc_plus cur_mult cur_plus : BitVec 64) :
    Affine.step (accumulate delta acc_mult acc_plus cur_mult cur_plus).1
        (accumulate delta acc_mult acc_plus cur_mult cur_plus).2 =
      (Affine.step cur_mult cur_plus)^[delta.toNat % 2] ∘ Affine.step acc_mult acc_plus := by
  have hbit : (delta &&& 1).toNat = delta.toNat % 2 := by
    rw [BitVec.toNat_and]; exact Nat.and_one_is_mod _
  by_cases hodd : delta &&& 1 = 0
  · rw [← hbit, hodd, accumulate, if_neg (not_not_intro hodd)]; rfl
  · have h1 : delta.toNat % 2 = 1 := by
      have hne : (delta &&& 1).toNat ≠ 0 := fun h => hodd (BitVec.eq_of_toNat_eq h)
      omega
    rw [h1, accumulate, if_pos hodd, iterate_one, Affine.step_comp, mul_comm cur_mult, mul_comm cur_mult]

/-- **Loop invariant**: what is still to do, `delta` times the current map, after what is accumulated. -/
theorem step_accLoop (delta acc_mult acc_plus cur_mult cur_plus : BitVec 64) :
    Affine.step (accLoop delta acc_mult acc_plus cur_mult cur_plus).1
        (accLoop delta acc_mult acc_plus cur_mult cur_plus).2 =
      (Affine.step cur_mult cur_plus)^[delta.toNat] ∘ Affine.step acc_mult acc_plus := by
  induction delta, acc_mult, acc_plus, cur_mult, cur_plus using accLoop.induct with
  | case1 delta acc_mult acc_plus cur_mult cur_plus hpos acc ih =>
    have hdiv : (delta / 2).toNat = delta.toNat / 2 := BitVec.toNat_udiv
    have hdouble : ∀ n, (Affine.step (cur_mult * cur_mult) ((cur_mult + 1) * cur_plus))^[n] =
        (Affine.step cur_mult cur_plus)^[2 * n] := by
      intro n
      rw [← Affine.step_comp_self, iterate_mul]; rfl
    rw [accLoop, if_pos hpos]
    refine ih.trans ?_
    rw [step_accumulate, hdouble, hdiv, ← comp_assoc, ← iterate_add, Nat.div_add_mod]
  | case2 delta acc_mult acc_plus cur_mult cur_plus hpos =>
    have h0 : delta.toNat = 0 := Nat.le_zero.1 (not_lt.1 hpos)
    rw [accLoop, if_neg hpos, h0]; rfl

/-- The coefficients are those of `delta` steps. -/
theorem step_calculateAccValue (delta cur_mult cur_plus : BitVec 64) :
    Affine.step (calculateAccValue delta cur_mult cur_plus).1 (calculateAccValue delta cur_mult cur_plus).2 =
      (Affine.step cur_mult cur_plus)^[delta.toNat] := by
  rw [calculateAccValue, step_accLoop, Affine.step_one_zero, comp_id]

theorem pcgAdvanceLcg64_eq (state delta cur_mult cur_plus : BitVec 64) :
    pcgAdvanceLcg64 state delta cur_mult cur_plus = (Affine.step cur_mult cur_plus)^[delta.toNat] state :=
  congrFun (step_calculateAccValue delta cur_mult cur_plus) state

/-- The constants of the hardware lanes, which step nine root states at a time, are what the loop finds for nine. -/
theorem step_calculateAccValue_nine :
    Affine.step (calculateAccValue 9 RNG_A RNG_INC).1 (calculateAccValue 9 RNG_A RNG_INC).2 =
      Affine.step RNG_A_SEEKED RNG_INC_SEEKED := by
  rw [step_calculateAccValue, ← stateTransitionFunciton_eq]
  funext s
  rw [Affine.step, mul_comm, Rsgu.seeked_eq_iterate]; rfl

/-! ## The generators that step by a stride -/

def PCG_DEFAULT_MULTIPLIER_64 : BitVec 64 := 6364136223846793005

def SEEK_NUM : BitVec 64 := 9

structure Pcg32Random where
  state : BitVec 64
  inc : BitVec 64

def pcg32RandomR (rng : Pcg32Random) : Rng32 × Pcg32Random :=
  let oldstate := rng.state
  (outputFunction oldstate, { rng with state := oldstate * PCG_DEFAULT_MULTIPLIER_64 + rng.inc })

def pcg32RandomRSeek (m inc : BitVec 64) (rng : Pcg32Random) : Rng32 × Pcg32Random :=
  let oldstate := rng.state
  (outputFunction oldstate, { rng with state := oldstate * m + inc })

/-- Its `m` and `inc` are not used. -/
def pcg32RandomRInnerSeek (_m _inc : BitVec 64) (rng : Pcg32Random) : Rng32 × Pcg32Random :=
  let oldstate := rng.state
  (outputFunction oldstate,
    { rng with state := pcgAdvanceLcg64 oldstate SEEK_NUM PCG_DEFAULT_MULTIPLIER_64 rng.inc })

/-- The generator after `n` calls of `next`, and the output of the call that follows (calls from 0). -/
def after (next : Pcg32Random → Rng32 × Pcg32Random) (n : ℕ) (rng : Pcg32Random) : Pcg32Random :=
  (fun rng => (next rng).2)^[n] rng

def output (next : Pcg32Random → Rng32 × Pcg32Random) (n : ℕ) (rng : Pcg32Random) : Rng32 :=
  (next (after next n rng)).1

/-- A generator whose next state is an affine map of the state, with coefficients that stay. -/
theorem after_eq {next : Pcg32Random → Rng32 × Pcg32Random} {m c inc : BitVec 64}
    (hnext : ∀ state, (next ⟨state, inc⟩).2 = ⟨Affine.step m c state, inc⟩) (n : ℕ) (state : BitVec 64) :
    after next n ⟨state, inc⟩ = ⟨(Affine.step m c)^[n] state, inc⟩ := by
  induction n with
  | zero => rfl
  | succ n ih => rw [after, iterate_succ_apply', ← after, ih, hnext, iterate_succ_apply']

/-- All three output from the state they find. -/
theorem output_eq {next : Pcg32Random → Rng32 × Pcg32Random} (hnext : ∀ rng, (next rng).1 = outputFunction rng.state)
    (n : ℕ) (rng : Pcg32Random) : output next n rng = outputFunction (after next n rng).state :=
  hnext _

theorem after_pcg32RandomR (n : ℕ) (rng : Pcg32Random) :
    after pcg32RandomR n rng = ⟨(Affine.step PCG_DEFAULT_MULTIPLIER_64 rng.inc)^[n] rng.state, rng.inc⟩ := by
  refine after_eq (fun state => ?_) n rng.state
  simp only [pcg32RandomR, Affine.step, mul_comm]

theorem after_pcg32RandomRSeek (m inc : BitVec 64) (n : ℕ) (rng : Pcg32Random) :
    after (pcg32RandomRSeek m inc) n rng = ⟨(Affine.step m inc)^[n] rng.state, rng.inc⟩ := by
  refine after_eq (fun state => ?_) n rng.state
  simp only [pcg32RandomRSeek, Affine.step, mul_comm]

theorem after_pcg32RandomRInnerSeek (m inc : BitVec 64) (n : ℕ) (rng : Pcg32Random) :
    after (pcg32RandomRInnerSeek m inc) n rng =
      ⟨((Affine.step PCG_DEFAULT_MULTIPLIER_64 rng.inc)^[SEEK_NUM.toNat])^[n] rng.state, rng.inc⟩ := by
  rw [← step_calculateAccValue]
  refine after_eq (fun state => ?_) n rng.state
  rw [step_calculateAccValue, ← pcgAdvanceLcg64_eq]; rfl

/-- **Seek coefficients**: the pair that `calculate_acc_value` returns is the map of `delta` steps, the one that
    `pcg_advance_lcg_64` applies. Hence stepping by it reads every `D`-th output of the plain generator, and with
    `SEEK_NUM` it never differs from advancing inside the call. -/
theorem seekCoefficients :
    (∀ delta cur_mult cur_plus state : BitVec 64,
      (calculateAccValue delta cur_mult cur_plus).1 * state + (calculateAccValue delta cur_mult cur_plus).2 =
          (fun x => cur_mult * x + cur_plus)^[delta.toNat] state ∧
        (calculateAccValue delta cur_mult cur_plus).1 * state + (calculateAccValue delta cur_mult cur_plus).2 =
          pcgAdvanceLcg64 state delta cur_mult cur_plus) ∧
    (∀ (D : BitVec 64) (i J : ℕ) (rng : Pcg32Random),
      let c := calculateAccValue D PCG_DEFAULT_MULTIPLIER_64 rng.inc
      output (pcg32RandomRSeek c.1 c.2) i (after pcg32RandomR J rng) = output pcg32RandomR (i * D.toNat + J) rng) ∧
    (∀ (m inc : BitVec 64) (n : ℕ) (rng : Pcg32Random),
      let c := calculateAccValue SEEK_NUM PCG_DEFAULT_MULTIPLIER_64 rng.inc
      after (pcg32RandomRSeek c.1 c.2) n rng = after (pcg32RandomRInnerSeek m inc) n rng ∧
        output (pcg32RandomRSeek c.1 c.2) n rng = output (pcg32RandomRInnerSeek m inc) n rng) := by
  refine ⟨?_, ?_, ?_⟩
  · intro delta cur_mult cur_plus state
    exact ⟨congrFun (step_calculateAccValue delta cur_mult cur_plus) state, rfl⟩
  · intro D i J rng c
    have hstate : after (pcg32RandomRSeek c.1 c.2) i (after pcg32RandomR J rng) =
        after pcg32RandomR (i * D.toNat + J) rng := by
      rw [after_pcg32RandomRSeek, after_pcg32RandomR, after_pcg32RandomR, step_calculateAccValue,
        ← iterate_mul, ← iterate_add_apply, Nat.mul_comm D.toNat i]
    rw [output_eq (fun _ => rfl), hstate, output_eq (fun _ => rfl)]
  · intro m inc n rng c
    have hstate : after (pcg32RandomRSeek c.1 c.2) n rng = after (pcg32RandomRInnerSeek m inc) n rng := by
      rw [after_pcg32RandomRSeek, after_pcg32RandomRInnerSeek, step_calculateAccValue]
    refine ⟨hstate, ?_⟩
    rw [output_eq (fun _ => rfl), hstate, output_eq (fun _ => rfl)]

/-! ## Strides add up -/

theorem pcgAdvanceLcg64_add {cur_mult : BitVec 64} (hodd : cur_mult.toNat % 2 = 1) (cur_plus d1 d2 state : BitVec 64) :
    pcgAdvanceLcg64 (pcgAdvanceLcg64 state d1 cur_mult cur_plus) d2 cur_mult cur_plus =
      pcgAdvanceLcg64 state (d1 + d2) cur_mult cur_plus := by
  rw [pcgAdvanceLcg64_eq, pcgAdvanceLcg64_eq, pcgAdvanceLcg64_eq, ← iterate_add_apply, BitVec.toNat_add,
    Affine.iterate_mod_two_pow hodd, Nat.add_comm]

theorem pcgAdvanceLcg64_zero (state cur_mult cur_plus : BitVec 64) :
    pcgAdvanceLcg64 state 0 cur_mult cur_plus = state := by
  rw [pcgAdvanceLcg64_eq]; rfl

/-- **Strides compose modulo `2^64`** for every odd multiplier, so `-delta` steps go back: "the long way round"
    (`:14-15`). -/
theorem stridesCompose (cur_mult cur_plus : BitVec 64) (hodd : cur_mult.toNat % 2 = 1) :
    (∀ d1 d2 state : BitVec 64,
      pcgAdvanceLcg64 (pcgAdvanceLcg64 state d1 cur_mult cur_plus) d2 cur_mult cur_plus =
        pcgAdvanceLcg64 state (d1 + d2) cur_mult cur_plus) ∧
    (∀ d1 d2 state : BitVec 64,
      let c1 := calculateAccValue d1 cur_mult cur_plus
      let c2 := calculateAccValue d2 cur_mult cur_plus
      let c := calculateAccValue (d1 + d2) cur_mult cur_plus
      c2.1 * (c1.1 * state + c1.2) + c2.2 = c.1 * state + c.2) ∧
    (∀ d state : BitVec 64,
      pcgAdvanceLcg64 (pcgAdvanceLcg64 state d cur_mult cur_plus) (-d) cur_mult cur_plus = state ∧
        let c := calculateAccValue d cur_mult cur_plus
        let back := calculateAccValue (-d) cur_mult cur_plus
        back.1 * (c.1 * state + c.2) + back.2 = state) := by
  have hback : ∀ d state : BitVec 64,
      pcgAdvanceLcg64 (pcgAdvanceLcg64 state d cur_mult cur_plus) (-d) cur_mult cur_plus = state := by
    intro d state
    rw [pcgAdvanceLcg64_add hodd, add_neg_cancel, pcgAdvanceLcg64_zero]
  -- both functions run one loop, so what holds of the one holds of the other's coefficients
  exact ⟨pcgAdvanceLcg64_add hodd cur_plus, pcgAdvanceLcg64_add hodd cur_plus, fun d state =>
    ⟨hback d state, hback d state⟩⟩

theorem stridesCompose_pcg :
    pcgAdvanceLcg64 (pcgAdvanceLcg64 42 9 PCG_DEFAULT_MULTIPLIER_64 109) (-9) PCG_DEFAULT_MULTIPLIER_64 109 = 42 :=
  ((stridesCompose PCG_DEFAULT_MULTIPLIER_64 109 (by decide)).2.2 9 42).1

end ThundeRiNG.Lcg
