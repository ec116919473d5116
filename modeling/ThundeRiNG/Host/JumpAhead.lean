import ThundeRiNG.Host.Xorshift128Matrix
import ThundeRiNG.Host.Xorshift128Period

/-!
# Jump-ahead in both directions (`xorshift128.h:22-53`, `:274-351`)

`prepare_transition` leaves a power of `T` in `T_k`, so `do_transition` is that many steps
(`doTransition_of_toMat`). Forwards the exponent is `k`. Backwards it is `(2^128 - 2) * k`: the loop of
`calculate_bwd_transition_matrix` multiplies `T^2, T^4, …, T^(2^127)`, and `2^128 - 2` steps undo one step
because `2^128 - 1` steps are the identity.
-/

namespace ThundeRiNG.Xorshift128

open Function

theorem doTransition_of_toMat {A : Tr} {n : ℕ} (h : toMat A = toMat T ^ n) (s : State) :
    doTransition s A = stepForward^[n] s := by
  apply toVec_injective
  rw [toVec_doTransition, toVec_iterate, h]

/-! ## Forwards -/

theorem toMat_prepareTransition_fwd (T_k : Tr) (k : BitVec 64) (junk : ℕ → Tr) (st : Statics) :
    toMat (prepareTransition T_k k .FWD junk st).1 = toMat T ^ k.toNat := by
  unfold prepareTransition
  exact toMat_matPow (by decide) k junk _

/-- **Forward jump**: whatever `T_k`, the statics and the locals held before. -/
theorem forwardJump (T_k : Tr) (k : BitVec 64) (junk : ℕ → Tr) (st : Statics) (s : State) :
    doTransition s (prepareTransition T_k k .FWD junk st).1 = stepForward^[k.toNat] s :=
  doTransition_of_toMat (toMat_prepareTransition_fwd T_k k junk st) s

/-! ## One step back -/

/-- The first ladder of `step_backward`. -/
def undoRight8 (tt : Word) : Word :=
  let t_3 := tt &&& 0xFF000000
  let t_2 := (tt &&& 0x00FF0000) ^^^ (t_3 >>> 8)
  let t_1 := (tt &&& 0x0000FF00) ^^^ (t_2 >>> 8)
  let t_0 := (tt &&& 0x000000FF) ^^^ (t_1 >>> 8)
  t_3 ||| t_2 ||| t_1 ||| t_0

/-- The second ladder. -/
def undoLeft11 (t : Word) : Word :=
  let x_10_00 := t &&& 0x000007FF
  let x_21_11 := (t &&& 0x003FF800) ^^^ (x_10_00 <<< 11)
  let x_31_22 := (t &&& 0xFFC00000) ^^^ (x_21_11 <<< 11)
  x_31_22 ||| x_21_11 ||| x_10_00

theorem stepBackward_eq (s : State) :
    stepBackward s = ⟨undoLeft11 (undoRight8 (s.w ^^^ (s.z ^^^ (s.z >>> 19)))), s.x, s.y, s.z⟩ := rfl

theorem undoRight8_xor (t : Word) : undoRight8 (t ^^^ (t >>> 8)) = t := by
  unfold undoRight8
  ext i hi
  interval_cases i <;> simp

theorem undoLeft11_xor (x : Word) : undoLeft11 (x ^^^ (x <<< 11)) = x := by
  unfold undoLeft11
  ext i hi
  interval_cases i <;> simp

theorem stepBackward_stepForward (s : State) : stepBackward (stepForward s) = s := by
  obtain ⟨x, y, z, w⟩ := s
  have htt : ∀ a b : Word, a ^^^ b ^^^ a = b := by
    intro a b
    rw [BitVec.xor_comm a b]
    exact xor_cancel_right b a
  rw [stepBackward_eq]
  simp only [stepForward, htt, undoRight8_xor, undoLeft11_xor]

theorem stepForward_stepBackward (s : State) : stepForward (stepBackward s) = s := by
  have hinj : Injective stepForward := LeftInverse.injective stepBackward_stepForward
  obtain ⟨s, rfl⟩ := Finite.surjective_of_injective hinj s
  rw [stepBackward_stepForward]

theorem iterate_stepBackward_stepForward (k : ℕ) (s : State) : stepBackward^[k] (stepForward^[k] s) = s :=
  LeftInverse.iterate stepBackward_stepForward k s

/-- One step short of the period is one step back. -/
theorem iterate_eq_stepBackward {N : ℕ} (hN : ∀ s, stepForward^[N + 1] s = s) : stepForward^[N] = stepBackward := by
  funext s
  conv_rhs => rw [← hN s]
  rw [iterate_succ_apply', stepBackward_stepForward]

/-! ## Backwards -/

section
variable {L : Type} [DecidableEq L] {invT : L} (junk : ℕ → Tr)

/-- Before pass `i` the local holds `M^(2^i)` and the output `M^(2^i - 2)`. -/
theorem toMat_bwdLoop {M : Matrix (Fin 128) (Fin 128) (ZMod 2)} {m : Mem (Option L)} (htmp : toMat (m none) = M)
    (hinv : toMat (m (some invT)) = 1) (n : ℕ) :
    toMat ((List.range n).foldl (bwdStep invT junk) m none) = M ^ 2 ^ n ∧
      toMat ((List.range n).foldl (bwdStep invT junk) m (some invT)) = M ^ (2 ^ n - 2) := by
  induction n with
  | zero => simp [htmp, hinv]
  | succ n ih =>
    obtain ⟨ih1, ih2⟩ := ih
    rw [List.range_succ, List.foldl_append, List.foldl_cons, List.foldl_nil]
    generalize (List.range n).foldl (bwdStep invT junk) m = m' at ih1 ih2 ⊢
    have hne : (none : Option L) ≠ some invT := (Option.some_ne_none invT).symm
    unfold bwdStep
    rw [toMat_matMul, matMul_other hne.symm]
    by_cases hn : 0 < n
    · have htwo : 2 ≤ 2 ^ n := Nat.le_self_pow (by omega) 2
      have hexp : 2 ^ (n + 1) - 2 = 2 ^ n + (2 ^ n - 2) := by rw [pow_succ]; omega
      simp only [if_pos hn]
      rw [matMul_other hne, toMat_matMul, ih1, ih2, ← pow_add, ← pow_add, hexp, pow_succ, mul_two]
      exact ⟨rfl, rfl⟩
    · obtain rfl : n = 0 := by omega
      simp only [if_neg hn]
      rw [ih1, ih2, ← pow_add]
      simp

theorem toMat_calculateBwd {T : L} (h : T ≠ invT) (m : Mem L) :
    toMat (calculateBwdTransitionMatrix invT T junk m invT) = toMat (m T) ^ (2 ^ 128 - 2) := by
  have hne : (none : Option L) ≠ some invT := (Option.some_ne_none invT).symm
  have hT : some T ≠ some invT := fun e => h (Option.some.inj e)
  unfold calculateBwdTransitionMatrix
  refine (toMat_bwdLoop junk ?_ (toMat_copyAndIdentity_out hne _) 128).2
  rw [copyAndIdentity_tmp hne (Option.some_ne_none T) hT]
  rfl

end

/-- The number of steps that make one step back. -/
def bwdSteps : ℕ := 2 ^ 128 - 2

theorem iterate_bwdSteps : stepForward^[bwdSteps] = stepBackward := by
  have hsucc : bwdSteps + 1 = 2 ^ 128 - 1 := by decide
  apply iterate_eq_stepBackward
  intro s
  rw [hsucc]
  exact iterate_stepForward_period s

/-- What the statics say once the flag is set. -/
def Statics.Ok (st : Statics) : Prop := st.invT_initialized = true → toMat st.invT = toMat T ^ bwdSteps

/-- A backward call builds the static matrix if needed, and leaves its power in `T_k`. -/
theorem prepareTransition_bwd {st : Statics} (h : st.Ok) (T_k : Tr) (k : BitVec 64) (junk : ℕ → Tr) :
    (prepareTransition T_k k .BWD junk st).2.Ok ∧
      toMat (prepareTransition T_k k .BWD junk st).1 = toMat T ^ (bwdSteps * k.toNat) := by
  obtain ⟨m, hm, hinv⟩ : ∃ m : Mem Loc, prepareTransition T_k k .BWD junk st =
      (matPow .T_k .invT k (fun i => junk (2 * i + 1)) m .T_k,
        ⟨true, matPow .T_k .invT k (fun i => junk (2 * i + 1)) m .invT⟩) ∧ toMat (m .invT) = toMat T ^ bwdSteps := by
    refine ⟨_, rfl, ?_⟩
    by_cases hi : st.invT_initialized
    · rw [if_pos hi]; exact h hi
    · rw [if_neg hi]; exact toMat_calculateBwd _ (by decide) _
  rw [hm]
  constructor
  · intro _
    show toMat (matPow _ _ _ _ _ _) = _
    rw [matPow_other (by decide), hinv]
  · show toMat (matPow _ _ _ _ _ _) = _
    rw [toMat_matPow (by decide), hinv, ← pow_mul]

theorem staticsAfter_ok (calls : List Call) : (staticsAfter calls).Ok := by
  have hstep : ∀ (st : Statics) (c : Call), st.Ok → (prepareTransition c.T_k c.k c.dir c.junk st).2.Ok := by
    intro st c h
    cases hd : c.dir with
    | FWD => exact h
    | BWD => exact (prepareTransition_bwd h c.T_k c.k c.junk).1
  exact Loops.foldl_inv (I := Statics.Ok) hstep calls fun h => absurd h (by decide)

theorem doTransition_bwd (calls : List Call) (T_k : Tr) (k : BitVec 64) (junk : ℕ → Tr) (s : State) :
    doTransition s (prepareTransition T_k k .BWD junk (staticsAfter calls)).1 = stepBackward^[k.toNat] s := by
  rw [doTransition_of_toMat (prepareTransition_bwd (staticsAfter_ok calls) T_k k junk).2, iterate_mul,
    iterate_bwdSteps]

/-- **Backward jump**: one step back undoes one step, `k` back is a `BWD` transition, and a `BWD` transition
    undoes a `FWD` one, whatever calls built the static matrix. -/
theorem backwardJump :
    (∀ s, stepBackward (stepForward s) = s ∧ stepForward (stepBackward s) = s) ∧
    (∀ (calls : List Call) (T_k : Tr) (k : BitVec 64) (junk : ℕ → Tr) (s : State),
      doTransition s (prepareTransition T_k k .BWD junk (staticsAfter calls)).1 = stepBackward^[k.toNat] s) ∧
    (∀ (calls calls' : List Call) (F B : Tr) (k : BitVec 64) (junk junk' : ℕ → Tr) (s : State),
      doTransition (doTransition s (prepareTransition F k .FWD junk (staticsAfter calls)).1)
        (prepareTransition B k .BWD junk' (staticsAfter calls')).1 = s) := by
  refine ⟨?_, doTransition_bwd, ?_⟩
  · intro s
    exact ⟨stepBackward_stepForward s, stepForward_stepBackward s⟩
  · intro calls calls' F B k junk junk' s
    rw [doTransition_bwd, doTransition_of_toMat (toMat_prepareTransition_fwd F k junk _)]
    exact iterate_stepBackward_stepForward k.toNat s

end ThundeRiNG.Xorshift128
