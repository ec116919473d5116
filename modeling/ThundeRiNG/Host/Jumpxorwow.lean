import Mathlib.Data.Fin.VecNotation
import Mathlib.Tactic.FinCases
import ThundeRiNG.Lib.Generator
import ThundeRiNG.Lib.XorSum
import ThundeRiNG.Rng.Functions

/-!
# Skip-ahead tables of xorwow (`test/lcg_jumpahead/jumpxorwow.cpp`, `test/rngs/xorwow.h`)

The program prints matrices that take the five xorshift words of a state so many steps further: entry `k` of a table
`4 ^ k` steps (`2 ^ k` in the tables for the device), and in the tables for sequences `2 ^ 67` times as many. Here
every entry is shown to do so on every state, of this generator and of the one in `xorwow.h` that is tested.

A matrix is its 160 rows of five words; row `(i, j)` is where bit `j` of word `i` goes, so `mat_vec` is the xor-linear
map with these values at the single bits, and `mat_mat` puts one map after the other.

| here | there |
| --- | --- |
| `xorwowNext`, `matVec`, `matMat`, `matIdentity`, `matPow` | `jumpxorwow.cpp:69-149` |
| `skipaheadOneStep`, `generateSkipaheadMatrices`           | `:152-203` |
| `XorwowState`, `xorwow`, `xorwowInit`                     | `xorwow.h:4-30`, `:66-76` |
-/

namespace ThundeRiNG.Xorwow

open Function Gf2

/-! ## One step -/

structure XorwowStates where
  x : Rng32
  y : Rng32
  z : Rng32
  w : Rng32
  v : Rng32
  d : Rng32

def xorwowNext (cur_state : XorwowStates) : Rng32 × XorwowStates :=
  let t := cur_state.x ^^^ (cur_state.x >>> 2)
  let v := (cur_state.v ^^^ (cur_state.v <<< 4)) ^^^ (t ^^^ (t <<< 1))
  let d := cur_state.d + 362437
  (d + v, ⟨cur_state.y, cur_state.z, cur_state.w, cur_state.v, v, d⟩)

/-- The words a pointer to `x` runs over, `XORWOW_DIM` of them. -/
abbrev Words := Fin 5 → Rng32

def XorwowStates.words (s : XorwowStates) : Words := ![s.x, s.y, s.z, s.w, s.v]

/-- What a step does to them. -/
def advance (u : Words) : Words :=
  let t := u 0 ^^^ (u 0 >>> 2)
  ![u 1, u 2, u 3, u 4, (u 4 ^^^ (u 4 <<< 4)) ^^^ (t ^^^ (t <<< 1))]

theorem words_xorwowNext (s : XorwowStates) : (xorwowNext s).2.words = advance s.words := rfl

theorem words_after (n : ℕ) (s : XorwowStates) : (Generator.after xorwowNext n s).words = advance^[n] s.words := by
  induction n with
  | zero => rfl
  | succ n ih => rw [Generator.after_add, iterate_succ_apply', ← ih]; exact words_xorwowNext _

theorem xorLinear_advance : XorLinear advance := by
  have hword : ∀ k : Fin 5, XorLinear fun u : Words => u k := xorLinear_proj
  have ht : XorLinear fun u : Words => u 0 ^^^ (u 0 >>> 2) := (hword 0).xor ((xorLinear_ushiftRight 2).comp (hword 0))
  refine XorLinear.pi fun i => ?_
  fin_cases i
  · exact hword 1
  · exact hword 2
  · exact hword 3
  · exact hword 4
  · exact ((hword 4).xor ((xorLinear_shiftLeft 4).comp (hword 4))).xor (ht.xor ((xorLinear_shiftLeft 1).comp ht))

/-! ## Matrices -/

/-- Row `i * XORWOW_BITS + j` of the flat array, as `(i, j)`. -/
abbrev Mat := Fin 5 → ℕ → Words

def matVec (matrix : Mat) (vector : Words) : Words :=
  (List.finRange 5).foldl (fun result i => (List.range 32).foldl (fun result j =>
    if vector i &&& ((1 : Rng32) <<< j) ≠ 0 then result ^^^ matrix i j else result) result) 0

/-- Every round of the loop replaces its own row of `matrixA`. -/
def matMat (matrixA matrixB : Mat) : Mat := fun i j => matVec matrixB (matrixA i j)

def matIdentity : Mat := fun i j k => if i = k then (1 : Rng32) <<< j else 0

/-- The `while` loop of `mat_pow`. -/
def powLoop (matrixP matrixA : Mat) (power : BitVec 64) : Mat :=
  if power ≠ 0 then
    powLoop (if power &&& 1 ≠ 0 then matMat matrixP matrixA else matrixP) (matMat matrixA matrixA) (power >>> 1)
  else matrixP
termination_by power.toNat
decreasing_by
  rename_i h
  have hpos : power.toNat ≠ 0 := fun h0 => h (BitVec.eq_of_toNat_eq h0)
  rw [BitVec.toNat_ushiftRight, Nat.shiftRight_eq_div_pow]; omega

def matPow (matrix : Mat) (power : BitVec 64) : Mat := powLoop matIdentity matrix power

/-- `d` of the state is 0, and is not copied. -/
def skipaheadOneStep : Mat := fun i j =>
  let p : Words := fun k => if i = k then (1 : Rng32) <<< j else 0
  (xorwowNext ⟨p 0, p 1, p 2, p 3, p 4, 0⟩).2.words

def XORWOW_SEQUENCE_JUMP_LOG2 : ℕ := 67

/-- `XORWOW_PRECALC_MATRICES_NUM` and `…_NUM_DEV`. -/
def matricesNum (is_device : Bool) : ℕ := if is_device then 64 else 32

/-- `XORWOW_JUMP_LOG2` and `…_LOG2_DEV`. -/
def jumpLog2 (is_device : Bool) : ℕ := if is_device then 1 else 2

/-- The table; its entry 0 is one step, or `2 ^ 67`. -/
def generateSkipaheadMatrices (is_skip_seq is_device : Bool) (k : Fin (matricesNum is_device)) : Mat :=
  let matrixA := skipaheadOneStep
  let matrixA := if is_skip_seq then
      let matrixB := matPow matrixA ((1 : BitVec 64) <<< (XORWOW_SEQUENCE_JUMP_LOG2 / 2))
      matPow matrixB ((1 : BitVec 64) <<< (XORWOW_SEQUENCE_JUMP_LOG2 - XORWOW_SEQUENCE_JUMP_LOG2 / 2))
    else matrixA
  (matPow · ((1 : BitVec 64) <<< jumpLog2 is_device))^[k] matrixA

/-! ## Matrices as maps -/

/-- The rows are the values of `f` at the single bits. -/
def RowsOf (m : Mat) (f : Words → Words) : Prop :=
  ∀ i, ∀ j < 32, m i j = f (only i (BitVec.twoPow 32 j))

theorem only_eq_row (i : Fin 5) (j : ℕ) :
    (fun k => if i = k then (1 : Rng32) <<< j else 0) = only i (BitVec.twoPow 32 j) := by
  rw [BitVec.twoPow_eq]; rfl

theorem matVec_of_rows {m : Mat} {f : Words → Words} (hf : XorLinear f) (hm : RowsOf m f) (v : Words) :
    matVec m v = f v := by
  have hrow : ∀ (r : Words) (i : Fin 5), (List.range 32).foldl (fun r j =>
        if v i &&& ((1 : Rng32) <<< j) ≠ 0 then r ^^^ m i j else r) r =
      (List.range 32).foldl (fun r j => if (v i).getLsbD j then r ^^^ f (only i (BitVec.twoPow 32 j)) else r) r := by
    intro r i
    refine List.foldl_ext _ _ _ fun r j hj => ?_
    have hj := List.mem_range.1 hj
    rw [hm i j hj]
    exact if_congr (Gf2.and_one_shiftLeft_ne_zero _ j) rfl rfl
  simp only [matVec, hrow]
  rw [foldl_rows hf, zero_xor]

theorem rowsOf_matIdentity : RowsOf matIdentity id := fun i j _ => only_eq_row i j

theorem rowsOf_matMat {A B : Mat} {f g : Words → Words} (hg : XorLinear g) (hA : RowsOf A f) (hB : RowsOf B g) :
    RowsOf (matMat A B) (g ∘ f) := fun i j hj => by
  rw [matMat, matVec_of_rows hg hB, hA i j hj]; rfl

/-- **Loop invariant**: what is done, and `power` times the current matrix still to do. -/
theorem rowsOf_powLoop {P A : Mat} {f g : Words → Words} (hg : XorLinear g) (hP : RowsOf P f) (hA : RowsOf A g)
    (power : BitVec 64) : RowsOf (powLoop P A power) (g^[power.toNat] ∘ f) := by
  induction P, A, power using powLoop.induct generalizing f g with
  | case1 P A power h ih =>
    have hhalf : (power >>> 1).toNat = power.toNat / 2 := by
      rw [BitVec.toNat_ushiftRight, Nat.shiftRight_eq_div_pow, pow_one]
    have hbit : (power &&& 1).toNat = power.toNat % 2 := by
      rw [BitVec.toNat_and]; exact Nat.and_one_is_mod _
    have hsquare : RowsOf (matMat A A) g^[2] := rowsOf_matMat hg hA hA
    have hacc : RowsOf (if power &&& 1 ≠ 0 then matMat P A else P) (g^[power.toNat % 2] ∘ f) := by
      split
      · rename_i hodd
        have h1 : power.toNat % 2 = 1 := by
          have hne : (power &&& 1).toNat ≠ 0 := fun h0 => hodd (BitVec.eq_of_toNat_eq h0)
          omega
        rw [h1]
        exact rowsOf_matMat hg hP hA
      · rename_i heven
        rw [← hbit, not_not.1 heven]
        exact hP
    rw [powLoop, if_pos h]
    have hrest := ih (hg.iterate 2) hacc hsquare
    rwa [hhalf, ← iterate_mul, ← comp_assoc, ← iterate_add, Nat.div_add_mod] at hrest
  | case2 P A power h =>
    rw [powLoop, if_neg h, not_not.1 h]
    exact hP

theorem rowsOf_matPow {A : Mat} {g : Words → Words} (hg : XorLinear g) (hA : RowsOf A g) (power : BitVec 64) :
    RowsOf (matPow A power) g^[power.toNat] :=
  rowsOf_powLoop hg rowsOf_matIdentity hA power

/-! ## The tables -/

theorem rowsOf_skipaheadOneStep : RowsOf skipaheadOneStep advance := fun i j _ => by
  rw [← only_eq_row]
  exact words_xorwowNext _

/-- Powers of the step. -/
theorem rowsOf_pow {m : Mat} {n e : ℕ} (h : RowsOf m advance^[n]) (he : e < 64) :
    RowsOf (matPow m ((1 : BitVec 64) <<< e)) advance^[n * 2 ^ e] := by
  have hto : ((1 : BitVec 64) <<< e).toNat = 2 ^ e := by
    rw [BitVec.toNat_shiftLeft, Nat.shiftLeft_eq, show (1 : BitVec 64).toNat = 1 from rfl, Nat.one_mul]
    exact Nat.mod_eq_of_lt (Nat.pow_lt_pow_right (by omega) he)
  have hpow := rowsOf_matPow (xorLinear_advance.iterate n) h ((1 : BitVec 64) <<< e)
  rwa [hto, ← iterate_mul] at hpow

/-- How many steps entry `k` of a table is. -/
def jumpSteps (is_skip_seq is_device : Bool) (k : ℕ) : ℕ :=
  (if is_skip_seq then 2 ^ XORWOW_SEQUENCE_JUMP_LOG2 else 1) * (2 ^ jumpLog2 is_device) ^ k

theorem rowsOf_generateSkipaheadMatrices (is_skip_seq is_device : Bool) (k : Fin (matricesNum is_device)) :
    RowsOf (generateSkipaheadMatrices is_skip_seq is_device k) advance^[jumpSteps is_skip_seq is_device k] := by
  have hone : RowsOf skipaheadOneStep advance^[1] := rowsOf_skipaheadOneStep
  have hseq : RowsOf (matPow (matPow skipaheadOneStep ((1 : BitVec 64) <<< 33)) ((1 : BitVec 64) <<< 34))
      advance^[2 ^ 67] := by
    have h := rowsOf_pow (rowsOf_pow hone (e := 33) (by omega)) (e := 34) (by omega)
    rwa [Nat.one_mul, ← Nat.pow_add] at h
  have hbase : RowsOf (if is_skip_seq then
        matPow (matPow skipaheadOneStep ((1 : BitVec 64) <<< 33)) ((1 : BitVec 64) <<< 34) else skipaheadOneStep)
      advance^[if is_skip_seq then 2 ^ 67 else 1] := by
    cases is_skip_seq
    · exact hone
    · exact hseq
  have hiter : ∀ (k : ℕ) (m : Mat) (n : ℕ), RowsOf m advance^[n] →
      RowsOf ((matPow · ((1 : BitVec 64) <<< jumpLog2 is_device))^[k] m) advance^[n * (2 ^ jumpLog2 is_device) ^ k] := by
    intro k
    induction k with
    | zero => intro m n h; rwa [pow_zero, Nat.mul_one]
    | succ k ih =>
      intro m n h
      rw [iterate_succ_apply, pow_succ', ← Nat.mul_assoc]
      exact ih _ _ (rowsOf_pow h (by cases is_device <;> decide))
  exact hiter k _ _ hbase

/-! ## The generator that is tested -/

structure XorwowState where
  a : Rng32
  b : Rng32
  c : Rng32
  d : Rng32
  e : Rng32
  counter : Rng32

def xorwow (i : BitVec 32) (state : XorwowState) : Rng32 × XorwowState :=
  let t := state.e
  let s := state.a
  let t := t ^^^ (t >>> 2)
  let t := t ^^^ (t <<< 1)
  let t := t ^^^ (s ^^^ (s <<< 4))
  let counter := state.counter + 362437 * ((i <<< 2) ||| 1)
  (t + counter, ⟨t, s, state.b, state.c, state.d, counter⟩)

/-- Oldest word first, as above. -/
def XorwowState.words (s : XorwowState) : Words := ![s.e, s.d, s.c, s.b, s.a]

theorem words_xorwow (i : BitVec 32) (s : XorwowState) : (xorwow i s).2.words = advance s.words := by
  refine congrArg (![s.d, s.c, s.b, s.a, ·]) ?_
  exact BitVec.xor_comm _ _

theorem words_after_xorwow (i : BitVec 32) (n : ℕ) (s : XorwowState) :
    (Generator.after (xorwow i) n s).words = advance^[n] s.words := by
  induction n with
  | zero => rfl
  | succ n ih => rw [Generator.after_add, iterate_succ_apply', ← ih]; exact words_xorwow i _

/-- **Every entry of every table skips as far as it should**, on every state of either generator. -/
theorem skipahead (is_skip_seq is_device : Bool) (k : Fin (matricesNum is_device)) :
    (∀ s : XorwowStates, matVec (generateSkipaheadMatrices is_skip_seq is_device k) s.words =
      (Generator.after xorwowNext (jumpSteps is_skip_seq is_device k) s).words) ∧
    ∀ (i : BitVec 32) (s : XorwowState), matVec (generateSkipaheadMatrices is_skip_seq is_device k) s.words =
      (Generator.after (xorwow i) (jumpSteps is_skip_seq is_device k) s).words := by
  have hact := matVec_of_rows (xorLinear_advance.iterate _) (rowsOf_generateSkipaheadMatrices is_skip_seq is_device k)
  exact ⟨fun s => by rw [hact, words_after], fun i s => by rw [hact, words_after_xorwow]⟩

/-! ## Never the zero state -/

/-- `xorwow_init`, with what `single_pcg()` returned and the counter as it was. -/
def xorwowInit (single_pcg counter : Rng32) : XorwowState :=
  let co_index := single_pcg / 10000
  ⟨co_index ||| 1, (co_index / 3) ||| 1, co_index, (co_index / 7) * 2, co_index * 2, counter⟩

theorem eq_zero_of_xor_ushiftRight {w k : ℕ} (hk : 0 < k) {x : BitVec w} (h : x ^^^ (x >>> k) = 0) : x = 0 := by
  have hbit : ∀ n b, w ≤ b + n → x.getLsbD b = false := by
    intro n
    induction n with
    | zero => intro b hb; exact BitVec.getLsbD_of_ge x b hb
    | succ n ih =>
      intro b hb
      have hx := congrArg (·.getLsbD b) h
      simpa [ih (k + b) (by omega)] using hx
  exact BitVec.eq_of_getLsbD_eq fun b hb => by rw [hbit w b (by omega)]; simp

theorem eq_zero_of_advance {u : Words} (h : advance u = 0) : u = 0 := by
  have h1 : u 1 = 0 := congrFun h 0
  have h2 : u 2 = 0 := congrFun h 1
  have h3 : u 3 = 0 := congrFun h 2
  have h4 : u 4 = 0 := congrFun h 3
  have ht : (u 4 ^^^ (u 4 <<< 4)) ^^^ (u 0 ^^^ (u 0 >>> 2) ^^^ ((u 0 ^^^ (u 0 >>> 2)) <<< 1)) = 0 := congrFun h 4
  rw [h4, show (0 : Rng32) ^^^ ((0 : Rng32) <<< 4) = 0 by decide, zero_xor] at ht
  have h0 := eq_zero_of_xor_ushiftRight (by omega) (eq_zero_of_xor_shiftLeft (by omega) ht)
  funext k
  fin_cases k <;> assumption

/-- **No dead state**: from `xorwow_init`, whatever seeds it, no run reaches the all-zero words, which would stay. -/
theorem xorwow_nonzero (i : BitVec 32) (single_pcg counter : Rng32) (n : ℕ) :
    (Generator.after (xorwow i) n (xorwowInit single_pcg counter)).words ≠ 0 := by
  rw [words_after_xorwow]
  induction n with
  | zero =>
    intro h
    have ha : (single_pcg / 10000) ||| 1 = 0 := congrFun h 4
    have hbit := congrArg (·.getLsbD 0) ha
    simp at hbit
  | succ n ih =>
    rw [iterate_succ_apply']
    exact fun h => ih (eq_zero_of_advance h)

end ThundeRiNG.Xorwow
