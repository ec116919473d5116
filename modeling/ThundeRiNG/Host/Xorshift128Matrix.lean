import Mathlib.Algebra.BigOperators.Intervals
import Mathlib.Data.Matrix.Mul
import Mathlib.Logic.Equiv.Fin.Basic
import ThundeRiNG.Host.Xorshift128
import ThundeRiNG.Lib.Loops

/-!
# The bit matrices of `xorshift128.h` are matrices over `ZMod 2`

`toMat` and `toVec` read an array of words and a state bit by bit. Every function of the file is then an
operation of linear algebra, whatever its locals start with and whichever of its arguments coincide:
`mat_mul` is the product (`toMat_matMul`), `mat_pow` the power (`toMat_matPow`), `do_transition` the action
on vectors (`toVec_doTransition`), and the literal `T` is the matrix of `step_forward` (`toVec_stepForward`).
-/

namespace ThundeRiNG.Xorshift128

open Loops WordDot

/-! ## Bits of matrices and states -/

def bitAt (A : Tr) (i j : Fin 128) : Bool := (A.word i (colNdx j)).getLsbD (colOfs j)

def State.bit (s : State) (i : Fin 128) : Bool := (s.get (colNdx i)).getLsbD (colOfs i)

def toMat (A : Tr) : Matrix (Fin 128) (Fin 128) (ZMod 2) := fun i j => toZ2 (bitAt A i j)

def toVec (s : State) : Fin 128 → ZMod 2 := fun i => toZ2 (s.bit i)

theorem colOfs_lt (j : Fin 128) : colOfs j < 32 := Nat.mod_lt _ (by omega)

theorem col_ext {i j : Fin 128} (h1 : colNdx i = colNdx j) (h2 : colOfs i = colOfs j) : i = j := by
  simp only [colNdx, colOfs, Fin.mk.injEq] at h1 h2
  omega

def boolWord (b : Bool) : Word := if b then 1 else 0

theorem getBit_eq (A : Tr) (i j : Fin 128) : getBit A i j = boolWord (bitAt A i j) := by
  unfold getBit bitAt boolWord
  ext k hk
  rcases k with _ | k
  · cases h : (A.word i (colNdx j)).getLsbD (colOfs j) <;> simp_all
  · split <;> simp [BitVec.getElem_one]

theorem boolWord_xor_and (v a b : Bool) :
    boolWord v ^^^ (boolWord a &&& boolWord b) = boolWord (v ^^ (a && b)) := by
  cases v <;> cases a <;> cases b <;> decide

/-- Writing one word of a matrix. -/
theorem cell_set (A : Tr) (i : Fin 128) (n : Fin 4) (v : Word) (i' : Fin 128) (n' : Fin 4) :
    (A.setWord i n v).word i' n' = if i = i' ∧ n = n' then v else A.word i' n' := by
  unfold Tr.setWord Tr.word
  by_cases hi : i = i'
  · subst hi
    by_cases hn : n = n'
    · subst hn; simp
    · simp [hn, Fin.val_ne_of_ne hn]
  · simp [hi, Fin.val_ne_of_ne hi]

/-- Masking out bit `o` and or-ing a bit back in. -/
theorem getLsbD_mask_or (x : Word) (b : Bool) {o o' : ℕ} (ho' : o' < 32) :
    ((x &&& ~~~((1 : Word) <<< o)) ||| (boolWord b <<< o)).getLsbD o' = if o = o' then b else x.getLsbD o' := by
  have hone : ∀ k, (1 : Word).getLsbD k = decide (k = 0) := fun k => by simp
  have hb : ∀ k, (boolWord b).getLsbD k = (b && decide (k = 0)) := fun k => by
    cases b <;> simp [boolWord]
  simp only [BitVec.getLsbD_or, BitVec.getLsbD_and, BitVec.getLsbD_not, BitVec.getLsbD_shiftLeft, hone, hb]
  rcases Nat.lt_trichotomy o o' with h | h | h
  · simp [ho', show ¬ o' < o by omega, show o' - o ≠ 0 by omega, show o ≠ o' by omega]
  · subst h; simp [ho']
  · simp [ho', h, show o ≠ o' by omega]

/-- `set_bit` of a bit changes that bit and no other. -/
theorem bitAt_setBit (A : Tr) (i j : Fin 128) (b : Bool) (i' j' : Fin 128) :
    bitAt (setBit A i j (boolWord b)) i' j' = if i = i' ∧ j = j' then b else bitAt A i' j' := by
  unfold bitAt setBit
  rw [cell_set]
  by_cases h : i = i' ∧ colNdx j = colNdx j'
  · have hj : j = j' ↔ colOfs j = colOfs j' := ⟨fun e => e ▸ rfl, col_ext h.2⟩
    rw [if_pos h, getLsbD_mask_or _ _ (colOfs_lt j')]
    simp only [h.1, h.2, hj, true_and]
  · have hne : ¬ (i = i' ∧ j = j') := fun e => h ⟨e.1, e.2 ▸ rfl⟩
    rw [if_neg h, if_neg hne]

/-! ## `mat_mul` -/

theorem matMulBit_eq (A B : Tr) (i j : Fin 128) :
    matMulBit A B i j = boolWord ((List.finRange 128).foldl (fun v k => v ^^ (bitAt A i k && bitAt B k j)) false) := by
  have h : ∀ (ks : List (Fin 128)) (v : Bool),
      ks.foldl (fun v k => v ^^^ (getBit A i k &&& getBit B k j)) (boolWord v) =
        boolWord (ks.foldl (fun v k => v ^^ (bitAt A i k && bitAt B k j)) v) := by
    intro ks
    induction ks with
    | nil => intro v; rfl
    | cons k ks ih => intro v; rw [List.foldl_cons, List.foldl_cons, getBit_eq, getBit_eq, boolWord_xor_and, ih]
  exact h _ false

/-- The product matrix, bit by bit. -/
theorem toZ2_matMulBit (A B : Tr) (i j : Fin 128) :
    ∃ b, matMulBit A B i j = boolWord b ∧ toZ2 b = (toMat A * toMat B) i j := by
  refine ⟨_, matMulBit_eq A B i j, ?_⟩
  rw [toZ2_foldl_xor_finRange, Matrix.mul_apply]
  exact Finset.sum_congr rfl fun k _ => toZ2_and _ _

/-- The loops that fill the local of `mat_mul`, from any first contents. -/
theorem toMat_fill (A B junk : Tr) :
    toMat ((List.finRange 128).foldl (fun T i =>
      (List.finRange 128).foldl (fun T j => setBit T i j (matMulBit A B i j)) T) junk) = toMat A * toMat B := by
  choose b hb hsum using toZ2_matMulBit A B
  have hrow : ∀ (T : Tr) (i i' : Fin 128),
      bitAt ((List.finRange 128).foldl (fun T j => setBit T i j (matMulBit A B i j)) T) i' =
        if i = i' then b i else bitAt T i' := by
    intro T i i'
    by_cases hi : i = i'
    · subst hi
      rw [if_pos rfl]
      funext j'
      refine get_foldl_set_finRange (g := fun T j' => bitAt T i j') (fun T j j' => ?_) T j'
      simp only [hb, bitAt_setBit, true_and]
    · -- a row the inner loop does not write
      rw [if_neg hi]
      funext j'
      exact get_foldl_keep (g := fun S => bitAt S i' j')
        (fun S j => by rw [hb, bitAt_setBit, if_neg fun h => hi h.1]) _ T
  ext i j
  unfold toMat
  rw [get_foldl_set_finRange (g := bitAt) hrow junk i, hsum]
  rfl

theorem tr_ext {A B : Tr} (h : ∀ (i : Fin 128) (n : Fin 4), A.word i n = B.word i n) : A = B := by
  ext i hi n hn : 2
  exact h ⟨i, hi⟩ ⟨n, hn⟩

section
variable {L : Type} [DecidableEq L]

theorem write_same (m : Mem L) (l : L) (i : Fin 128) (j : Fin 4) (v : Word) (i' : Fin 128) (j' : Fin 4) :
    (m.write l i j v l).word i' j' = if i = i' ∧ j = j' then v else (m l).word i' j' := by
  rw [Mem.write, Mem.set, Function.update_self, cell_set]

theorem write_other (m : Mem L) {l l' : L} (h : l' ≠ l) (i : Fin 128) (j : Fin 4) (v : Word) :
    m.write l i j v l' = m l' := Function.update_of_ne h _ _

theorem set_same (m : Mem L) (l : L) (A : Tr) : m.set l A l = A := by
  unfold Mem.set; simp

theorem set_other (m : Mem L) {l l' : L} (h : l' ≠ l) (A : Tr) : m.set l A l' = m l' := by
  unfold Mem.set; simp [h]

/-- The copying loops at the end of `mat_mul`. -/
theorem copy_eq (C : L) (T : Tr) (m : Mem L) :
    (List.finRange 128).foldl (fun m i => (List.finRange 4).foldl (fun m j => m.write C i j (T.word i j)) m) m =
      m.set C T := by
  funext l
  by_cases hl : l = C
  · subst hl
    rw [set_same]
    have hrow : ∀ (m : Mem L) (i i' : Fin 128),
        (fun n : Fin 4 => ((List.finRange 4).foldl (fun m j => m.write l i j (T.word i j)) m l).word i' n) =
          if i = i' then fun n => T.word i n else fun n => (m l).word i' n := by
      intro m i i'
      by_cases hi : i = i'
      · subst hi
        rw [if_pos rfl]
        funext n
        refine get_foldl_set_finRange (g := fun (m : Mem L) n => (m l).word i n) (v := fun n => T.word i n)
          (fun m j n => ?_) m n
        rw [write_same]; simp only [true_and]
      · rw [if_neg hi]
        funext n
        exact get_foldl_keep (g := fun (m : Mem L) => (m l).word i' n)
          (fun m j => by rw [write_same, if_neg fun h => hi h.1]) _ m
    refine tr_ext fun i n => ?_
    exact congrFun (get_foldl_set_finRange (g := fun (m : Mem L) i => fun n : Fin 4 => (m l).word i n) hrow m i) n
  · rw [set_other m hl]
    refine get_foldl_keep (g := fun (m : Mem L) => m l) (fun m i => ?_) _ m
    exact get_foldl_keep (g := fun (m : Mem L) => m l) (fun m j => write_other m hl i j _) _ m

/-- **`mat_mul`** multiplies, also when `C` is `A` or `B`: both are read before `C` is written. -/
theorem toMat_matMul (C A B : L) (junk : Tr) (m : Mem L) :
    toMat (matMul C A B junk m C) = toMat (m A) * toMat (m B) := by
  unfold matMul
  rw [copy_eq, set_same, toMat_fill]

theorem matMul_other {C l : L} (h : l ≠ C) (A B : L) (junk : Tr) (m : Mem L) : matMul C A B junk m l = m l := by
  unfold matMul
  rw [copy_eq, set_other m h]

/-! ## `mat_pow` -/

section
variable {tmp out src : L}

/-- One word of `copyIdentityRow`'s inner loop. -/
theorem copyCell_src (ht : src ≠ tmp) (ho : src ≠ out) (m : Mem L) (i : Fin 128) (j : Fin 4) (v : Word) :
    ((m.write tmp i j v).write out i j 0) src = m src := by
  rw [write_other _ ho, write_other _ ht]

theorem copyIdentityRow_other {l : L} (ht : l ≠ tmp) (ho : l ≠ out) (m : Mem L) (i : Fin 128) :
    copyIdentityRow tmp out src m i l = m l := by
  unfold copyIdentityRow
  rw [set_other _ ho]
  exact get_foldl_keep (g := fun (m : Mem L) => m l) (fun m j => copyCell_src ht ho m i j _) _ m

theorem copyIdentityRow_tmp (hto : tmp ≠ out) (ht : src ≠ tmp) (ho : src ≠ out) (m : Mem L) (i i' : Fin 128)
    (n : Fin 4) :
    (copyIdentityRow tmp out src m i tmp).word i' n = if i = i' then (m src).word i n else (m tmp).word i' n := by
  unfold copyIdentityRow
  rw [set_other _ hto]
  by_cases hi : i = i'
  · subst hi
    rw [if_pos rfl]
    refine get_foldl_set_finRange_of (I := fun m' : Mem L => m' src = m src)
      (g := fun (m : Mem L) n => (m tmp).word i n) (v := fun n => (m src).word i n) ?_ ?_ rfl n
    · intro s j hs
      rw [copyCell_src ht ho, hs]
    · intro s j j' hs
      rw [write_other _ hto, write_same, hs]; simp only [true_and]
  · rw [if_neg hi]
    exact get_foldl_keep (g := fun (m : Mem L) => (m tmp).word i' n)
      (fun m j => by rw [write_other _ hto, write_same, if_neg fun h => hi h.1]) _ m

theorem copyIdentityRow_out (hto : tmp ≠ out) (m : Mem L) (i i' : Fin 128) :
    bitAt (copyIdentityRow tmp out src m i out) i' =
      if i = i' then fun j' => decide (i = j') else bitAt (m out) i' := by
  unfold copyIdentityRow
  rw [set_same]
  have hone : (1 : Word) = boolWord true := rfl
  funext j'
  rw [hone, bitAt_setBit]
  by_cases hi : i = i'
  · subst hi
    -- the inner loop has cleared the row
    have hrow : ∀ n : Fin 4, ((List.finRange 4).foldl
        (fun (m : Mem L) j => (m.write tmp i j ((m src).word i j)).write out i j 0) m out).word i n = 0 := by
      intro n
      refine get_foldl_set_finRange (g := fun (m : Mem L) n => (m out).word i n) (v := fun _ => 0) (fun m j n => ?_) m n
      rw [write_same, write_other _ hto.symm]; simp only [true_and]
    rw [if_pos rfl]
    by_cases hj : i = j'
    · simp [hj]
    · rw [if_neg fun h => hj h.2, bitAt, hrow]; simp [hj]
  · rw [if_neg fun h => hi h.1, if_neg hi]
    unfold bitAt
    rw [get_foldl_keep (g := fun (m : Mem L) => (m out).word i' (colNdx j')) fun m j => ?_]
    rw [write_same, if_neg fun h => hi h.1, write_other _ hto.symm]

theorem copyAndIdentity_other {l : L} (ht : l ≠ tmp) (ho : l ≠ out) (m : Mem L) :
    copyAndIdentity tmp out src m l = m l :=
  get_foldl_keep (g := fun (m : Mem L) => m l) (fun m i => copyIdentityRow_other ht ho m i) _ m

theorem copyAndIdentity_tmp (hto : tmp ≠ out) (ht : src ≠ tmp) (ho : src ≠ out) (m : Mem L) :
    copyAndIdentity tmp out src m tmp = m src := by
  refine tr_ext fun i n => ?_
  have h := get_foldl_set_finRange_of (u := copyIdentityRow tmp out src) (I := fun m' : Mem L => m' src = m src)
    (g := fun (m : Mem L) i => fun n : Fin 4 => (m tmp).word i n) (v := fun i n => (m src).word i n)
    (fun s i hs => by rw [copyIdentityRow_other ht ho, hs])
    (fun s i i' hs => by
      funext n
      rw [copyIdentityRow_tmp hto ht ho, hs]
      split <;> rfl) rfl i
  exact congrFun h n

theorem toMat_copyAndIdentity_out (hto : tmp ≠ out) (m : Mem L) : toMat (copyAndIdentity tmp out src m out) = 1 := by
  ext i j
  have h := get_foldl_set_finRange (u := copyIdentityRow tmp out src) (g := fun (m : Mem L) => bitAt (m out))
    (v := fun i j' => decide (i = j')) (fun m i i' => copyIdentityRow_out hto m i i') m i
  rw [toMat, copyAndIdentity, h, Matrix.one_apply]
  by_cases hij : i = j <;> simp [hij]

end

/-- The loop of `mat_pow` multiplies `B` by the power: `B' = T ^ k * B`, with the squares of `T` in the local. -/
theorem toMat_matPowLoop (B : L) (k : ℕ) (junk : ℕ → Tr) (m : Mem (Option L)) :
    toMat (matPowLoop B junk k m (some B)) = toMat (m none) ^ k * toMat (m (some B)) := by
  induction k using Nat.strong_induction_on generalizing junk m with
  | _ k ih =>
    rw [matPowLoop]
    by_cases hk : k = 0
    · rw [if_pos hk, hk, pow_zero, one_mul]
    · have hne : some B ≠ none := Option.some_ne_none B
      rw [if_neg hk, ih (k / 2) (by omega), toMat_matMul, matMul_other hne, ← pow_two, ← pow_mul]
      by_cases hodd : k % 2 ≠ 0
      · -- an odd `k` multiplies once more
        simp only [if_pos hodd]
        rw [toMat_matMul, matMul_other hne.symm, ← mul_assoc, ← pow_succ]
        congr 2; omega
      · simp only [if_neg hodd]
        congr 2; omega

theorem matPowLoop_other {B l : L} (h : l ≠ B) (k : ℕ) (junk : ℕ → Tr) (m : Mem (Option L)) :
    matPowLoop B junk k m (some l) = m (some l) := by
  induction k using Nat.strong_induction_on generalizing junk m with
  | _ k ih =>
    rw [matPowLoop]
    by_cases hk : k = 0
    · rw [if_pos hk]
    · have hB : some l ≠ some B := fun e => h (Option.some.inj e)
      rw [if_neg hk, ih (k / 2) (by omega), matMul_other (Option.some_ne_none l)]
      split
      · exact matMul_other hB _ _ _ m
      · rfl

/-- **`mat_pow`** is the matrix power, from any first contents of its local. -/
theorem toMat_matPow {B A : L} (h : A ≠ B) (n : BitVec 64) (junk : ℕ → Tr) (m : Mem L) :
    toMat (matPow B A n junk m B) = toMat (m A) ^ n.toNat := by
  unfold matPow
  have hAB : some A ≠ some B := fun e => h (Option.some.inj e)
  rw [toMat_matPowLoop, toMat_copyAndIdentity_out (Option.some_ne_none B).symm, mul_one,
    copyAndIdentity_tmp (Option.some_ne_none B).symm (Option.some_ne_none A) hAB]
  rfl

theorem matPow_other {B l : L} (h : l ≠ B) (A : L) (n : BitVec 64) (junk : ℕ → Tr) (m : Mem L) :
    matPow B A n junk m l = m l := by
  unfold matPow
  have hlB : some l ≠ some B := fun e => h (Option.some.inj e)
  show matPowLoop _ _ _ _ _ = _
  rw [matPowLoop_other h, copyAndIdentity_other (Option.some_ne_none l) hlB]
  rfl

end

/-! ## `do_transition` -/

open Finset Matrix

/-- The shifts of `parity_fold` bring every bit of the word to the top. -/
theorem toZ2_parityFold (w : Word) : toZ2 ((parityFold w).getLsbD 31) = ∑ b ∈ range 32, toZ2 (w.getLsbD b) := by
  have hshift : ∀ k ∈ range 32, toZ2 (w.getLsbD (32 - 1 - k)) = toZ2 ((w <<< k).getLsbD 31) := by
    intro k hk
    have := mem_range.1 hk
    rw [BitVec.getLsbD_shiftLeft]
    simp [show ¬ 31 < k by omega]
  have hlist : ∀ (f : ℕ → ZMod 2) (n : ℕ), ∑ k ∈ range (n + 1), f k = f 0 + ((List.range' 1 n).map f).sum := by
    intro f n
    have hr : List.range (n + 1) = 0 :: List.range' 1 n := by rw [List.range_eq_range', List.range'_succ]
    rw [← List.sum_cons, ← List.map_cons, ← hr]
    rfl
  rw [parityFold, getLsbD_foldl_xor, toZ2_foldl_xor, ← sum_range_reflect (fun b => toZ2 (w.getLsbD b)),
    sum_congr rfl hshift, hlist, BitVec.shiftLeft_zero]

theorem toZ2_rowWord (s : State) (A : Tr) (r : Fin 128) (b : ℕ) :
    toZ2 ((rowWord s A r).getLsbD b) = ∑ k : Fin 4, toZ2 ((A.word r k).getLsbD b) * toZ2 ((s.get k).getLsbD b) := by
  rw [rowWord, getLsbD_foldl_xor, show (0 : Word).getLsbD b = false from BitVec.getLsbD_zero, toZ2_foldl_xor_finRange]
  exact sum_congr rfl fun k _ => by rw [BitVec.getLsbD_and, toZ2_and]

theorem toZ2_parityFold_rowWord (s : State) (A : Tr) (r : Fin 128) :
    toZ2 ((parityFold (rowWord s A r)).getLsbD 31) = ∑ k : Fin 4, dot (A.word r k) (s.get k) := by
  rw [toZ2_parityFold, sum_congr rfl fun b _ => toZ2_rowWord s A r b, sum_comm]
  rfl

theorem colNdx_rowNdx (k : Fin 4) (b : Fin 32) : colNdx (rowNdx k b) = k := by
  ext; simp only [colNdx, rowNdx]; omega

theorem colOfs_rowNdx (k : Fin 4) (b : Fin 32) : colOfs (rowNdx k b) = b := by
  simp only [colOfs, rowNdx]; omega

theorem rowNdx_colNdx (r : Fin 128) : rowNdx (colNdx r) ⟨colOfs r, colOfs_lt r⟩ = r := by
  ext; simp only [rowNdx, colNdx, colOfs]; omega

/-- A bit number is a word number and an offset. -/
def bitEquiv : Fin 4 × Fin 32 ≃ Fin 128 where
  toFun x := rowNdx x.1 x.2
  invFun r := (colNdx r, ⟨colOfs r, colOfs_lt r⟩)
  left_inv := fun ⟨k, b⟩ => by simp only [colNdx_rowNdx, colOfs_rowNdx]
  right_inv := rowNdx_colNdx

/-- A row of a matrix times a state is the inner product of their words. -/
theorem mulVec_eq_dot (s : State) (A : Tr) (r : Fin 128) :
    (toMat A *ᵥ toVec s) r = ∑ k : Fin 4, dot (A.word r k) (s.get k) := by
  have hcell : ∀ k b, toMat A r (bitEquiv (k, b)) * toVec s (bitEquiv (k, b)) =
      toZ2 ((A.word r k).getLsbD b) * toZ2 ((s.get k).getLsbD b) := by
    intro k b
    simp only [bitEquiv, Equiv.coe_fn_mk, toMat, toVec, bitAt, State.bit, colNdx_rowNdx, colOfs_rowNdx]
  have hsum : (toMat A *ᵥ toVec s) r = ∑ x, toMat A r (bitEquiv x) * toVec s (bitEquiv x) :=
    (bitEquiv.sum_comp fun j => toMat A r j * toVec s j).symm
  rw [hsum, Fintype.sum_prod_type]
  refine sum_congr rfl fun k _ => ?_
  rw [dot, sum_range]
  exact sum_congr rfl fun b _ => hcell k b

@[simp] theorem get_ofFn (f : Fin 4 → Word) (i : Fin 4) : (State.ofFn f).get i = f i := by
  fin_cases i <;> rfl

/-- **`do_transition`** is the product of the matrix and the state. -/
theorem toVec_doTransition (s : State) (A : Tr) : toVec (doTransition s A) = toMat A *ᵥ toVec s := by
  funext r
  have hbit : (doTransition s A).bit r = (parityFold (rowWord s A r)).getLsbD 31 := by
    have hlt := colOfs_lt r
    unfold doTransition State.bit
    rw [get_ofFn]
    refine (getLsbD_foldl_shiftIn (w := 31) (fun j => parityFold (rowWord s A (rowNdx (colNdx r) j)))
      (List.finRange 32) (by omega)).trans ?_
    have hback : 32 - 1 - (31 - colOfs r) = colOfs r := by omega
    rw [List.getElem?_reverse (by simp only [List.length_finRange]; omega), List.length_finRange, hback,
      List.getElem?_eq_getElem (by simpa using hlt)]
    simp [rowNdx_colNdx]
  rw [toVec, hbit, toZ2_parityFold_rowWord, mulVec_eq_dot]

/-! ## The literal `T` -/

/-- The rows of `T`: a word move for the first three words, and the new `w` read backwards through its shifts. -/
def stepRow (r : Fin 128) : State :=
  let e := BitVec.twoPow 32 (colOfs r)
  let u := e ^^^ (e <<< 8)
  match colNdx r with
  | 0 => ⟨0, e, 0, 0⟩
  | 1 => ⟨0, 0, e, 0⟩
  | 2 => ⟨0, 0, 0, e⟩
  | 3 => ⟨u ^^^ (u >>> 11), 0, 0, e ^^^ (e <<< 19)⟩

theorem T_row : ∀ (r : Fin 128) (k : Fin 4), T.word r k = (stepRow r).get k := by decide +kernel

/-- **`T` is `step_forward`**. -/
theorem toVec_stepForward (s : State) : toVec (stepForward s) = toMat T *ᵥ toVec s := by
  funext r
  have hlt := colOfs_lt r
  simp only [mulVec_eq_dot, Fin.sum_univ_four, T_row, toVec, State.bit, stepRow]
  generalize colNdx r = n
  match n with
  | 0 => simp [State.get, stepForward, dot_twoPow hlt]
  | 1 => simp [State.get, stepForward, dot_twoPow hlt]
  | 2 => simp [State.get, stepForward, dot_twoPow hlt]
  | 3 =>
    rw [← dot_twoPow hlt]
    simp [State.get, stepForward, dot_xor, xor_dot, dot_ushiftRight, dot_shiftLeft, BitVec.ushiftRight_xor_distrib]
    ring

theorem toVec_injective : Function.Injective toVec := by
  intro s s' h
  have hbit : ∀ (k : Fin 4), s.get k = s'.get k := by
    intro k
    apply BitVec.eq_of_getLsbD_eq
    intro b hb
    have hr := toZ2_injective (congrFun h (rowNdx k ⟨b, hb⟩))
    simpa only [State.bit, colNdx_rowNdx, colOfs_rowNdx] using hr
  cases s; cases s'
  exact State.mk.injEq .. ▸ ⟨hbit 0, hbit 1, hbit 2, hbit 3⟩

theorem toVec_iterate (k : ℕ) (s : State) : toVec (stepForward^[k] s) = toMat T ^ k *ᵥ toVec s := by
  induction k generalizing s with
  | zero => simp
  | succ k ih => rw [Function.iterate_succ_apply, ih, toVec_stepForward, mulVec_mulVec, pow_succ]

end ThundeRiNG.Xorshift128
