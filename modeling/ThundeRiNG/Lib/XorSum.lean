import Mathlib.Data.List.FinRange
import Mathlib.Data.List.Perm.Basic
import ThundeRiNG.Lib.XorLinear

/-!
# Xor over a list

`xorSum l f` folds `^^^` over `f i` for `i` in `l`. The order of the list does not matter (`xorSum_perm`), and
equal terms cancel in pairs (`xorSum_const_even`). A xor-linear map is the sum of its values at the single bits (`xorSum_bits`), also when
it takes a tuple of words (`foldl_rows`, the loop that adds up the rows of a matrix).
-/

namespace Gf2

variable {α κ : Type*} [XorOp α] [Zero α]

def xorSum (l : List κ) (f : κ → α) : α := l.foldl (fun v i => v ^^^ f i) 0

@[simp] theorem xorSum_nil (f : κ → α) : xorSum [] f = 0 := rfl

theorem xorSum_concat (l : List κ) (i : κ) (f : κ → α) : xorSum (l ++ [i]) f = xorSum l f ^^^ f i := by
  unfold xorSum
  rw [List.foldl_append, List.foldl_cons, List.foldl_nil]

theorem xorSum_map {ι : Type*} (l : List ι) (e : ι → κ) (f : κ → α) :
    xorSum (l.map e) f = xorSum l fun i => f (e i) := by
  unfold xorSum
  rw [List.foldl_map]

variable [LawfulXor α]

theorem foldl_xor_eq (l : List κ) (f : κ → α) (v : α) : l.foldl (fun v i => v ^^^ f i) v = v ^^^ xorSum l f := by
  unfold xorSum
  induction l generalizing v with
  | nil => exact (xor_zero v).symm
  | cons i l ih => rw [List.foldl_cons, List.foldl_cons, ih, ih (0 ^^^ f i), zero_xor, xor_assoc]

theorem xorSum_cons (i : κ) (l : List κ) (f : κ → α) : xorSum (i :: l) f = f i ^^^ xorSum l f := by
  rw [xorSum, List.foldl_cons, foldl_xor_eq, zero_xor]

theorem xorSum_append (l l' : List κ) (f : κ → α) : xorSum (l ++ l') f = xorSum l f ^^^ xorSum l' f := by
  rw [xorSum, List.foldl_append, foldl_xor_eq]
  rfl

theorem xorSum_perm {l l' : List κ} (h : l.Perm l') (f : κ → α) : xorSum l f = xorSum l' f := by
  induction h with
  | nil => rfl
  | cons i _ ih => rw [xorSum_cons, xorSum_cons, ih]
  | swap i j l =>
    rw [xorSum_cons, xorSum_cons, xorSum_cons, xorSum_cons, ← xor_assoc, ← xor_assoc, LawfulXor.xor_comm (f j)]
  | trans _ _ ih1 ih2 => exact ih1.trans ih2

theorem xorSum_xor (l : List κ) (f g : κ → α) : xorSum l (fun i => f i ^^^ g i) = xorSum l f ^^^ xorSum l g := by
  induction l with
  | nil => exact (xor_zero (0 : α)).symm
  | cons i l ih => rw [xorSum_cons, xorSum_cons, xorSum_cons, ih, xor_xor_xor_comm]

/-- A xor-linear map goes into the sum. -/
theorem XorLinear.map_xorSum {β : Type*} [XorOp β] [Zero β] [LawfulXor β] {f : α → β} (hf : XorLinear f) (l : List κ)
    (g : κ → α) : f (xorSum l g) = xorSum l fun i => f (g i) := by
  induction l with
  | nil => exact hf.map_zero
  | cons i l ih => rw [xorSum_cons, xorSum_cons, hf, ih]

/-- An even number of equal terms cancels. -/
theorem xorSum_const_even (m : ℕ) (a : α) : xorSum (List.range (2 * m)) (fun _ => a) = 0 := by
  induction m with
  | zero => rfl
  | succ m ih =>
    rw [Nat.mul_succ, List.range_succ, xorSum_concat, List.range_succ, xorSum_concat, ih, zero_xor, LawfulXor.xor_self]

/-! ## The terms that the bits of a number select -/

def bitSum (w : ℕ) (v : ℕ → α) (g : ℕ) : α := xorSum (List.range w) fun k => if g.testBit k then v k else 0

theorem bitSum_xor (w : ℕ) (v : ℕ → α) (g h : ℕ) : bitSum w v (g ^^^ h) = bitSum w v g ^^^ bitSum w v h := by
  unfold bitSum
  rw [← xorSum_xor]
  congr 1
  funext k
  rw [Nat.testBit_xor]
  cases g.testBit k <;> cases h.testBit k <;> simp [LawfulXor.xor_self, zero_xor, xor_zero]

theorem bitSum_zero (w : ℕ) (v : ℕ → α) : bitSum w v 0 = 0 := by
  have h := bitSum_xor w v 0 0
  rwa [Nat.xor_zero, LawfulXor.xor_self] at h

omit [LawfulXor α] in
theorem bitSum_succ (w : ℕ) (v : ℕ → α) (g : ℕ) :
    bitSum (w + 1) v g = bitSum w v g ^^^ (if g.testBit w then v w else 0) := by
  rw [bitSum, List.range_succ, xorSum_concat]; rfl

/-- Bits above the number select nothing. -/
theorem bitSum_of_lt {w w' : ℕ} (hw : w ≤ w') (v : ℕ → α) {g : ℕ} (hg : g < 2 ^ w) : bitSum w' v g = bitSum w v g := by
  induction w', hw using Nat.le_induction with
  | base => rfl
  | succ w' hw ih =>
    have hbit : g.testBit w' = false := Nat.testBit_lt_two_pow (hg.trans_le (Nat.pow_le_pow_right (by omega) hw))
    rw [bitSum_succ, ih, hbit, if_neg Bool.false_ne_true, xor_zero]

theorem bitSum_two_pow {w c : ℕ} (hc : c < w) (v : ℕ → α) : bitSum w v (2 ^ c) = v c := by
  have hlow : ∀ k ≤ c, bitSum k v (2 ^ c) = 0 := by
    intro k
    induction k with
    | zero => intro _; rfl
    | succ k ih =>
      intro hk
      rw [bitSum_succ, ih (by omega), Nat.testBit_two_pow_of_ne (by omega), if_neg Bool.false_ne_true, xor_zero]
  rw [bitSum_of_lt (w := c + 1) hc v (Nat.pow_lt_pow_right (by omega) (by omega)), bitSum_succ, hlow c le_rfl,
    Nat.testBit_two_pow_self, if_pos rfl, zero_xor]

/-! ## A xor-linear map from its values at the single bits -/

section
variable {β : Type*} [XorOp β] [Zero β] [LawfulXor β] {n w : ℕ}

theorem xorSum_bits {f : BitVec w → β} (hf : XorLinear f) (x : BitVec w) :
    xorSum (List.range w) (fun j => if x.getLsbD j then f (BitVec.twoPow w j) else 0) = f x := by
  have hlow : ∀ k ≤ w, xorSum (List.range k) (fun j => if x.getLsbD j then f (BitVec.twoPow w j) else 0) =
      f ((x.setWidth k).setWidth w) := by
    intro k
    induction k with
    | zero =>
      have h0 : (x.setWidth 0).setWidth w = 0 := by ext i hi; simp
      intro _; rw [h0, hf.map_zero]; rfl
    | succ k ih =>
      intro hk
      rw [List.range_succ, xorSum_concat, ih (by omega), setWidth_succ_eq, hf]
      split
      · rfl
      · rw [hf.map_zero]
  simpa using hlow w le_rfl

variable {ι : Type*} [DecidableEq ι]

/-- A tuple is the sum of its words, each alone in its place. -/
theorem xorSum_only {f : (ι → BitVec w) → β} (hf : XorLinear f) (v : ι → BitVec w) {l : List ι} (hl : l.Nodup) :
    xorSum l (fun i => f (only i (v i))) = f fun i => if i ∈ l then v i else 0 := by
  induction l with
  | nil =>
    have h0 : (fun i => if i ∈ [] then v i else 0) = (0 : ι → BitVec w) := funext fun i => by simp
    rw [h0, hf.map_zero]; rfl
  | cons i l ih =>
    obtain ⟨hi, hl⟩ := List.nodup_cons.1 hl
    rw [xorSum_cons, ih hl, ← hf]
    congr 1
    funext k
    by_cases hk : i = k
    · subst hk; simp [pi_xor, only, hi]
    · simp [pi_xor, only, hk, Ne.symm hk]

/-- **Adding up rows**: the loop that xors row `(i, j)` into `r` for every bit `j` set in word `i` applies the map whose
    values at the single bits the rows are. -/
theorem foldl_rows {f : (Fin n → BitVec w) → β} (hf : XorLinear f) (v : Fin n → BitVec w) (r : β) :
    (List.finRange n).foldl (fun r i => (List.range w).foldl (fun r j =>
      if (v i).getLsbD j then r ^^^ f (only i (BitVec.twoPow w j)) else r) r) r = r ^^^ f v := by
  have hinner : ∀ (r : β) (i : Fin n), (List.range w).foldl (fun r j =>
      if (v i).getLsbD j then r ^^^ f (only i (BitVec.twoPow w j)) else r) r = r ^^^ f (only i (v i)) := by
    intro r i
    have hif : ∀ (r : β) (j : ℕ), (if (v i).getLsbD j then r ^^^ f (only i (BitVec.twoPow w j)) else r) =
        r ^^^ (if (v i).getLsbD j then f (only i (BitVec.twoPow w j)) else 0) := fun r j => by
      split
      · rfl
      · exact (xor_zero r).symm
    simp only [hif]
    rw [foldl_xor_eq, xorSum_bits (hf.comp (xorLinear_only i))]
  simp only [hinner]
  rw [foldl_xor_eq, xorSum_only hf v (List.nodup_finRange n)]
  simp

end

end Gf2
