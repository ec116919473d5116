import ThundeRiNG.Lib.WordDot

/-!
# What counting loops leave behind

A `for` loop is a `foldl` over its index list. Three shapes are read off here: a loop that sets one cell
per index (`get_foldl_set`), one that never touches a cell (`get_foldl_keep`), and one that xors a bit into
an accumulator, whose result is a sum over `ZMod 2` (`toZ2_foldl_xor`).
-/

namespace Loops

open WordDot

section
variable {σ κ β : Type*} {u : σ → κ → σ}

theorem get_foldl_keep {g : σ → β} (h : ∀ s k, g (u s k) = g s) (ks : List κ) (s : σ) :
    g (ks.foldl u s) = g s := by
  induction ks generalizing s with
  | nil => rfl
  | cons k ks ih => rw [List.foldl_cons, ih, h]

/-- The same under an invariant of the loop. -/
theorem foldl_inv {I : σ → Prop} (hI : ∀ s k, I s → I (u s k)) (ks : List κ) {s : σ} (hs : I s) :
    I (ks.foldl u s) := by
  induction ks generalizing s with
  | nil => exact hs
  | cons k ks ih => exact ih (hI s k hs)

/-- After a loop that sets cell `k` to `v k`, a cell holds its value if the loop visited it and is untouched
    otherwise. The step may rely on an invariant of the loop. -/
theorem get_foldl_set [DecidableEq κ] {I : σ → Prop} {g : σ → κ → β} {v : κ → β} (hI : ∀ s k, I s → I (u s k))
    (h : ∀ s k k', I s → g (u s k) k' = if k = k' then v k else g s k') (ks : List κ) {s : σ} (hs : I s)
    (k' : κ) : g (ks.foldl u s) k' = if k' ∈ ks then v k' else g s k' := by
  induction ks generalizing s with
  | nil => simp
  | cons k ks ih =>
    rw [List.foldl_cons, ih (hI s k hs), h s k k' hs]
    by_cases hk : k = k'
    · subst hk; simp
    · simp [hk, Ne.symm hk]

end

section
variable {σ β : Type*} {n : ℕ} {u : σ → Fin n → σ} {g : σ → Fin n → β} {v : Fin n → β}

/-- The loop over a whole index range sets every cell. -/
theorem get_foldl_set_finRange_of {I : σ → Prop} (hI : ∀ s k, I s → I (u s k))
    (h : ∀ s k k', I s → g (u s k) k' = if k = k' then v k else g s k') {s : σ} (hs : I s) (k' : Fin n) :
    g ((List.finRange n).foldl u s) k' = v k' := by
  rw [get_foldl_set hI h _ hs, if_pos (List.mem_finRange k')]

theorem get_foldl_set_finRange (h : ∀ s k k', g (u s k) k' = if k = k' then v k else g s k') (s : σ)
    (k' : Fin n) : g ((List.finRange n).foldl u s) k' = v k' :=
  get_foldl_set_finRange_of (I := fun _ => True) (fun _ _ _ => trivial) (fun s k k' _ => h s k k') trivial k'

end

/-! ## Accumulating bits -/

theorem toZ2_foldl_xor {κ : Type*} (f : κ → Bool) (ks : List κ) (b : Bool) :
    toZ2 (ks.foldl (fun v k => v ^^ f k) b) = toZ2 b + (ks.map fun k => toZ2 (f k)).sum := by
  induction ks generalizing b with
  | nil => simp
  | cons k ks ih => rw [List.foldl_cons, ih, toZ2_xor, List.map_cons, List.sum_cons, add_assoc]

theorem toZ2_foldl_xor_finRange {n : ℕ} (f : Fin n → Bool) :
    toZ2 ((List.finRange n).foldl (fun v k => v ^^ f k) false) = ∑ k, toZ2 (f k) := by
  rw [toZ2_foldl_xor, toZ2_false, zero_add, Fin.sum_univ_def]

/-- A loop over words, seen at one bit. -/
theorem getLsbD_foldl_xor {κ : Type*} {w : ℕ} (f : κ → BitVec w) (ks : List κ) (v : BitVec w) (b : ℕ) :
    (ks.foldl (fun v k => v ^^^ f k) v).getLsbD b = ks.foldl (fun c k => c ^^ (f k).getLsbD b) (v.getLsbD b) := by
  induction ks generalizing v with
  | nil => rfl
  | cons k ks ih => rw [List.foldl_cons, List.foldl_cons, ih, BitVec.getLsbD_xor]

/-! ## Shifting bits in -/

/-- A loop that shifts the top bit of `u k` into an empty word leaves the last bits at the top. -/
theorem getLsbD_foldl_shiftIn {κ : Type*} {w : ℕ} (u : κ → BitVec (w + 1)) (ks : List κ) {b : ℕ} (hb : b ≤ w) :
    (ks.foldl (fun (t : BitVec (w + 1)) k => (t >>> 1) ||| (u k &&& BitVec.twoPow (w + 1) w)) 0).getLsbD b =
      (ks.reverse[w - b]?.elim false fun k => (u k).getLsbD w) := by
  induction ks using List.reverseRecOn generalizing b with
  | nil => simp
  | append_singleton ks k ih =>
    rw [List.foldl_append, List.foldl_cons, List.foldl_nil, List.reverse_append, List.reverse_singleton,
      List.singleton_append, BitVec.getLsbD_or, BitVec.getLsbD_ushiftRight, BitVec.getLsbD_and]
    by_cases hw : b = w
    · subst hw
      rw [BitVec.getLsbD_of_ge _ (1 + b) (by omega)]
      simp
    · have hidx : w - b = w - (1 + b) + 1 := by omega
      rw [ih (by omega), hidx, List.getElem?_cons_succ, BitVec.getLsbD_twoPow]
      simp [Ne.symm hw]

end Loops
