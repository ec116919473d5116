import ThundeRiNG.Rng.SouOutput

/-!
# The words that reach `rng_main`, whatever the polls find

An instance whose poll finds a leaf word adds it and its decorrelator to the passing word; one whose poll misses adds
nothing, but its decorrelator has stepped and its next leaf word waits for the next poll. So word `n` is the word of
`rng_start` with the contributions (`mixed`) of exactly the instances whose poll `n` found something (`words_mixed`).
-/

namespace ThundeRiNG.Sou

open Kahn Gf2

variable {CUs : ℕ} (S : ℕ → RngState) (O : ℕ → Rng32) (orc : Proc CUs → ℕ → Bool)

/-- What instance `x.2` of kernel `x.1` adds to word `n`. -/
def mixed (n : ℕ) (x : Fin CUs × Fin 8) : Rng32 :=
  if orc (.instanceStream x.1 x.2) n then
    sgState (instanceId x.1 x.2) (n + 1) ^^^
      leafWord S (instanceId x.1 x.2.rev) (found (orc (.instanceStream x.1 x.2)) n)
  else 0

/-- The instances of the kernels from `j` on, kernel by kernel. -/
def instancesFrom (CUs j : ℕ) : List (Fin CUs × Fin 8) :=
  ((List.finRange CUs).drop j).flatMap fun k => (List.finRange 8).map fun i => (k, i)

theorem kernelOut_mixed (k : Fin CUs) (X : ℕ → Rng32) (n : ℕ) (i : Fin 9) :
    kernelOut S orc k X i n = X n ^^^ xorSum ((List.finRange 8).take i) fun l => mixed S orc n (k, l) := by
  induction i using Fin.induction with
  | zero => simp
  | succ i ih =>
    have htake : (List.finRange 8).take (i + 1) = (List.finRange 8).take i ++ [i] := by
      rw [List.take_succ_eq_append_getElem (by simp)]
      simp
    rw [Fin.val_castSucc] at ih
    rw [kernelOut_succ, instanceOut, Fin.val_succ, htake, xorSum_concat, ← xor_assoc, ← ih, mixed]
    by_cases ho : orc (.instanceStream k i) n
    · rw [if_pos ho, if_pos ho, applicationFunction, LawfulXor.xor_comm]
    · rw [if_neg ho, if_neg ho, xor_zero]

/-- The kernels add theirs one after the other, from the last one down. -/
theorem passed_mixed (n : ℕ) {j : ℕ} (hj : j ≤ CUs) :
    passed S O orc j n = O n ^^^ xorSum (instancesFrom CUs (CUs - j)) (mixed S orc n) := by
  induction j with
  | zero => simp [passed, instancesFrom, List.drop_eq_nil_of_le]
  | succ j ih =>
    have hk : ((Fin.rev ⟨j, hj⟩ : Fin CUs) : ℕ) = CUs - (j + 1) := by rw [Fin.val_rev]
    have hdrop : (List.finRange CUs).drop (CUs - (j + 1)) = Fin.rev ⟨j, hj⟩ :: (List.finRange CUs).drop (CUs - j) := by
      have hlt : CUs - (j + 1) < (List.finRange CUs).length := by rw [List.length_finRange]; omega
      have hget : (List.finRange CUs)[CUs - (j + 1)] = Fin.rev ⟨j, hj⟩ := by
        rw [Fin.ext_iff, hk, List.getElem_finRange, Fin.val_cast]
      rw [List.drop_eq_getElem_cons hlt, hget]
      congr 2
      omega
    have hsplit : instancesFrom CUs (CUs - (j + 1)) =
        (List.finRange 8).map (fun i => (Fin.rev ⟨j, hj⟩, i)) ++ instancesFrom CUs (CUs - j) := by
      rw [instancesFrom, hdrop, List.flatMap_cons]
      rfl
    rw [passed, dif_pos (by omega), kernelOut_mixed, ih (by omega), hsplit, xorSum_append, xorSum_map, xor_assoc,
      LawfulXor.xor_comm (xorSum (instancesFrom CUs (CUs - j)) _)]
    rfl

/-- **Whatever the polls find**: in every run, word `n` at `rng_main` is the word of `rng_start` xored with the
    contributions of exactly the instances whose poll `n` found a leaf word, each with its next unused one. -/
theorem words_mixed (axiDepth : ℕ) (hC : 1 ≤ CUs) (sched : List (Proc CUs)) :
    let g := (network CUs axiDepth S O).run sched
    g.hist (.oLink (linkStart CUs .rngMainRng)) =
      (List.range (g.hist (.oLink (linkStart CUs .rngMainRng))).length).map fun n =>
        O n ^^^ xorSum (instancesFrom CUs 0) (mixed S g.oracle n) := by
  intro g
  have hstream : ∀ n, stream S O g.oracle (.oLink (linkStart CUs .rngMainRng)) n =
      O n ^^^ xorSum (instancesFrom CUs 0) (mixed S g.oracle n) := by
    intro n
    rw [linkStart_of_mem mem_rngMainRng, stream, Nat.add_sub_cancel, passed_mixed S O _ n le_rfl, Nat.sub_self]
  have h := hist_eq_stream axiDepth S O hC sched (.oLink (linkStart CUs .rngMainRng))
  rwa [funext hstream] at h

/-- In the run in which no state has arrived yet, the word passes as it came. -/
theorem words_mixed_early :
    let g := (network 1 2 (fun _ => 0) fun _ => 7).run outputTurns
    g.hist (.oLink (linkStart 1 .rngMainRng)) =
      (List.range (g.hist (.oLink (linkStart 1 .rngMainRng))).length).map fun n =>
        7 ^^^ xorSum (instancesFrom 1 0) (mixed (fun _ => 0) g.oracle n) :=
  words_mixed (fun _ => 0) (fun _ => 7) 2 le_rfl outputTurns

end ThundeRiNG.Sou
