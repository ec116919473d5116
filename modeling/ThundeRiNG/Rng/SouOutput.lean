import ThundeRiNG.Lib.Rounds
import ThundeRiNG.Lib.XorSum
import ThundeRiNG.Rng.SouStreams

/-!
# The words that reach `rng_main`

When every poll finds its leaf word, an instance xors its decorrelator and its leaf word into the passing word.
In kernel `j` the decorrelators have the ids `8j - 1, …, 8j + 6` in order and the leaf words the same ids in
reverse, so a kernel adds one `contribution` for each of them (`kernelOut_true`) and the chain of kernels one for
each id from 7 to `8 * CUs + 6` (`souOutput`). Runs of that kind exist for any number of words (`exists_souRun`).

When polls may miss, the words depend on the schedule through the outcomes of the polls and through nothing else
(`outcomes_determine`).
-/

namespace ThundeRiNG.Sou

open Kahn Gf2

variable {CUs : ℕ}

/-! ## All polls find their word -/

/-- What stream `id` adds to word `n`. -/
def contribution (S : ℕ → RngState) (n id : ℕ) : Rng32 :=
  xorshiftjump^[n + 1] (tmpXor32S.getD id 0) ^^^ outputFunction (multiStream (S n) (BitVec.ofNat 64 (54 + id)))

section
variable (S : ℕ → RngState) (O : ℕ → Rng32)

theorem instanceId_eq (k : Fin CUs) (i : Fin 8) : instanceId k i = 8 * k + 7 + i := by
  unfold instanceId KERNEL_ID NRNG
  omega

theorem found_true (n : ℕ) : found (fun _ => true) n = n := by
  induction n with
  | zero => rfl
  | succ n ih => rw [found_succ, ih, if_pos rfl]

/-- After `i` instances of kernel `k`. -/
theorem kernelOut_take (k : Fin CUs) (X : ℕ → Rng32) (n : ℕ) (i : Fin 9) :
    kernelOut S (fun _ _ => true) k X i n =
      X n ^^^ xorSum (List.range i) fun l =>
        sgState (8 * k + 7 + l) (n + 1) ^^^ leafWord S (8 * k + 7 + (7 - l)) n := by
  induction i using Fin.induction with
  | zero => simp
  | succ i ih =>
    have hrev : instanceId k i.rev = 8 * k + 7 + (7 - i) := by rw [instanceId_eq, Fin.val_rev]; omega
    rw [kernelOut_succ, instanceOut, if_pos rfl, ih, found_true, instanceId_eq, hrev, Fin.val_succ, List.range_succ,
      xorSum_concat, applicationFunction, LawfulXor.xor_comm, xor_assoc]
    rfl

/-- A kernel adds the contributions of its eight ids. -/
theorem kernelOut_true (k : Fin CUs) (X : ℕ → Rng32) (n : ℕ) :
    kernelOut S (fun _ _ => true) k X 8 n = X n ^^^ xorSum (List.range' (8 * k + 7) 8) (contribution S n) := by
  have hperm : ((List.range 8).map fun l => 7 - l).Perm (List.range 8) := by decide
  have hleaf : (xorSum (List.range 8) fun l => leafWord S (8 * k + 7 + (7 - l)) n) =
      xorSum (List.range 8) fun l => leafWord S (8 * k + 7 + l) n := by
    rw [← xorSum_map (List.range 8) (fun l => 7 - l) fun l => leafWord S (8 * k + 7 + l) n, xorSum_perm hperm]
  have hids : List.range' (8 * k + 7) 8 = (List.range 8).map fun l => (8 * k + 7 : ℕ) + l := List.range'_eq_map_range ..
  rw [kernelOut_take, hids, xorSum_map]
  refine congrArg (X n ^^^ ·) ?_
  exact (xorSum_xor _ _ _).trans ((congrArg _ hleaf).trans (xorSum_xor _ _ _).symm)

/-- The kernels add their contributions one after the other, from the last ids down. -/
theorem passed_true (n : ℕ) {j : ℕ} (hj : j ≤ CUs) :
    passed S O (fun (_ : Proc CUs) _ => true) j n =
      O n ^^^ xorSum (List.range' (8 * (CUs - j) + 7) (8 * j)) (contribution S n) := by
  induction j with
  | zero => simp [passed]
  | succ j ih =>
    have hk : ((Fin.rev ⟨j, hj⟩ : Fin CUs) : ℕ) = CUs - (j + 1) := by rw [Fin.val_rev]
    have hsplit : List.range' (8 * (CUs - (j + 1)) + 7) (8 * (j + 1)) =
        List.range' (8 * (CUs - (j + 1)) + 7) 8 ++ List.range' (8 * (CUs - j) + 7) (8 * j) := by
      rw [show 8 * (CUs - j) + 7 = 8 * (CUs - (j + 1)) + 7 + 8 by omega, List.range'_append_1]
      congr 1; omega
    rw [passed, dif_pos (by omega), kernelOut_true, ih (by omega), hk, hsplit, xorSum_append, xor_assoc,
      LawfulXor.xor_comm (xorSum (List.range' (8 * (CUs - j) + 7) (8 * j)) _)]

end

/-! ## Such runs exist -/

section
variable (axiDepth : ℕ) (S : ℕ → RngState) (O : ℕ → Rng32)

theorem writer_sIn (k : Fin CUs) : (network CUs axiDepth S O).writer (.sLink (linkStart CUs (.sIn (k + 1)))) =
    if k.val = 0 then .ssrngStateMerge else .sToAxis ⟨k - 1, by omega⟩ := by
  rw [linkStart_of_mem (mem_sIn k), writer_sLink]
  obtain ⟨k, hk⟩ := k
  cases k with
  | zero => rfl
  | succ k => exact stateWriter_sOut (⟨k, by omega⟩ : Fin CUs)

theorem writer_oIn (k : Fin CUs) : (network CUs axiDepth S O).writer (.oLink (linkStart CUs (.oIn (k + 1)))) =
    if h : k.val + 1 = CUs then .rngStart else .oToAxis ⟨k + 1, by omega⟩ := by
  rw [linkStart_of_mem (mem_oIn k), writer_oLink]
  by_cases h : k.val + 1 = CUs
  · rw [if_pos h, dif_pos h]; rfl
  · rw [if_neg h, dif_neg h]; exact outputWriter_oOut (⟨k + 1, by omega⟩ : Fin CUs)

theorem writer_rngEnd (hC : 1 ≤ CUs) : (network CUs axiDepth S O).writer (.sLink (linkStart CUs .rngEndInput)) =
    .sToAxis ⟨CUs - 1, by omega⟩ := by
  have h := stateWriter_sOut (⟨CUs - 1, by omega⟩ : Fin CUs)
  rw [linkStart_of_mem mem_rngEndInput, writer_sLink, ← h, Nat.sub_add_cancel hC]

theorem writer_rngMain (hC : 1 ≤ CUs) : (network CUs axiDepth S O).writer (.oLink (linkStart CUs .rngMainRng)) =
    .oToAxis ⟨0, hC⟩ := by
  rw [linkStart_of_mem mem_rngMainRng, writer_oLink]
  exact outputWriter_oOut (⟨0, hC⟩ : Fin CUs)

variable {axiDepth S O} {orc : Proc CUs → ℕ → Bool} {p : Proc CUs} {i : ℕ} {s : Static p} {n : Counts (Chan CUs)}
  {c : Chan CUs}

theorem round_rd (hc : Live c) (h : Round (fun _ _ => true) p i s n) (hp : (network CUs axiDepth S O).reader c = p) :
    n.rd c = i := by
  cases c with
  | s k l =>
    cases l using Fin.lastCases with
    | last => obtain rfl := (reader_s_last axiDepth S O k).symm.trans hp; exact h.1
    | cast l => rw [reader_s] at hp; subst hp; exact h.1
  | o k l =>
    cases l using Fin.lastCases with
    | last => obtain rfl := (reader_o_last axiDepth S O k).symm.trans hp; exact h.1
    | cast l => rw [reader_o] at hp; subst hp; exact h.2.1
  | leafState k l =>
    rw [reader_leafState] at hp; subst hp
    have hf := h.2.2.2.1
    rwa [Fin.rev_rev, found_true] at hf
  | sLink src =>
    obtain ⟨b, rfl, rfl | ⟨k, rfl⟩⟩ := hc
    · rw [reader_rngEnd] at hp; subst hp; exact h
    · rw [reader_sIn] at hp; subst hp; exact h.1
  | oLink src =>
    obtain ⟨b, rfl, rfl | ⟨k, rfl⟩⟩ := hc
    · rw [reader_rngMain] at hp; subst hp; exact h
    · rw [reader_oIn] at hp; subst hp; exact h.1

theorem round_wr (hC : 1 ≤ CUs) (hc : Live c) (h : Round (fun _ _ => true) p i s n)
    (hp : (network CUs axiDepth S O).writer c = p) : n.wr c = i := by
  cases c with
  | s k l =>
    cases l using Fin.cases with
    | zero => rw [writer_s_zero] at hp; subst hp; exact h.2
    | succ l => rw [writer_s] at hp; subst hp; exact h.2.1
  | o k l =>
    cases l using Fin.cases with
    | zero => rw [writer_o_zero] at hp; subst hp; exact h.2
    | succ l => rw [writer_o] at hp; subst hp; exact h.2.2.1
  | leafState k l => rw [writer_leafState] at hp; subst hp; exact h.2.2
  | sLink src =>
    obtain ⟨b, rfl, rfl | ⟨k, rfl⟩⟩ := hc
    · rw [writer_rngEnd axiDepth S O hC] at hp; subst hp
      rw [linkStart_of_mem mem_rngEndInput]
      have hw := h.2
      rwa [Nat.sub_add_cancel hC] at hw
    · rw [writer_sIn] at hp
      rw [linkStart_of_mem (mem_sIn k)]
      obtain ⟨k, hk⟩ := k
      cases k with
      | zero => subst hp; exact h.2
      | succ k => subst hp; exact h.2
  | oLink src =>
    obtain ⟨b, rfl, rfl | ⟨k, rfl⟩⟩ := hc
    · rw [writer_rngMain axiDepth S O hC] at hp; subst hp
      rw [linkStart_of_mem mem_rngMainRng]
      exact h.2
    · rw [writer_oIn] at hp
      rw [linkStart_of_mem (mem_oIn k)]
      by_cases hk : k.val + 1 = CUs
      · rw [dif_pos hk] at hp; subst hp; rw [if_pos hk]; exact h.2
      · rw [dif_neg hk] at hp; subst hp; rw [if_neg hk]; exact h.2

theorem singleRate (hC : 1 ≤ CUs) :
    SingleRate (network CUs axiDepth S O) (stream S O fun _ _ => true) Live (Round fun _ _ => true) where
  init := init_round
  rd hc h hp := round_rd hc h hp
  wr hc h hp := round_wr hC hc h hp
  body G p i s n h hin hout := by
    refine conf_body hC ⟨fun c hc hp _ => hin c hc hp, hout, ?_⟩ h
    rintro k l rfl
    rw [if_pos rfl, found_true]
    exact hin _ trivial (by simp)

/-- A turn order: down the state chain, then down the output chain. -/
def rank : Proc CUs → ℕ
  | .ssrngStateMerge => 0
  | .sToHls k => 10 * k + 1
  | .leafStateStream k i => 10 * k + 2 + i
  | .sToAxis k => 10 * k + 10
  | .rngEnd => 10 * CUs + 1
  | .rngStart => 10 * CUs + 2
  | .oToHls k => 10 * CUs + 3 + 10 * k.rev
  | .instanceStream k i => 10 * CUs + 4 + 10 * k.rev + i
  | .oToAxis k => 10 * CUs + 12 + 10 * k.rev
  | .rngMain => 20 * CUs + 3

theorem rank_injective : Function.Injective (rank : Proc CUs → ℕ) := by
  intro p q h
  cases p <;> cases q <;> simp only [rank, Fin.val_rev] at h <;>
    simp only [Proc.sToHls.injEq, Proc.oToHls.injEq, Proc.leafStateStream.injEq, Proc.instanceStream.injEq,
      Proc.sToAxis.injEq, Proc.oToAxis.injEq, Fin.ext_iff, reduceCtorEq] <;> omega

theorem rank_lt (p : Proc CUs) : rank p < 20 * CUs + 4 := by
  cases p <;> simp only [rank, Fin.val_rev] <;> omega

theorem rank_reader_s (k : Fin CUs) (l : Fin 9) :
    rank ((network CUs axiDepth S O).reader (.s k l)) = 10 * k + 2 + l := by
  cases l using Fin.lastCases with
  | last => exact congrArg rank (reader_s_last axiDepth S O k)
  | cast l => rw [reader_s]; rfl

theorem rank_writer_s (k : Fin CUs) (l : Fin 9) :
    rank ((network CUs axiDepth S O).writer (.s k l)) = 10 * k + 1 + l := by
  cases l using Fin.cases with
  | zero => rfl
  | succ l => rw [writer_s, rank, Fin.val_succ]; omega

theorem rank_reader_o (k : Fin CUs) (l : Fin 9) :
    rank ((network CUs axiDepth S O).reader (.o k l)) = 10 * CUs + 4 + 10 * k.rev + l := by
  cases l using Fin.lastCases with
  | last =>
    refine (congrArg rank (reader_o_last axiDepth S O k)).trans ?_
    simp only [rank, Fin.val_last]
    omega
  | cast l => rw [reader_o]; rfl

theorem rank_writer_o (k : Fin CUs) (l : Fin 9) :
    rank ((network CUs axiDepth S O).writer (.o k l)) = 10 * CUs + 3 + 10 * k.rev + l := by
  cases l using Fin.cases with
  | zero => rfl
  | succ l => rw [writer_o, rank, Fin.val_succ]; omega

/-- Every channel in use is written before it is read. -/
theorem rank_writer_lt_reader (hC : 1 ≤ CUs) (hc : Live c) :
    rank ((network CUs axiDepth S O).writer c) < rank ((network CUs axiDepth S O).reader c) := by
  cases c with
  | s k l => rw [rank_reader_s, rank_writer_s]; omega
  | o k l => rw [rank_reader_o, rank_writer_o]; omega
  | leafState k l =>
    rw [reader_leafState, writer_leafState]
    simp only [rank, Fin.val_rev]
    omega
  | sLink src =>
    obtain ⟨b, rfl, rfl | ⟨k, rfl⟩⟩ := hc
    · rw [reader_rngEnd, writer_rngEnd axiDepth S O hC]
      simp only [rank]
      omega
    · rw [reader_sIn, writer_sIn]
      split <;> simp only [rank] <;> omega
  | oLink src =>
    obtain ⟨b, rfl, rfl | ⟨k, rfl⟩⟩ := hc
    · rw [reader_rngMain, writer_rngMain axiDepth S O hC]
      simp only [rank, Fin.val_rev]
      omega
    · rw [reader_oIn, writer_oIn]
      split <;> simp only [rank, Fin.val_rev] <;> omega

/-- The processes at the reading ends of the links. -/
def readsLink : Proc CUs → Bool
  | .rngEnd => true
  | .rngMain => true
  | .sToHls _ => true
  | .oToHls _ => true
  | _ => false

theorem readsLink_stateReader (dst : Port) : readsLink (stateReader dst : Proc CUs) = true := by
  unfold stateReader
  split
  · cases kernel? CUs _ <;> rfl
  · rfl

theorem readsLink_stateWriter (src : Port) : readsLink (stateWriter src : Proc CUs) = false := by
  unfold stateWriter
  split
  · cases kernel? CUs _ <;> rfl
  · rfl

theorem readsLink_outputReader (dst : Port) : readsLink (outputReader dst : Proc CUs) = true := by
  unfold outputReader
  split
  · cases kernel? CUs _ <;> rfl
  · rfl

theorem readsLink_outputWriter (src : Port) : readsLink (outputWriter src : Proc CUs) = false := by
  unfold outputWriter
  split
  · cases kernel? CUs _ <;> rfl
  · rfl

theorem reader_ne_writer (c : Chan CUs) :
    (network CUs axiDepth S O).reader c ≠ (network CUs axiDepth S O).writer c := by
  intro h
  cases c with
  | s k l =>
    have hrank := congrArg rank h
    rw [rank_reader_s, rank_writer_s] at hrank
    omega
  | o k l =>
    have hrank := congrArg rank h
    rw [rank_reader_o, rank_writer_o] at hrank
    omega
  | leafState k l => simp at h
  | sLink src =>
    have hends := congrArg readsLink h
    exact absurd ((readsLink_stateReader _).symm.trans (hends.trans (readsLink_stateWriter _))) (by simp)
  | oLink src =>
    have hends := congrArg readsLink h
    exact absurd ((readsLink_outputReader _).symm.trans (hends.trans (readsLink_outputWriter _))) (by simp)

/-- **Progress**: for every `n` some run finds a word at every poll and brings exactly `n` words to `rng_main`. -/
theorem exists_souRun (hC : 1 ≤ CUs) (hd : 0 < axiDepth) (S : ℕ → RngState) (O : ℕ → Rng32) (n : ℕ) :
    ∃ sched, (∀ p, ∀ b ∈ ((network CUs axiDepth S O).run sched).polls p, b = true) ∧
      (((network CUs axiDepth S O).run sched).hist (.oLink (linkStart CUs .rngMainRng))).length = n := by
  have hdepth : ∀ c, Live c → 0 < (network CUs axiDepth S O).depth c := by
    intro c _
    cases c <;> simp [network, hd]
  obtain ⟨sched, h⟩ := exists_rounds (singleRate hC) reader_ne_writer rank_injective
    (fun _ => rank_writer_lt_reader hC) hdepth rank_lt n
  exact ⟨sched, h.polls, h.length_hist (singleRate hC) ⟨_, rfl, .inl rfl⟩⟩

end

/-! ## The outcomes of the polls determine the words -/

section
variable {axiDepth : ℕ} {S : ℕ → RngState} {O : ℕ → Rng32} {orc orc' : Proc CUs → ℕ → Bool} {n : ℕ}

theorem found_congr {f f' : ℕ → Bool} (h : ∀ m < n, f m = f' m) : found f n = found f' n := by
  induction n with
  | zero => rfl
  | succ n ih => rw [found_succ, found_succ, ih fun m hm => h m (by omega), h n (by omega)]

/-- Poll `n` goes alike: it misses in both, or it finds the same of the leaf words in both. -/
def SamePoll (f f' : ℕ → Bool) (n : ℕ) : Prop := f n = f' n ∧ (f n = true → found f n = found f' n)

instance (f f' : ℕ → Bool) (n : ℕ) : Decidable (SamePoll f f' n) := inferInstanceAs (Decidable (_ ∧ _))

theorem samePoll_of_eq {f f' : ℕ → Bool} (h : ∀ m ≤ n, f m = f' m) : SamePoll f f' n :=
  ⟨h n le_rfl, fun _ => found_congr fun m hm => h m hm.le⟩

theorem instanceOut_congr {f f' : ℕ → Bool} (h : SamePoll f f' n) (id : ℕ) (leaf : ℕ → Rng32) {X X' : ℕ → Rng32}
    (hX : X n = X' n) : instanceOut f id leaf X n = instanceOut f' id leaf X' n := by
  obtain ⟨hn, hfound⟩ := h
  unfold instanceOut
  by_cases hf : f n = true
  · rw [← hn, if_pos hf, if_pos hf, hfound hf, hX]
  · rw [← hn, if_neg hf, if_neg hf, hX]

variable (h : ∀ k i, SamePoll (orc (.instanceStream k i)) (orc' (.instanceStream k i)) n)
include h

theorem kernelOut_congr (k : Fin CUs) {X X' : ℕ → Rng32} (hX : X n = X' n) (i : Fin 9) :
    kernelOut S orc k X i n = kernelOut S orc' k X' i n := by
  induction i using Fin.induction with
  | zero => exact hX
  | succ i ih => exact instanceOut_congr (h k i) _ _ ih

theorem passed_congr (j : ℕ) : passed S O orc j n = passed S O orc' j n := by
  induction j with
  | zero => rfl
  | succ j ih =>
    rw [passed, passed]
    split
    · exact kernelOut_congr h _ ih 8
    · exact ih

/-- Word `n` depends on poll `n` of each instance: on its outcome, and on how many leaf words were found before it. -/
theorem stream_congr (c : Chan CUs) : stream S O orc c n = stream S O orc' c n := by
  cases c with
  | s | leafState | sLink => rfl
  | o k i => exact kernelOut_congr h k (passed_congr h _) i
  | oLink src =>
    cases src with
    | oOut j => exact passed_congr h _
    | _ => rfl

end

theorem oracle_true {N : Network (Token : Chan CUs → Type) (Proc CUs)} {g : Config N} {p : Proc CUs}
    (h : ∀ b ∈ g.polls p, b = true) (m : ℕ) : g.oracle p m = true := by
  unfold Config.oracle
  cases hm : (g.polls p)[m]? with
  | none => rfl
  | some b => exact h b (List.mem_of_getElem? hm)

/-! ## The words at `rng_main` -/

/-- **The sequence-output chain**: when every poll finds a word, word `n` at `rng_main` is the xor of the contributions
    of the ids 7, …, `8 * CUs + 6`, each once, and every id is a row of the seed table. -/
theorem souOutput (axiDepth : ℕ) (S : ℕ → RngState) (hC : 1 ≤ CUs) (hC' : CUs ≤ 511) (sched : List (Proc CUs))
    (hfound : ∀ k i, ∀ b ∈ ((network CUs axiDepth S fun _ => 0).run sched).polls (.instanceStream k i), b = true) :
    ((network CUs axiDepth S fun _ => 0).run sched).hist (.oLink (linkStart CUs .rngMainRng)) =
        (List.range (((network CUs axiDepth S fun _ => 0).run sched).hist (.oLink (linkStart CUs .rngMainRng))).length).map
          (fun n => xorSum (List.range' 7 (8 * CUs)) (contribution S n)) ∧
      ∀ (k : Fin CUs) (i : Fin 8), instanceId k i < tmpXor32S.length := by
  constructor
  · have hstream : ∀ n, stream S (fun _ => 0) ((network CUs axiDepth S fun _ => 0).run sched).oracle
        (.oLink (linkStart CUs .rngMainRng)) n = xorSum (List.range' 7 (8 * CUs)) (contribution S n) := by
      intro n
      have hcongr := @stream_congr CUs S (fun _ => 0) _ (fun _ _ => true) n
        (fun k i => samePoll_of_eq fun m _ => oracle_true (hfound k i) m) (.oLink (linkStart CUs .rngMainRng))
      rw [hcongr, linkStart_of_mem mem_rngMainRng, stream, Nat.add_sub_cancel, passed_true S _ n le_rfl, Nat.sub_self]
      exact zero_xor _
    have h := hist_eq_stream axiDepth S (fun _ => 0) hC sched (.oLink (linkStart CUs .rngMainRng))
    rwa [funext hstream] at h
  · intro k i
    rw [instanceId_eq, length_tmpXor32S]
    omega

/-- One pass of every process of the kernels and their environment that handles states. -/
def stateTurns : List (Proc CUs) :=
  List.replicate 2 .ssrngStateMerge ++ (List.finRange CUs).flatMap fun k =>
    List.replicate 3 (.sToHls k) ++ (List.finRange 8).flatMap (fun i => List.replicate 4 (.leafStateStream k i)) ++
      List.replicate 3 (.sToAxis k)

/-- One pass of every process that handles output words, from the last kernel to the first. -/
def outputTurns : List (Proc CUs) :=
  List.replicate 2 .rngStart ++ (List.finRange CUs).reverse.flatMap fun k =>
    List.replicate 3 (.oToHls k) ++ (List.finRange 8).flatMap (fun i => List.replicate 4 (.instanceStream k i)) ++
      List.replicate 3 (.oToAxis k)

/-- Two words of two kernels, whose ids are 7 to 14 and 15 to 22. -/
theorem souOutput_two_kernels :
    ((network 2 2 (fun n => stateTransitionFunciton^[n] (INIT_STATE 0)) fun _ => 0).run
        (stateTurns ++ outputTurns ++ stateTurns ++ outputTurns)).hist (.oLink (linkStart 2 .rngMainRng)) =
      (List.range 2).map fun n =>
        xorSum (List.range' 7 (8 * 2)) (contribution (fun n => stateTransitionFunciton^[n] (INIT_STATE 0)) n) := by
  have hlen : (((network 2 2 (fun n => stateTransitionFunciton^[n] (INIT_STATE 0)) fun _ => 0).run
      (stateTurns ++ outputTurns ++ stateTurns ++ outputTurns)).hist (.oLink (linkStart 2 .rngMainRng))).length = 2 := by
    decide +kernel
  have h := (@souOutput 2 2 (fun n => stateTransitionFunciton^[n] (INIT_STATE 0)) (by decide) (by decide)
    (stateTurns ++ outputTurns ++ stateTurns ++ outputTurns) (by decide +kernel)).1
  rwa [hlen] at h

/-- **Schedules matter through the polls only**: two runs of `rng_instance_1` in which poll `n` of each instance goes
    alike (the same outcome, and if it finds a leaf word, as many found before) agree on word `n` of `o_out`. -/
theorem outcomes_determine (axiDepth : ℕ) (S : ℕ → RngState) (O : ℕ → Rng32) (sched sched' : List (Proc 1)) (n : ℕ)
    (hpolls : ∀ i, SamePoll (((network 1 axiDepth S O).run sched).oracle (.instanceStream 0 i))
      (((network 1 axiDepth S O).run sched').oracle (.instanceStream 0 i)) n) {a b : Rng32}
    (ha : (((network 1 axiDepth S O).run sched).hist (.oLink (.oOut 1)))[n]? = some a)
    (hb : (((network 1 axiDepth S O).run sched').hist (.oLink (.oOut 1)))[n]? = some b) : a = b := by
  rw [hist_eq_stream _ _ _ le_rfl, getElem?_range_map] at ha hb
  have hor : ∀ (k : Fin 1) i, SamePoll (((network 1 axiDepth S O).run sched).oracle (.instanceStream k i))
      (((network 1 axiDepth S O).run sched').oracle (.instanceStream k i)) n := by
    intro k i
    obtain rfl : k = 0 := Subsingleton.elim _ _
    exact hpolls i
  have hstream := stream_congr (S := S) (O := O) hor (.oLink (.oOut 1))
  split at ha <;> simp only [Option.some.injEq, reduceCtorEq] at ha
  split at hb <;> simp only [Option.some.injEq, reduceCtorEq] at hb
  rw [← ha, ← hb, hstream]

/-- The same polls, with the first output word waiting in `o[0]` before any state arrives. -/
theorem outcomes_determine_reordered :
    ∃ a b,
      (((network 1 2 (fun _ => 0) fun _ => 0).run (stateTurns ++ outputTurns)).hist (.oLink (.oOut 1)))[0]? = some a ∧
      (((network 1 2 (fun _ => 0) fun _ => 0).run (outputTurns.take 5 ++ stateTurns ++ outputTurns.drop 5)).hist
        (.oLink (.oOut 1)))[0]? = some b ∧ a = b :=
  ⟨0xa0621328, 0xa0621328, by decide +kernel, by decide +kernel,
    outcomes_determine 2 (fun _ => 0) (fun _ => 0) (stateTurns ++ outputTurns)
      (outputTurns.take 5 ++ stateTurns ++ outputTurns.drop 5) 0 (by decide +kernel) (by decide +kernel)
      (by decide +kernel)⟩

/-- Two runs that poll differently: if the output word overtakes the states, it leaves the kernel as it came. -/
theorem not_schedule_independent :
    ¬ ∀ (S : ℕ → RngState) (O : ℕ → Rng32) (sched sched' : List (Proc 1)) (n : ℕ) (a b : Rng32),
      (((network 1 2 S O).run sched).hist (.oLink (.oOut 1)))[n]? = some a →
      (((network 1 2 S O).run sched').hist (.oLink (.oOut 1)))[n]? = some b → a = b := by
  intro h
  have hlate : (((network 1 2 (fun _ => 0) fun _ => 0).run outputTurns).hist (.oLink (.oOut 1)))[0]? = some 0 := by
    decide +kernel
  have hearly : (((network 1 2 (fun _ => 0) fun _ => 0).run (stateTurns ++ outputTurns)).hist (.oLink (.oOut 1)))[0]? =
      some 0xa0621328 := by
    decide +kernel
  exact absurd (h (fun _ => 0) (fun _ => 0) _ _ 0 _ _ hlate hearly) (by decide)

end ThundeRiNG.Sou
