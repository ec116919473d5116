import Mathlib.Data.Nat.Count
import ThundeRiNG.Rng.Sou

/-!
# What the links of the sequence-output unit carry

Given the outcomes of the polls, every channel carries one stream in every run (`hist_eq_stream`): the state links
and arrays carry the root states, a leaf channel the leaf words of its id, and an output array the passing words
with the contributions of the instances before it (`instanceOut`). The `n`-th poll of an instance that finds
something finds the leaf word numbered by how many polls found one before.
-/

namespace ThundeRiNG.Sou

open Kahn

variable {CUs : ℕ}

/-! ## Ends of the links -/

section
variable (axiDepth : ℕ) (S : ℕ → RngState) (O : ℕ → Rng32)

theorem kernel?_succ (k : Fin CUs) : kernel? CUs (k + 1) = some k := by
  unfold kernel?
  rw [dif_pos ⟨by omega, by omega⟩]
  simp

@[simp] theorem reader_s_last (k : Fin CUs) : (network CUs axiDepth S O).reader (.s k 8) = .sToAxis k :=
  @Fin.lastCases_last 8 (fun _ => Proc CUs) (.sToAxis k) (.leafStateStream k)

@[simp] theorem reader_s (k : Fin CUs) (i : Fin 8) :
    (network CUs axiDepth S O).reader (.s k i.castSucc) = .leafStateStream k i := by
  simp [network]

@[simp] theorem reader_o_last (k : Fin CUs) : (network CUs axiDepth S O).reader (.o k 8) = .oToAxis k :=
  @Fin.lastCases_last 8 (fun _ => Proc CUs) (.oToAxis k) (.instanceStream k)

@[simp] theorem reader_o (k : Fin CUs) (i : Fin 8) :
    (network CUs axiDepth S O).reader (.o k i.castSucc) = .instanceStream k i := by
  simp [network]

@[simp] theorem reader_leafState (k : Fin CUs) (i : Fin 8) :
    (network CUs axiDepth S O).reader (.leafState k i) = .instanceStream k i.rev := rfl

@[simp] theorem writer_s_zero (k : Fin CUs) : (network CUs axiDepth S O).writer (.s k 0) = .sToHls k := rfl

@[simp] theorem writer_s (k : Fin CUs) (i : Fin 8) :
    (network CUs axiDepth S O).writer (.s k i.succ) = .leafStateStream k i := rfl

@[simp] theorem writer_o_zero (k : Fin CUs) : (network CUs axiDepth S O).writer (.o k 0) = .oToHls k := rfl

@[simp] theorem writer_o (k : Fin CUs) (i : Fin 8) :
    (network CUs axiDepth S O).writer (.o k i.succ) = .instanceStream k i := rfl

@[simp] theorem writer_leafState (k : Fin CUs) (i : Fin 8) :
    (network CUs axiDepth S O).writer (.leafState k i) = .leafStateStream k i := rfl

@[simp] theorem writer_sLink (src : Port) : (network CUs axiDepth S O).writer (.sLink src) = stateWriter src := rfl

@[simp] theorem writer_oLink (src : Port) : (network CUs axiDepth S O).writer (.oLink src) = outputWriter src := rfl

@[simp] theorem stateWriter_sOut (k : Fin CUs) : stateWriter (.sOut (k + 1)) = Proc.sToAxis k := by
  simp [stateWriter, kernel?_succ]

@[simp] theorem outputWriter_oOut (k : Fin CUs) : outputWriter (.oOut (k + 1)) = Proc.oToAxis k := by
  simp [outputWriter, kernel?_succ]

/-- A state link is read by the process at its end. -/
theorem reader_sLink_of_mem {a b : Port} (h : (a, b) ∈ streamConnect CUs) :
    (network CUs axiDepth S O).reader (.sLink (linkStart CUs b)) = stateReader b := by
  rw [linkStart_of_mem h]
  exact congrArg stateReader (linkEnd_of_mem h)

theorem reader_oLink_of_mem {a b : Port} (h : (a, b) ∈ streamConnect CUs) :
    (network CUs axiDepth S O).reader (.oLink (linkStart CUs b)) = outputReader b := by
  rw [linkStart_of_mem h]
  exact congrArg outputReader (linkEnd_of_mem h)

@[simp] theorem reader_sIn (k : Fin CUs) :
    (network CUs axiDepth S O).reader (.sLink (linkStart CUs (.sIn (k + 1)))) = .sToHls k := by
  rw [reader_sLink_of_mem axiDepth S O (mem_sIn k)]
  simp [stateReader, kernel?_succ]

@[simp] theorem reader_oIn (k : Fin CUs) :
    (network CUs axiDepth S O).reader (.oLink (linkStart CUs (.oIn (k + 1)))) = .oToHls k := by
  rw [reader_oLink_of_mem axiDepth S O (mem_oIn k)]
  simp [outputReader, kernel?_succ]

@[simp] theorem reader_rngEnd :
    (network CUs axiDepth S O).reader (.sLink (linkStart CUs .rngEndInput)) = .rngEnd :=
  reader_sLink_of_mem axiDepth S O mem_rngEndInput

@[simp] theorem reader_rngMain :
    (network CUs axiDepth S O).reader (.oLink (linkStart CUs .rngMainRng)) = .rngMain :=
  reader_oLink_of_mem axiDepth S O mem_rngMainRng

end

/-- The channels in use: links that some process reads, and the local streams. -/
def Live : Chan CUs → Prop
  | .sLink src => ∃ b, src = linkStart CUs b ∧ (b = .rngEndInput ∨ ∃ k : Fin CUs, b = .sIn (k + 1))
  | .oLink src => ∃ b, src = linkStart CUs b ∧ (b = .rngMainRng ∨ ∃ k : Fin CUs, b = .oIn (k + 1))
  | _ => True

theorem live_sOut (k : Fin CUs) : Live (.sLink (.sOut (k + 1)) : Chan CUs) := by
  by_cases h : k.val + 1 = CUs
  · exact ⟨.rngEndInput, by rw [linkStart_of_mem mem_rngEndInput, h], .inl rfl⟩
  · have hm := mem_sIn (⟨k + 1, by omega⟩ : Fin CUs)
    exact ⟨_, (linkStart_of_mem hm).symm, .inr ⟨_, rfl⟩⟩

theorem live_oOut (k : Fin CUs) : Live (.oLink (.oOut (k + 1)) : Chan CUs) := by
  obtain ⟨k, hk⟩ := k
  cases k with
  | zero => exact ⟨.rngMainRng, (linkStart_of_mem mem_rngMainRng).symm, .inl rfl⟩
  | succ k =>
    have hm := mem_oIn (⟨k, by omega⟩ : Fin CUs)
    rw [if_neg (by simp only; omega)] at hm
    exact ⟨_, (linkStart_of_mem hm).symm, .inr ⟨_, rfl⟩⟩

theorem live_ssrngStateMergeOut (hC : 1 ≤ CUs) : Live (.sLink .ssrngStateMergeOut : Chan CUs) := by
  have hm := mem_sIn (⟨0, hC⟩ : Fin CUs)
  exact ⟨_, (linkStart_of_mem hm).symm, .inr ⟨_, rfl⟩⟩

theorem live_rngStartOutput (hC : 1 ≤ CUs) : Live (.oLink .rngStartOutput : Chan CUs) := by
  have hm := mem_oIn (⟨CUs - 1, by omega⟩ : Fin CUs)
  rw [if_pos (by simp only; omega)] at hm
  exact ⟨_, (linkStart_of_mem hm).symm, .inr ⟨_, rfl⟩⟩

/-! ## The streams -/

/-- The decorrelator of an instance after `n` steps. -/
def sgState (id n : ℕ) : Rng32 := xorshiftjump^[n] (tmpXor32S.getD id 0)

/-- The leaf word of stream `id` for root state `n`. -/
def leafWord (S : ℕ → RngState) (id n : ℕ) : Rng32 := outputFunction (multiStream (S n) (BitVec.ofNat 64 (54 + id)))

/-- How many of the first `n` polls found a word. -/
def found (orc : ℕ → Bool) (n : ℕ) : ℕ := Nat.count (orc · = true) n

theorem found_succ (orc : ℕ → Bool) (n : ℕ) : found orc (n + 1) = found orc n + if orc n then 1 else 0 :=
  Nat.count_succ _ _

/-- What `instance` makes of the words `X`, given its leaf words and the outcomes of its polls. -/
def instanceOut (orc : ℕ → Bool) (id : ℕ) (leaf X : ℕ → Rng32) (n : ℕ) : Rng32 :=
  if orc n then applicationFunction (sgState id (n + 1) ^^^ leaf (found orc n)) (X n) else X n

section
variable (S : ℕ → RngState) (O : ℕ → Rng32) (orc : Proc CUs → ℕ → Bool)

/-- The stream of `o[i]` in kernel `k`, of the stream `X` on its `o_in`. -/
def kernelOut (k : Fin CUs) (X : ℕ → Rng32) (i : Fin 9) : ℕ → Rng32 :=
  Fin.induction (motive := fun _ => ℕ → Rng32) X
    (fun i Y => instanceOut (orc (.instanceStream k i)) (instanceId k i) (leafWord S (instanceId k i.rev)) Y) i

/-- The output stream after `j` kernels, counted from `rng_start`. -/
def passed : ℕ → ℕ → Rng32
  | 0 => O
  | j + 1 => if h : j < CUs then kernelOut S orc (Fin.rev ⟨j, h⟩) (passed j) 8 else passed j

def stream : (c : Chan CUs) → ℕ → Token c
  | .s _ _ => S
  | .sLink _ => S
  | .leafState k i => leafWord S (instanceId k i)
  | .o k i => kernelOut S orc k (passed S O orc k.rev) i
  | .oLink (.oOut j) => passed S O orc (CUs + 1 - j)
  | .oLink _ => O

@[simp] theorem kernelOut_zero (k : Fin CUs) (X : ℕ → Rng32) : kernelOut S orc k X 0 = X := rfl

@[simp] theorem kernelOut_succ (k : Fin CUs) (X : ℕ → Rng32) (i : Fin 8) :
    kernelOut S orc k X i.succ =
      instanceOut (orc (.instanceStream k i)) (instanceId k i) (leafWord S (instanceId k i.rev))
        (kernelOut S orc k X i.castSucc) := rfl

/-- Kernel `k` passes on what it made of what came in. -/
theorem passed_succ (k : Fin CUs) :
    passed S O orc (k.rev + 1) = kernelOut S orc k (passed S O orc k.rev) 8 := by
  rw [passed, dif_pos k.rev.isLt, Fin.eta, Fin.rev_rev]

theorem stream_oOut (k : Fin CUs) : stream S O orc (.oLink (.oOut (k + 1))) = stream S O orc (.o k 8) := by
  have hk : CUs + 1 - (k + 1) = k.rev + 1 := by simp only [Fin.val_rev]; omega
  rw [stream, stream, ← passed_succ, hk]

theorem stream_oIn (k : Fin CUs) :
    stream S O orc (.oLink (linkStart CUs (.oIn (k + 1)))) = stream S O orc (.o k 0) := by
  rw [linkStart_of_mem (mem_oIn k)]
  by_cases h : k.val + 1 = CUs
  · have hk : (k.rev : ℕ) = 0 := by simp only [Fin.val_rev]; omega
    rw [if_pos h, stream, stream, kernelOut_zero, hk, passed]
    simp
  · have hk : CUs + 1 - (k + 2) = k.rev := by simp only [Fin.val_rev]; omega
    rw [if_neg h, stream, stream, kernelOut_zero, hk]

end

/-! ## Every process keeps to the streams -/

section
variable (axiDepth : ℕ) (S : ℕ → RngState) (O : ℕ → Rng32) (orc : Proc CUs → ℕ → Bool)

/-- Before its pass `i`, a process has used each of its channels `i` times; a leaf channel only as often as the polls
    have found a word. -/
def Round : (p : Proc CUs) → ℕ → Static p → Counts (Chan CUs) → Prop
  | .ssrngStateMerge, i, s, n => s = i ∧ n.wr (.sLink .ssrngStateMergeOut) = i
  | .rngStart, i, s, n => s = i ∧ n.wr (.oLink .rngStartOutput) = i
  | .rngEnd, i, _, n => n.rd (.sLink (linkStart CUs .rngEndInput)) = i
  | .rngMain, i, _, n => n.rd (.oLink (linkStart CUs .rngMainRng)) = i
  | .sToHls k, i, _, n => n.rd (.sLink (linkStart CUs (.sIn (k + 1)))) = i ∧ n.wr (.s k 0) = i
  | .oToHls k, i, _, n => n.rd (.oLink (linkStart CUs (.oIn (k + 1)))) = i ∧ n.wr (.o k 0) = i
  | .leafStateStream k l, i, _, n =>
    n.rd (.s k l.castSucc) = i ∧ n.wr (.s k l.succ) = i ∧ n.wr (.leafState k l) = i
  | .instanceStream k l, i, s, n =>
    s = sgState (instanceId k l) i ∧ n.rd (.o k l.castSucc) = i ∧ n.wr (.o k l.succ) = i ∧
      n.rd (.leafState k l.rev) = found (orc (.instanceStream k l)) i ∧ n.polls = i
  | .sToAxis k, i, _, n => n.rd (.s k 8) = i ∧ n.wr (.sLink (.sOut (k + 1))) = i
  | .oToAxis k, i, _, n => n.rd (.o k 8) = i ∧ n.wr (.oLink (.oOut (k + 1))) = i

/-- What pass `i` of a process asks of the others. -/
structure Served (G : Guard (Chan CUs)) (p : Proc CUs) (i : ℕ) : Prop where
  read : ∀ c, Live c → (network CUs axiDepth S O).reader c = p → (∀ k l, c ≠ .leafState k l) → G.read c i
  write : ∀ c, Live c → (network CUs axiDepth S O).writer c = p → G.write c i
  poll : ∀ k l, p = .instanceStream k l →
    if orc p i then G.read (.leafState k l.rev) (found (orc p) i) else G.miss (.leafState k l.rev) (found (orc p) i)

variable {axiDepth S O orc} {G : Guard (Chan CUs)} {i : ℕ} {n : Counts (Chan CUs)}

theorem init_round (p : Proc CUs) : Round orc p 0 ((network CUs axiDepth S O).init p) .zero := by
  cases p <;> simp [Round, network, sgState, found]

theorem conf_leafStateStream {k : Fin CUs} {l : Fin 8} (hG : Served axiDepth S O orc G (.leafStateStream k l) i)
    (h : Round orc (.leafStateStream k l) i () n) :
    Conf (network CUs axiDepth S O) (stream S O orc) orc G (.leafStateStream k l)
      ((network CUs axiDepth S O).body (.leafStateStream k l) ()) n (Round orc (.leafStateStream k l) (i + 1)) := by
  obtain ⟨hrd, hwr, hleaf⟩ := h
  have hr := hG.read (.s k l.castSucc) trivial (by simp) (by simp)
  have hw := hG.write (.s k l.succ) trivial (by simp)
  have hl := hG.write (.leafState k l) trivial (by simp)
  simp only [network, leafStateStream, conf_bind, conf_get, conf_put]
  simp [hrd, hwr, hleaf, hr, hw, hl, Round, stream, leafWord]

theorem conf_instanceStream {k : Fin CUs} {l : Fin 8} {s : Rng32}
    (hG : Served axiDepth S O orc G (.instanceStream k l) i) (h : Round orc (.instanceStream k l) i s n) :
    Conf (network CUs axiDepth S O) (stream S O orc) orc G (.instanceStream k l)
      ((network CUs axiDepth S O).body (.instanceStream k l) s) n (Round orc (.instanceStream k l) (i + 1)) := by
  obtain ⟨rfl, hrd, hwr, hleaf, hpolls⟩ := h
  have hr := hG.read (.o k l.castSucc) trivial (by simp) (by simp)
  have hw := hG.write (.o k l.succ) trivial (by simp)
  have hp := hG.poll k l rfl
  have hstep : xorshiftjump (sgState (instanceId k l) i) = sgState (instanceId k l) (i + 1) :=
    (Function.iterate_succ_apply' _ _ _).symm
  simp only [network, instanceStream, conf_bind, conf_get, conf_poll]
  by_cases ho : orc (.instanceStream k l) i
  · rw [if_pos ho] at hp
    simp [hrd, hwr, hleaf, hpolls, hr, hw, hp, ho, hstep, Round, stream, conf_put, conf_pure, instanceOut, found_succ]
  · rw [if_neg ho] at hp
    simp [hrd, hwr, hleaf, hpolls, hr, hw, hp, ho, hstep, Round, stream, conf_put, conf_pure, instanceOut, found_succ]

/-- The specification of a pass of any process. -/
theorem conf_body (hC : 1 ≤ CUs) {p : Proc CUs} {s : Static p} (hG : Served axiDepth S O orc G p i)
    (h : Round orc p i s n) :
    Conf (network CUs axiDepth S O) (stream S O orc) orc G p ((network CUs axiDepth S O).body p s) n
      (Round orc p (i + 1)) := by
  have hr := hG.read
  have hw := hG.write
  cases p with
  | ssrngStateMerge =>
    obtain ⟨rfl, hwr⟩ := h
    exact conf_tokenSource rfl (hw _ (live_ssrngStateMergeOut hC) rfl) hwr rfl (by simp [Round, hwr])
  | rngStart =>
    obtain ⟨rfl, hwr⟩ := h
    exact conf_tokenSource rfl (hw _ (live_rngStartOutput hC) rfl) hwr rfl (by simp [Round, hwr])
  | rngEnd =>
    have hrd : n.rd (.sLink (linkStart CUs .rngEndInput)) = i := h
    have ha : (network CUs axiDepth S O).reader _ = .rngEnd := reader_rngEnd axiDepth S O
    exact conf_sinkStream ha (hr _ ⟨_, rfl, .inl rfl⟩ ha (by simp)) hrd (by simp [Round, hrd])
  | rngMain =>
    have hrd : n.rd (.oLink (linkStart CUs .rngMainRng)) = i := h
    have ha : (network CUs axiDepth S O).reader _ = .rngMain := reader_rngMain axiDepth S O
    exact conf_sinkStream ha (hr _ ⟨_, rfl, .inl rfl⟩ ha (by simp)) hrd (by simp [Round, hrd])
  | sToHls k =>
    obtain ⟨hrd, hwr⟩ := h
    have ha := reader_sIn axiDepth S O k
    exact conf_axisToHlsStream ha rfl (hr _ ⟨_, rfl, .inr ⟨k, rfl⟩⟩ ha (by simp)) (hw (.s k 0) trivial rfl) hrd hwr rfl
      (by simp [Round, hrd, hwr])
  | oToHls k =>
    obtain ⟨hrd, hwr⟩ := h
    have ha := reader_oIn axiDepth S O k
    have hout := congrFun (stream_oIn S O orc k) i
    exact conf_axisToHlsStream ha rfl (hr _ ⟨_, rfl, .inr ⟨k, rfl⟩⟩ ha (by simp)) (hw (.o k 0) trivial rfl) hrd hwr
      (congrArg _ hout) (by simp [Round, hrd, hwr])
  | leafStateStream k l => exact conf_leafStateStream hG h
  | instanceStream k l => exact conf_instanceStream hG h
  | sToAxis k =>
    obtain ⟨hrd, hwr⟩ := h
    have ha := reader_s_last axiDepth S O k
    have hb : (network CUs axiDepth S O).writer (.sLink (.sOut (k + 1))) = .sToAxis k := stateWriter_sOut k
    exact conf_hlsToAxisStream ha hb (hr (.s k 8) trivial ha (by simp)) (hw _ (live_sOut k) hb) hrd hwr rfl
      (by simp [Round, hrd, hwr])
  | oToAxis k =>
    obtain ⟨hrd, hwr⟩ := h
    have ha := reader_o_last axiDepth S O k
    have hb : (network CUs axiDepth S O).writer (.oLink (.oOut (k + 1))) = .oToAxis k := outputWriter_oOut k
    have hout := congrFun (stream_oOut S O orc k).symm i
    exact conf_hlsToAxisStream ha hb (hr (.o k 8) trivial ha (by simp)) (hw _ (live_oOut k) hb) hrd hwr
      (congrArg _ hout) (by simp [Round, hrd, hwr])

/-- When nothing is asked of the others, every pass is served. -/
theorem served_free (p : Proc CUs) (i : ℕ) : Served axiDepth S O orc .free p i := by
  constructor
  · intro _ _ _ _; exact trivial
  · intro _ _ _; exact trivial
  · intro _ _ _; split <;> exact trivial

/-- **Streams**: in every run each channel has carried a prefix of its stream, the one that the outcomes of the polls
    determine. -/
theorem hist_eq_stream (axiDepth : ℕ) (S : ℕ → RngState) (O : ℕ → Rng32) (hC : 1 ≤ CUs) (sched : List (Proc CUs))
    (c : Chan CUs) :
    ((network CUs axiDepth S O).run sched).hist c =
      (List.range (((network CUs axiDepth S O).run sched).hist c).length).map
        (stream S O ((network CUs axiDepth S O).run sched).oracle c) :=
  hist_eq init_round sched (fun p i _ _ h => conf_body hC (served_free p i) h) c

end

end ThundeRiNG.Sou
