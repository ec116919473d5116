import ThundeRiNG.Lib.Kahn
import ThundeRiNG.Lib.XorSum
import ThundeRiNG.Rng.Streams
import ThundeRiNG.Rng.Xor32s

/-!
# The merged sequence-output unit (`fpga/rng/src/soum/rng_instance_1.cpp`)

`NRNG` = 64 `soum_instance`s in a chain; each passes the state on, derives the leaf word itself and xors it and its
decorrelator into the passing word. All reads block, so the schedule has no say in what the streams are
(`hist_eq_stream`).

The instances are told apart by their `id` (`:21`, `function_instantiate variable=id`), but the loop that builds the
chain hands every one of them the literal `0` (`:70`), where the split unit hands `i`
(`sou/rng_instance_1.cpp:146-147`). Sixty-four equal contributions cancel: a word leaves the unit as it came
(`stream_oOut`). So the unit gives what a chain of the streams 0, …, 63 would give exactly where the contributions
of these cancel, too (`soumOutput_iff`).

| here | there |
| --- | --- |
| `soumInstance` | `soum_instance` (`:13-40`) |
| `instanceId`   | the `id` that the loop hands to an instance (`:70`) |
| `network`      | `rng_instance_1` (`:50-75`) with an environment at its four ports |
| `Chan.s`, `.o` | the local arrays of streams, of length `NRNG + 1` and depth 2 |
-/

namespace ThundeRiNG.Soum

open Kahn Gf2

inductive Chan where
  | sIn
  | sOut
  | oIn
  | oOut
  | s (i : Fin 65)
  | o (i : Fin 65)
deriving DecidableEq

inductive Proc where
  | stateSource
  | outputSource
  | stateSink
  | outputSink
  | sToHls
  | oToHls
  | soumInstance (i : Fin 64)
  | sToAxis
  | oToAxis
deriving DecidableEq

abbrev Token : Chan → Type
  | .sIn | .sOut | .s _ => RngState
  | .oIn | .oOut | .o _ => Rng32

abbrev Static : Proc → Type
  | .stateSource | .outputSource => ℕ
  | .soumInstance _ => Rng32
  | _ => Unit

def soumInstance (sIn : Prog Token RngState) (sOut : RngState → Prog Token Unit) (oIn : Prog Token Rng32)
    (oOut : Rng32 → Prog Token Unit) (id : ℕ) (sg_state : Rng32) : Prog Token Rng32 := do
  let s_pkt ← sIn
  sOut s_pkt
  let o_pkg ← oIn
  let oldstate := s_pkt
  let update := multiStream oldstate (BitVec.ofNat 64 (54 + id))
  let rng := pcgOutputXshRs6432 update
  let sg := xorshiftjump sg_state
  let output := sg ^^^ rng
  oOut (applicationFunction output o_pkg)
  return sg

/-- The id that the loop hands to instance `i` (`:70`). -/
def instanceId (_ : Fin 64) : ℕ := 0

def network (axiDepth : ℕ) (S : ℕ → RngState) (O : ℕ → Rng32) : Network Token Proc where
  S := Static
  init
    | .stateSource => 0
    | .outputSource => 0
    | .soumInstance i => tmpXor32S.getD (instanceId i) 0
    | .stateSink => ()
    | .outputSink => ()
    | .sToHls => ()
    | .oToHls => ()
    | .sToAxis => ()
    | .oToAxis => ()
  body
    | .stateSource => tokenSource (.put (V := Token) .sIn) S
    | .outputSource => tokenSource (.put (V := Token) .oIn) O
    | .stateSink => fun _ => sinkStream (.get (V := Token) .sOut)
    | .outputSink => fun _ => sinkStream (.get (V := Token) .oOut)
    | .sToHls => fun _ => axisToHlsStream (.get (V := Token) .sIn) (.put (V := Token) (.s 0))
    | .oToHls => fun _ => axisToHlsStream (.get (V := Token) .oIn) (.put (V := Token) (.o 0))
    | .soumInstance i =>
      soumInstance (.get (V := Token) (.s i.castSucc)) (.put (V := Token) (.s i.succ))
        (.get (V := Token) (.o i.castSucc)) (.put (V := Token) (.o i.succ)) (instanceId i)
    | .sToAxis => fun _ => hlsToAxisStream (.get (V := Token) (.s 64)) (.put (V := Token) .sOut)
    | .oToAxis => fun _ => hlsToAxisStream (.get (V := Token) (.o 64)) (.put (V := Token) .oOut)
  depth
    | .s _ => 2
    | .o _ => 2
    | _ => axiDepth
  reader
    | .sIn => .sToHls
    | .sOut => .stateSink
    | .oIn => .oToHls
    | .oOut => .outputSink
    | .s i => Fin.lastCases .sToAxis .soumInstance i
    | .o i => Fin.lastCases .oToAxis .soumInstance i
  writer
    | .sIn => .stateSource
    | .sOut => .sToAxis
    | .oIn => .outputSource
    | .oOut => .oToAxis
    | .s i => Fin.cases .sToHls .soumInstance i
    | .o i => Fin.cases .oToHls .soumInstance i

/-! ## Ends of the channels -/

section
variable (axiDepth : ℕ) (S : ℕ → RngState) (O : ℕ → Rng32)

@[simp] theorem reader_s_last : (network axiDepth S O).reader (.s 64) = .sToAxis :=
  @Fin.lastCases_last 64 (fun _ => Proc) .sToAxis .soumInstance

@[simp] theorem reader_s (l : Fin 64) : (network axiDepth S O).reader (.s l.castSucc) = .soumInstance l := by
  simp [network]

@[simp] theorem reader_o_last : (network axiDepth S O).reader (.o 64) = .oToAxis :=
  @Fin.lastCases_last 64 (fun _ => Proc) .oToAxis .soumInstance

@[simp] theorem reader_o (l : Fin 64) : (network axiDepth S O).reader (.o l.castSucc) = .soumInstance l := by
  simp [network]

@[simp] theorem writer_s_zero : (network axiDepth S O).writer (.s 0) = .sToHls := rfl

@[simp] theorem writer_s (l : Fin 64) : (network axiDepth S O).writer (.s l.succ) = .soumInstance l := rfl

@[simp] theorem writer_o_zero : (network axiDepth S O).writer (.o 0) = .oToHls := rfl

@[simp] theorem writer_o (l : Fin 64) : (network axiDepth S O).writer (.o l.succ) = .soumInstance l := rfl

end

/-! ## The streams -/

/-- What stream `id` would add to word `n`. -/
def contribution (S : ℕ → RngState) (n id : ℕ) : Rng32 :=
  xorshiftjump^[n + 1] (tmpXor32S.getD id 0) ^^^ pcgOutputXshRs6432 (multiStream (S n) (BitVec.ofNat 64 (54 + id)))

section
variable (axiDepth : ℕ) (S : ℕ → RngState) (O : ℕ → Rng32) (orc : Proc → ℕ → Bool)

def stream : (c : Chan) → ℕ → Token c
  | .sIn => S
  | .sOut => S
  | .s _ => S
  | .oIn => O
  | .o i => fun n => O n ^^^ xorSum (List.range i) fun _ => contribution S n 0
  | .oOut => fun n => O n ^^^ xorSum (List.range 64) fun _ => contribution S n 0

/-- Before its pass `i`, a process has used each of its channels `i` times. -/
def Round : (p : Proc) → ℕ → Static p → Counts Chan → Prop
  | .stateSource, i, s, n => s = i ∧ n.wr .sIn = i
  | .outputSource, i, s, n => s = i ∧ n.wr .oIn = i
  | .stateSink, i, _, n => n.rd .sOut = i
  | .outputSink, i, _, n => n.rd .oOut = i
  | .sToHls, i, _, n => n.rd .sIn = i ∧ n.wr (.s 0) = i
  | .oToHls, i, _, n => n.rd .oIn = i ∧ n.wr (.o 0) = i
  | .soumInstance l, i, s, n =>
    s = xorshiftjump^[i] (tmpXor32S.getD 0 0) ∧ n.rd (.s l.castSucc) = i ∧ n.wr (.s l.succ) = i ∧
      n.rd (.o l.castSucc) = i ∧ n.wr (.o l.succ) = i
  | .sToAxis, i, _, n => n.rd (.s 64) = i ∧ n.wr .sOut = i
  | .oToAxis, i, _, n => n.rd (.o 64) = i ∧ n.wr .oOut = i

variable {axiDepth S O orc} {G : Guard Chan} {i : ℕ} {n : Counts Chan}

theorem init_round (p : Proc) : Round p 0 ((network axiDepth S O).init p) .zero := by
  cases p <;> simp [Round, network, instanceId]

/-- Sixty-four equal contributions are none. -/
theorem stream_oOut (n : ℕ) : stream S O .oOut n = O n :=
  (congrArg (O n ^^^ ·) (xorSum_const_even 32 _)).trans (xor_zero _)

/-- An instance adds the contribution of stream 0, whichever it is. -/
theorem stream_o_succ (l : Fin 64) (m : ℕ) :
    stream S O (.o l.succ) m = applicationFunction (contribution S m 0) (stream S O (.o l.castSucc) m) := by
  unfold applicationFunction
  simp only [stream, Fin.val_succ, Fin.val_castSucc]
  rw [List.range_succ, xorSum_concat, ← xor_assoc, LawfulXor.xor_comm]

/-! ## Every process keeps to the streams -/

/-- What pass `i` of a process asks of the others. -/
structure Served (axiDepth : ℕ) (S : ℕ → RngState) (O : ℕ → Rng32) (G : Guard Chan) (p : Proc) (i : ℕ) : Prop where
  read : ∀ c, (network axiDepth S O).reader c = p → G.read c i
  write : ∀ c, (network axiDepth S O).writer c = p → G.write c i

theorem conf_soumInstance {l : Fin 64} {s : Rng32} (hG : Served axiDepth S O G (.soumInstance l) i)
    (h : Round (.soumInstance l) i s n) :
    Conf (network axiDepth S O) (stream S O) orc G (.soumInstance l)
      ((network axiDepth S O).body (.soumInstance l) s) n (Round (.soumInstance l) (i + 1)) := by
  obtain ⟨rfl, hs, hs', ho, ho'⟩ := h
  have hrs := hG.read (.s l.castSucc) (by simp)
  have hws := hG.write (.s l.succ) (by simp)
  have hro := hG.read (.o l.castSucc) (by simp)
  have hwo := hG.write (.o l.succ) (by simp)
  have hstep : xorshiftjump (xorshiftjump^[i] (tmpXor32S.getD 0 0)) = xorshiftjump^[i + 1] (tmpXor32S.getD 0 0) :=
    (Function.iterate_succ_apply' _ _ _).symm
  refine conf_bind.2 ⟨reader_s .., by rwa [hs], conf_bind.2 (conf_put.2 ⟨writer_s .., ?_, ?_, conf_bind.2
    ⟨reader_o .., ?_, conf_bind.2 (conf_put.2 ⟨writer_o .., ?_, ?_, hstep, ?_⟩)⟩⟩)⟩
  · simpa [hs'] using hws
  · simp [hs, hs', stream]
  · simpa [ho] using hro
  · simpa [ho'] using hwo
  · simp only [Counts.addWr_rd, Counts.addWr_wr, Counts.addRd_rd, Counts.addRd_wr, reduceCtorEq, if_false, hs, ho, ho',
      stream_o_succ, hstep]
    rfl
  · simp [hs, hs', ho, ho']

/-- The specification of a pass of any process. -/
theorem conf_body {p : Proc} {s : Static p} (hG : Served axiDepth S O G p i) (h : Round p i s n) :
    Conf (network axiDepth S O) (stream S O) orc G p ((network axiDepth S O).body p s) n (Round p (i + 1)) := by
  have hr := hG.read
  have hw := hG.write
  cases p with
  | stateSource =>
    obtain ⟨rfl, hwr⟩ := h
    exact conf_tokenSource rfl (hw .sIn rfl) hwr rfl (by simp [Round, hwr])
  | outputSource =>
    obtain ⟨rfl, hwr⟩ := h
    exact conf_tokenSource rfl (hw .oIn rfl) hwr rfl (by simp [Round, hwr])
  | stateSink =>
    have hrd : n.rd .sOut = i := h
    exact conf_sinkStream rfl (hr .sOut rfl) hrd (by simp [Round, hrd])
  | outputSink =>
    have hrd : n.rd .oOut = i := h
    exact conf_sinkStream rfl (hr .oOut rfl) hrd (by simp [Round, hrd])
  | sToHls =>
    obtain ⟨hrd, hwr⟩ := h
    exact conf_axisToHlsStream rfl (writer_s_zero ..) (hr .sIn rfl) (hw (.s 0) rfl) hrd hwr rfl
      (by simp [Round, hrd, hwr])
  | oToHls =>
    obtain ⟨hrd, hwr⟩ := h
    have hout : stream S O .oIn i = stream S O (.o 0) i := by simp [stream]
    exact conf_axisToHlsStream rfl (writer_o_zero ..) (hr .oIn rfl) (hw (.o 0) rfl) hrd hwr (congrArg _ hout)
      (by simp [Round, hrd, hwr])
  | soumInstance l => exact conf_soumInstance hG h
  | sToAxis =>
    obtain ⟨hrd, hwr⟩ := h
    have ha := reader_s_last axiDepth S O
    exact conf_hlsToAxisStream ha rfl (hr (.s 64) ha) (hw .sOut rfl) hrd hwr rfl (by simp [Round, hrd, hwr])
  | oToAxis =>
    obtain ⟨hrd, hwr⟩ := h
    have ha := reader_o_last axiDepth S O
    exact conf_hlsToAxisStream ha rfl (hr (.o 64) ha) (hw .oOut rfl) hrd hwr rfl (by simp [Round, hrd, hwr])

/-- **Streams**: in every run each channel has carried a prefix of its stream. -/
theorem hist_eq_stream (axiDepth : ℕ) (S : ℕ → RngState) (O : ℕ → Rng32) (sched : List Proc) (c : Chan) :
    ((network axiDepth S O).run sched).hist c =
      (List.range (((network axiDepth S O).run sched).hist c).length).map (stream S O c) :=
  hist_eq (G := .free) init_round sched (fun _ _ _ _ => conf_body ⟨fun _ _ => trivial, fun _ _ => trivial⟩) c

end

/-! ## Passes and the order of the processes -/

section
variable {axiDepth : ℕ} {S : ℕ → RngState} {O : ℕ → Rng32}
  {p : Proc} {i : ℕ} {s : Static p} {n : Counts Chan} {c : Chan}

theorem round_rd (h : Round p i s n) (hp : (network axiDepth S O).reader c = p) : n.rd c = i := by
  cases c with
  | sIn => subst hp; exact h.1
  | sOut => subst hp; exact h
  | oIn => subst hp; exact h.1
  | oOut => subst hp; exact h
  | s l =>
    cases l using Fin.lastCases with
    | last => obtain rfl := (reader_s_last axiDepth S O).symm.trans hp; exact h.1
    | cast l => rw [reader_s] at hp; subst hp; exact h.2.1
  | o l =>
    cases l using Fin.lastCases with
    | last => obtain rfl := (reader_o_last axiDepth S O).symm.trans hp; exact h.1
    | cast l => rw [reader_o] at hp; subst hp; exact h.2.2.2.1

theorem round_wr (h : Round p i s n) (hp : (network axiDepth S O).writer c = p) : n.wr c = i := by
  cases c with
  | sIn => subst hp; exact h.2
  | sOut => subst hp; exact h.2
  | oIn => subst hp; exact h.2
  | oOut => subst hp; exact h.2
  | s l =>
    cases l using Fin.cases with
    | zero => rw [writer_s_zero] at hp; subst hp; exact h.2
    | succ l => rw [writer_s] at hp; subst hp; exact h.2.2.1
  | o l =>
    cases l using Fin.cases with
    | zero => rw [writer_o_zero] at hp; subst hp; exact h.2
    | succ l => rw [writer_o] at hp; subst hp; exact h.2.2.2.2

/-- A turn order: down the chain. -/
def rank : Proc → ℕ
  | .stateSource => 0
  | .outputSource => 1
  | .sToHls => 2
  | .oToHls => 3
  | .soumInstance l => 4 + l
  | .sToAxis => 68
  | .oToAxis => 69
  | .stateSink => 70
  | .outputSink => 71

theorem rank_lt (p : Proc) : rank p < 72 := by
  cases p <;> simp only [rank] <;> omega

theorem le_rank_reader_s (l : Fin 65) : 4 + l ≤ rank ((network axiDepth S O).reader (.s l)) := by
  cases l using Fin.lastCases with
  | last => exact (congrArg rank (reader_s_last axiDepth S O)).ge
  | cast l => rw [reader_s]; exact le_rfl

theorem rank_writer_s_lt (l : Fin 65) : rank ((network axiDepth S O).writer (.s l)) < 4 + l := by
  cases l using Fin.cases with
  | zero => rw [writer_s_zero]; decide
  | succ l => rw [writer_s, rank, Fin.val_succ]; omega

theorem le_rank_reader_o (l : Fin 65) : 4 + l ≤ rank ((network axiDepth S O).reader (.o l)) := by
  cases l using Fin.lastCases with
  | last =>
    refine le_trans ?_ (congrArg rank (reader_o_last axiDepth S O)).ge
    decide
  | cast l => rw [reader_o]; exact le_rfl

theorem rank_writer_o_lt (l : Fin 65) : rank ((network axiDepth S O).writer (.o l)) < 4 + l := by
  cases l using Fin.cases with
  | zero => rw [writer_o_zero]; decide
  | succ l => rw [writer_o, rank, Fin.val_succ]; omega

/-- Every channel is written before it is read. -/
theorem rank_writer_lt_reader (c : Chan) :
    rank ((network axiDepth S O).writer c) < rank ((network axiDepth S O).reader c) := by
  cases c with
  | sIn | sOut | oIn | oOut => simp [network, rank]
  | s l => exact (rank_writer_s_lt l).trans_le (le_rank_reader_s l)
  | o l => exact (rank_writer_o_lt l).trans_le (le_rank_reader_o l)

end

/-! ## The words on `o_out` -/

/-- **The merged chain**: word `k` is what the chain of the streams 0, …, 63 would give exactly when the contributions
    of these to word `k` cancel. -/
theorem soumOutput_iff (axiDepth : ℕ) (S : ℕ → RngState) (O : ℕ → Rng32) (sched : List Proc)
    (k : Fin (((network axiDepth S O).run sched).hist .oOut).length) :
    (((network axiDepth S O).run sched).hist .oOut)[k] = O k ^^^ xorSum (List.range 64) (contribution S k) ↔
      xorSum (List.range 64) (contribution S k) = 0 := by
  have hk : (((network axiDepth S O).run sched).hist .oOut)[k] = O k := by
    have h := congrArg (·[k.val]?) (hist_eq_stream axiDepth S O sched .oOut)
    simp only [getElem?_range_map, if_pos k.isLt, stream_oOut, List.getElem?_eq_getElem k.isLt, Option.some.injEq] at h
    exact h
  rw [hk]
  constructor
  · intro h
    exact (BitVec.xor_right_inj (O k)).1 (h.symm.trans (xor_zero (O k)).symm)
  · intro h
    rw [h, xor_zero]

/-- One pass of every process, up to `o_out`. -/
def turns : List Proc :=
  List.replicate 2 .stateSource ++ List.replicate 3 .sToHls ++ List.replicate 2 .outputSource ++
    List.replicate 3 .oToHls ++ (List.finRange 64).flatMap (fun i => List.replicate 5 (.soumInstance i)) ++
    List.replicate 3 .oToAxis

theorem not_soumOutput :
    ¬ ∀ (axiDepth : ℕ) (S : ℕ → RngState) (O : ℕ → Rng32) (sched : List Proc) (k : ℕ) (v : Rng32),
      (((network axiDepth S O).run sched).hist .oOut)[k]? = some v →
        v = O k ^^^ xorSum (List.range 64) (contribution S k) := by
  intro h
  have hrun : (((network 2 (fun _ => 0) fun _ => 0).run turns).hist .oOut)[0]? = some 0 := by decide +kernel
  have hclaim : (0 : Rng32) ^^^ xorSum (List.range 64) (contribution (fun _ => 0) 0) = 0xba04d5f7 := by decide +kernel
  have h0 := h 2 (fun _ => 0) (fun _ => 0) turns 0 0 hrun
  rw [hclaim] at h0
  exact absurd h0 (by decide)

end ThundeRiNG.Soum
