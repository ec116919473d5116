import Mathlib.Algebra.BigOperators.Fin
import ThundeRiNG.Rng.SouOutput

/-!
# No token is lost or used twice in a kernel (`sou/template/template_rng_instance.cpp:71-155`)

Every process that moves output words reads one, may poll, and writes one: it holds a word exactly while it stands
at its poll or its write (`held`). Counted at every such point (`Books`), reads and writes balance process by
process, and FIFO by FIFO in between, so they balance over the whole kernel in any configuration that a schedule
can reach.
-/

namespace ThundeRiNG.Sou

open Kahn

variable {CUs : ℕ}

section
variable {Chan A : Type} {V : Chan → Type}

/-- The words that a process which reads, polls and writes has read and not written. -/
def held : Prog V A → ℕ
  | .ret _ => 0
  | .read _ _ => 0
  | .readNb _ _ => 1
  | .write _ _ _ => 1

/-- What has been read from `a` is held or has been written to `b`. -/
def Balanced (a b : Chan) (x : Prog V A) (n : Counts Chan) : Prop := held x + n.wr b = n.rd a

variable [DecidableEq Chan] {σ : (c : Chan) → ℕ → V c} {orc : ℕ → Bool} {n : Counts Chan} {a b : Chan}

/-- A relay is balanced at each of its three points, if it is before its pass. -/
theorem along_balanced_axisToHlsStream {out : V a → Prog V Unit} {f : V a → V b} (hout : ∀ v, out v = .put b (f v))
    (h : n.wr b = n.rd a) : Along σ orc (Balanced a b) (axisToHlsStream (.get a) out) n := by
  unfold axisToHlsStream
  rw [along_get_bind, hout, along_put]
  simp only [Balanced, held, Counts.addRd_wr, Counts.addRd_rd, Counts.addWr_wr, Counts.addWr_rd, if_true]
  omega

theorem along_balanced_hlsToAxisStream {out : V a → Prog V Unit} {f : V a → V b} (hout : ∀ v, out v = .put b (f v))
    (h : n.wr b = n.rd a) : Along σ orc (Balanced a b) (hlsToAxisStream (.get a) out) n :=
  along_balanced_axisToHlsStream hout h

end

/-- The link into the port, as a channel. -/
def sIn (k : Fin CUs) : Chan CUs := .sLink (linkStart CUs (.sIn (k + 1)))
def oIn (k : Fin CUs) : Chan CUs := .oLink (linkStart CUs (.oIn (k + 1)))
def sOut (k : Fin CUs) : Chan CUs := .sLink (.sOut (k + 1))
def oOut (k : Fin CUs) : Chan CUs := .oLink (.oOut (k + 1))

section
variable (orc : Proc CUs → ℕ → Bool)

/-- What the counts of a process satisfy at every point of its passes. -/
def Books : (p : Proc CUs) → Prog (Token : Chan CUs → Type) (Static p) → Counts (Chan CUs) → Prop
  | .sToHls k, x, n => Balanced (sIn k) (.s k 0) x n
  | .oToHls k, x, n => Balanced (oIn k) (.o k 0) x n
  | .leafStateStream k l, _, n =>
    n.wr (.s k l.succ) ≤ n.rd (.s k l.castSucc) ∧ n.wr (.leafState k l) ≤ n.rd (.s k l.castSucc)
  | .instanceStream k l, x, n =>
    Balanced (.o k l.castSucc) (.o k l.succ) x n ∧ n.wr (.o k l.succ) ≤ n.polls ∧
      n.rd (.leafState k l.rev) = found (orc (.instanceStream k l)) n.polls
  | .sToAxis k, x, n => Balanced (.s k 8) (sOut k) x n
  | .oToAxis k, x, n => Balanced (.o k 8) (oOut k) x n
  | _, _, _ => True

variable {orc} {axiDepth : ℕ} {S : ℕ → RngState} {O : ℕ → Rng32}

theorem books_init (p : Proc CUs) : Books orc p (.ret ((network CUs axiDepth S O).init p)) .zero := by
  cases p <;> simp [Books, Balanced, held, found]

theorem along_books_instanceStream {k : Fin CUs} {l : Fin 8} {i : ℕ} {s : Rng32} {n : Counts (Chan CUs)}
    (h : Round orc (.instanceStream k l) i s n) :
    Along (stream S O orc) (orc (.instanceStream k l)) (Books orc (.instanceStream k l))
      ((network CUs axiDepth S O).body (.instanceStream k l) s) n := by
  obtain ⟨-, hrd, hwr, hleaf, hpolls⟩ := h
  simp only [network, instanceStream, along_get_bind, along_poll_bind]
  refine ⟨?_, ?_, ?_⟩
  · simp [Books, Balanced, held, hrd, hwr, hleaf, hpolls]
  · simp [Books, Balanced, held, hrd, hwr, hleaf, hpolls]; omega
  · by_cases ho : orc (.instanceStream k l) i
    · simp [along_put_bind, along_pure, Books, Balanced, held, hrd, hwr, hleaf, hpolls, ho, found_succ]
      omega
    · simp [along_put_bind, along_pure, Books, Balanced, held, hrd, hwr, hleaf, hpolls, ho, found_succ]
      omega

/-- The books balance at every point of pass `i`. -/
theorem along_books {p : Proc CUs} {i : ℕ} {s : Static p} {n : Counts (Chan CUs)} (h : Round orc p i s n) :
    Along (stream S O orc) (orc p) (Books orc p) ((network CUs axiDepth S O).body p s) n := by
  cases p with
  | ssrngStateMerge => exact ⟨trivial, trivial⟩
  | rngStart => exact ⟨trivial, trivial⟩
  | rngEnd => exact ⟨trivial, trivial⟩
  | rngMain => exact ⟨trivial, trivial⟩
  | sToHls k => exact along_balanced_axisToHlsStream (fun _ => rfl) (h.2.trans h.1.symm)
  | oToHls k => exact along_balanced_axisToHlsStream (fun _ => rfl) (h.2.trans h.1.symm)
  | leafStateStream k l =>
    obtain ⟨hrd, hwr, hleaf⟩ := h
    simp only [network, leafStateStream, along_get_bind, along_put_bind, along_put]
    simp [Books, hrd, hwr, hleaf]
  | instanceStream k l => exact along_books_instanceStream h
  | sToAxis k => exact along_balanced_hlsToAxisStream (fun _ => rfl) (h.2.trans h.1.symm)
  | oToAxis k => exact along_balanced_hlsToAxisStream (fun _ => rfl) (h.2.trans h.1.symm)

end

/-! ## The books of a configuration -/

/-- What a process has read, holds and has written, read off the FIFOs. -/
structure Kept {axiDepth : ℕ} {S : ℕ → RngState} {O : ℕ → Rng32} (g : Config (network CUs axiDepth S O)) (k : Fin CUs) :
    Prop where
  sToHls : held (g.loc (.sToHls k)) + (g.hist (.s k 0)).length = g.rd (sIn k)
  oToHls : held (g.loc (.oToHls k)) + (g.hist (.o k 0)).length = g.rd (oIn k)
  sToAxis : held (g.loc (.sToAxis k)) + (g.hist (sOut k)).length = g.rd (.s k 8)
  oToAxis : held (g.loc (.oToAxis k)) + (g.hist (oOut k)).length = g.rd (.o k 8)
  state : ∀ l : Fin 8, (g.hist (.s k l.succ)).length ≤ g.rd (.s k l.castSucc)
  leaf : ∀ l : Fin 8, (g.hist (.leafState k l)).length ≤ g.rd (.s k l.castSucc)
  word : ∀ l : Fin 8,
    held (g.loc (.instanceStream k l)) + (g.hist (.o k l.succ)).length = g.rd (.o k l.castSucc)
  polled : ∀ l : Fin 8, (g.hist (.o k l.succ)).length ≤ (g.polls (.instanceStream k l)).length
  found : ∀ l : Fin 8,
    g.rd (.leafState k l.rev) = found (g.oracle (.instanceStream k l)) (g.polls (.instanceStream k l)).length

section
variable {axiDepth : ℕ} {S : ℕ → RngState} {O : ℕ → Rng32} {g : Config (network CUs axiDepth S O)} {k : Fin CUs}
  (hk : Kept g k) (hrd : ∀ c, g.rd c ≤ (g.hist c).length)
include hk hrd

/-- Down the state chain, no array is ahead of what the kernel has read. -/
theorem Kept.length_hist_s_le (i : Fin 9) : (g.hist (.s k i)).length ≤ g.rd (sIn k) := by
  induction i using Fin.induction with
  | zero => have h := hk.sToHls; omega
  | succ i ih => exact (hk.state i).trans ((hrd _).trans ih)

theorem Kept.length_hist_sOut_le : (g.hist (sOut k)).length ≤ g.rd (sIn k) := by
  have hout := hk.sToAxis
  have hlast := hrd (.s k 8)
  have hin := hk.length_hist_s_le hrd 8
  omega

/-- The words add up along the output chain: every read is one process or one FIFO further on. -/
theorem Kept.words_balance :
    g.rd (oIn k) = (g.hist (oOut k)).length + ∑ i : Fin 9, (g.fifo (.o k i)).length +
      (held (g.loc (.oToHls k)) + ∑ i : Fin 8, held (g.loc (.instanceStream k i)) + held (g.loc (.oToAxis k))) := by
  have hfifo : ∀ i : Fin 9, (g.fifo (.o k i)).length + g.rd (.o k i) = (g.hist (.o k i)).length := by
    intro i
    rw [Config.fifo, List.length_drop]
    exact Nat.sub_add_cancel (hrd _)
  have hprocs : ∑ i : Fin 8, (held (g.loc (.instanceStream k i)) + (g.hist (.o k i.succ)).length) =
      ∑ i : Fin 8, g.rd (.o k i.castSucc) := Finset.sum_congr rfl fun i _ => hk.word i
  have hfifos : ∑ i : Fin 9, ((g.fifo (.o k i)).length + g.rd (.o k i)) = ∑ i : Fin 9, (g.hist (.o k i)).length :=
    Finset.sum_congr rfl fun i _ => hfifo i
  rw [Finset.sum_add_distrib] at hprocs hfifos
  rw [Fin.sum_univ_castSucc fun i : Fin 9 => g.rd (.o k i),
    Fin.sum_univ_succ fun i : Fin 9 => (g.hist (.o k i)).length] at hfifos
  have hin := hk.oToHls
  have hout : held (g.loc (.oToAxis k)) + (g.hist (oOut k)).length = g.rd (.o k (Fin.last 8)) := hk.oToAxis
  omega

end

section
variable (axiDepth : ℕ) (S : ℕ → RngState) (O : ℕ → Rng32) (sched : List (Proc CUs)) (k : Fin CUs)

theorem kept_run : Kept ((network CUs axiDepth S O).run sched) k := by
  have hC : 1 ≤ CUs := k.pos
  obtain ⟨n, ht, hb⟩ := exists_counts init_round books_init sched
    (fun p i _ _ h => conf_body hC (served_free p i) h) (fun _ _ _ _ h => along_books h)
  have hlen : ∀ c, (((network CUs axiDepth S O).run sched).hist c).length =
      (n ((network CUs axiDepth S O).writer c)).wr c := by
    intro c
    rw [ht.hist, List.length_map, List.length_range]
  have hrd : ∀ c, ((network CUs axiDepth S O).run sched).rd c = (n ((network CUs axiDepth S O).reader c)).rd c := ht.rd
  have hpolls : ∀ p, (((network CUs axiDepth S O).run sched).polls p).length = (n p).polls := by
    intro p
    rw [ht.polls, List.length_map, List.length_range]
  constructor
  · rw [hlen, hrd, sIn, reader_sIn]; exact hb (.sToHls k)
  · rw [hlen, hrd, oIn, reader_oIn]; exact hb (.oToHls k)
  · rw [hlen, hrd, reader_s_last, sOut, writer_sLink, stateWriter_sOut]; exact hb (.sToAxis k)
  · rw [hlen, hrd, reader_o_last, oOut, writer_oLink, outputWriter_oOut]; exact hb (.oToAxis k)
  · intro l; rw [hlen, hrd, reader_s]; exact (hb (.leafStateStream k l)).1
  · intro l; rw [hlen, hrd, reader_s]; exact (hb (.leafStateStream k l)).2
  · intro l; rw [hlen, hrd, reader_o]; exact (hb (.instanceStream k l)).1
  · intro l; rw [hlen, hpolls]; exact (hb (.instanceStream k l)).2.1
  · intro l; rw [hrd, hpolls, reader_leafState, Fin.rev_rev]; exact (hb (.instanceStream k l)).2.2

omit k in
/-- What has been read from a channel is the start of its stream. -/
theorem consumed_eq (hC : 1 ≤ CUs) (c : Chan CUs) :
    ((network CUs axiDepth S O).run sched).consumed c =
      (List.range (((network CUs axiDepth S O).run sched).rd c)).map
        (stream S O ((network CUs axiDepth S O).run sched).oracle c) := by
  rw [Config.consumed, hist_eq_stream axiDepth S O hC, ← List.map_take, List.take_range,
    Nat.min_eq_left (rd_run_le sched c)]

end

/-! ## The contents -/

/-- Starts of one stream, in the order of their lengths. -/
theorem map_range_take {T : Type} (f : ℕ → T) {m n : ℕ} (h : m ≤ n) :
    (List.range m).map f <+: (List.range n).map f := by
  have htake : List.range m = (List.range n).take m := by rw [List.take_range, Nat.min_eq_left h]
  rw [htake, List.map_take]
  exact List.take_prefix _ _

theorem found_mono (orc : ℕ → Bool) {m n : ℕ} (h : m ≤ n) : found orc m ≤ found orc n := Nat.count_monotone _ h

/-- The polls that found a word, counted in the record of outcomes. -/
theorem found_oracle {N : Network (Token : Chan CUs → Type) (Proc CUs)} (g : Config N) (p : Proc CUs) {n : ℕ}
    (hn : n ≤ (g.polls p).length) : found (g.oracle p) n = ((g.polls p).take n).count true := by
  induction n with
  | zero => rfl
  | succ n ih =>
    have hlast : (g.polls p)[n]? = some (g.oracle p n) := by
      rw [Config.oracle, List.getElem?_eq_getElem hn, Option.getD_some]
    rw [found_succ, ih (by omega), List.take_add_one, hlast, List.count_append]
    cases g.oracle p n <;> simp

/-- What `leaf_state_stream` makes of one state. -/
def leafValue (id : ℕ) (state : RngState) : Rng32 := outputFunction (multiStream state (BitVec.ofNat 64 (54 + id)))

/-- How many leaf values instance `i` had consumed before its token `n`. -/
def leavesBefore {N : Network (Token : Chan CUs → Type) (Proc CUs)} (g : Config N) (k : Fin CUs) (i : Fin 8) (n : ℕ) :
    ℕ := ((g.polls (.instanceStream k i)).take n).count true

/-- Token `n` that instance `i` writes: its input token, xored with nothing if the poll missed, else with the stepped
    decorrelator and the next leaf value. -/
def Written {N : Network (Token : Chan CUs → Type) (Proc CUs)} (g : Config N) (k : Fin CUs) (i : Fin 8) (n : ℕ)
    (v : Rng32) : Prop :=
  ∃ x, (g.consumed (.o k i.castSucc))[n]? = some x ∧
    ((g.polls (.instanceStream k i))[n]? = some false ∧ v = x ^^^ 0 ∨
      (g.polls (.instanceStream k i))[n]? = some true ∧
        ∃ leaf, (g.consumed (.leafState k i.rev))[leavesBefore g k i n]? = some leaf ∧
          v = x ^^^ (xorshiftjump^[n + 1] (tmpXor32S.getD (instanceId k i) 0) ^^^ leaf))

section
variable (axiDepth : ℕ) (S : ℕ → RngState) (O : ℕ → Rng32) (sched : List (Proc CUs)) (k : Fin CUs)

theorem written_of_hist_o (i : Fin 8) {n : ℕ} {v : Rng32}
    (hv : (((network CUs axiDepth S O).run sched).hist (.o k i.succ))[n]? = some v) :
    Written ((network CUs axiDepth S O).run sched) k i n v := by
  have hk := kept_run axiDepth S O sched k
  have hn : n < (((network CUs axiDepth S O).run sched).hist (.o k i.succ)).length :=
    (List.getElem?_eq_some_iff.1 hv).1
  have hpolled := hk.polled i
  have hrd : n < ((network CUs axiDepth S O).run sched).rd (.o k i.castSucc) := by
    have hword := hk.word i
    omega
  have hpoll : (((network CUs axiDepth S O).run sched).polls (.instanceStream k i))[n]? =
      some (((network CUs axiDepth S O).run sched).oracle (.instanceStream k i) n) := by
    rw [Config.oracle, List.getElem?_eq_getElem (by omega), Option.getD_some]
  rw [hist_eq_stream axiDepth S O k.pos, getElem?_range_map, if_pos hn, stream, kernelOut_succ, Option.some.injEq,
    instanceOut] at hv
  refine ⟨_, by rw [consumed_eq axiDepth S O sched k.pos, getElem?_range_map, if_pos hrd], ?_⟩
  cases ho : ((network CUs axiDepth S O).run sched).oracle (.instanceStream k i) n with
  | false =>
    rw [ho, if_neg (by simp)] at hv
    exact .inl ⟨hpoll.trans (congrArg some ho), hv.symm.trans BitVec.xor_zero.symm⟩
  | true =>
    rw [ho, if_pos rfl] at hv
    have hbefore : leavesBefore ((network CUs axiDepth S O).run sched) k i n =
        found (((network CUs axiDepth S O).run sched).oracle (.instanceStream k i)) n :=
      (found_oracle _ _ (by omega)).symm
    have hleaf : leavesBefore ((network CUs axiDepth S O).run sched) k i n <
        ((network CUs axiDepth S O).run sched).rd (.leafState k i.rev) := by
      have hmono := found_mono (((network CUs axiDepth S O).run sched).oracle (.instanceStream k i))
        (show n + 1 ≤ _ from hn.trans_le hpolled)
      rw [found_succ, ho, if_pos rfl] at hmono
      rw [hk.found, hbefore]
      omega
    refine .inr ⟨hpoll.trans (congrArg some ho), _,
      by rw [consumed_eq axiDepth S O sched k.pos, getElem?_range_map, if_pos hleaf], ?_⟩
    rw [← hv, hbefore]
    exact BitVec.xor_comm _ _

end

/-- **No token is lost or used twice**, in any kernel and any configuration that a schedule can reach: the states
    pass unchanged and in order; every word read is written, queued or held; each instance consumes a prefix of what
    its leaf stream computed; and each token it writes is its input token, with or without the next contribution. -/
theorem tokensKept (axiDepth : ℕ) (S : ℕ → RngState) (O : ℕ → Rng32) (sched : List (Proc CUs)) (k : Fin CUs) :
    let g := (network CUs axiDepth S O).run sched
    g.hist (sOut k) <+: g.consumed (sIn k) ∧
    g.rd (oIn k) = (g.hist (oOut k)).length + ∑ i : Fin 9, (g.fifo (.o k i)).length +
      (held (g.loc (.oToHls k)) + ∑ i : Fin 8, held (g.loc (.instanceStream k i)) + held (g.loc (.oToAxis k))) ∧
    (∀ i : Fin 8, g.consumed (.leafState k i.rev) <+:
      (g.consumed (.s k i.rev.castSucc)).map (leafValue (instanceId k i.rev))) ∧
    (∀ (i : Fin 8) (n : ℕ) (v : Rng32), (g.hist (.o k i.succ))[n]? = some v → Written g k i n v) := by
  have hk := kept_run axiDepth S O sched k
  have hrd := rd_run_le (N := network CUs axiDepth S O) sched
  refine ⟨?_, hk.words_balance hrd, ?_, ?_⟩
  · rw [hist_eq_stream axiDepth S O k.pos, consumed_eq axiDepth S O sched k.pos]
    exact map_range_take S (hk.length_hist_sOut_le hrd)
  · intro i
    rw [consumed_eq axiDepth S O sched k.pos, consumed_eq axiDepth S O sched k.pos, List.map_map]
    exact map_range_take (leafWord S (instanceId k i.rev)) ((hrd _).trans (hk.leaf i.rev))
  · intro i n v hv
    exact written_of_hist_o axiDepth S O sched k i hv

/-- The first word of `rng_instance_1` with a contribution: instance 0 finds its leaf value. -/
theorem tokensKept_first :
    Written ((network 1 2 (fun _ => 0) fun _ => 0).run (stateTurns ++ outputTurns)) 0 0 0 0xc43b0c2a :=
  (tokensKept 2 (fun _ => 0) (fun _ => 0) (stateTurns ++ outputTurns) (0 : Fin 1)).2.2.2 0 0 _ (by decide +kernel)

end ThundeRiNG.Sou
