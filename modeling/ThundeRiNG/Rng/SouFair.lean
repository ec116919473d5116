import ThundeRiNG.Rng.SouTokens

/-!
# The sequence-output unit never gets stuck

The output chain does not wait for the state chain: `instance` only polls its leaf word. So the kernels are scheduled
twice. First the output chain alone, with the state chain doing what it likes: words reach `rng_main` without end.
Then every instance polls without end, the leaf streams drain, and the state chain keeps its own times, too. In a
fair run every channel in use carries tokens without end (`fair_progress`), so every instance keeps finding leaf
words, however often it misses.
-/

namespace ThundeRiNG.Sou

open Kahn

variable {CUs : ℕ}

/-! ## The two timetables -/

/-- The output chain; with `all`, the state chain as well. -/
def Scheduled (all : Bool) : Chan CUs → Prop
  | .o _ _ => True
  | .oLink src => Live (.oLink src : Chan CUs)
  | .s _ _ => all = true
  | .sLink src => all = true ∧ Live (.sLink src : Chan CUs)
  | .leafState _ _ => False

def Group (all : Bool) : Proc CUs → Prop
  | .rngStart => True
  | .rngMain => True
  | .oToHls _ => True
  | .instanceStream _ _ => True
  | .oToAxis _ => True
  | _ => all = true

def Drained : Chan CUs → Prop
  | .leafState _ _ => True
  | _ => False

theorem Scheduled.live {all : Bool} {c : Chan CUs} (h : Scheduled all c) : Live c := by
  cases c with
  | s | o | leafState => trivial
  | sLink src => exact h.2
  | oLink src => exact h

section
variable {axiDepth : ℕ} {S : ℕ → RngState} {O : ℕ → Rng32}

theorem depth_pos (hd : 0 < axiDepth) (c : Chan CUs) : 0 < (network CUs axiDepth S O).depth c := by
  cases c <;> simp [network, hd]

/-- One token of every channel per tick; `off` leaves time before and after the unit's own processes. -/
def timetable (axiDepth : ℕ) (S : ℕ → RngState) (O : ℕ → Rng32) (hC : 1 ≤ CUs) (hd : 0 < axiDepth) (all : Bool)
    (off : ℕ) : Timetable (network CUs axiDepth S O) (Scheduled all) :=
  .ofRank (fun _ => 1) (fun p => rank p + off) (20 * CUs + 4 + 2 * off) (fun p => by have := rank_lt p; omega)
    (fun _ => one_pos) (fun _ hc => Nat.add_lt_add_right (rank_writer_lt_reader hC hc.live) off) fun c _ => depth_pos hd c

/-- When `p` does its pass `i`. -/
def time (off : ℕ) (p : Proc CUs) (i : ℕ) : ℕ := (20 * CUs + 4 + 2 * off) * (1 * i) + (rank p + off)

variable {hC : 1 ≤ CUs} {hd : 0 < axiDepth} {all : Bool} {off : ℕ} {p : Proc CUs} {i : ℕ} {n : Counts (Chan CUs)}
  {c : Chan CUs}

theorem timetable_D (hp : (network CUs axiDepth S O).reader c = p) (hi : n.rd c = i) :
    (timetable axiDepth S O hC hd all off).D c (n.rd c) = time off p i := by
  subst hp hi; rfl

theorem timetable_W (hp : (network CUs axiDepth S O).writer c = p) (hi : n.wr c = i) :
    (timetable axiDepth S O hC hd all off).W c (n.wr c) = time off p i := by
  subst hp hi; rfl

/-! ## Passes are in time -/

/-- The counts if every leaf word had been found. -/
def evened (i : ℕ) (n : Counts (Chan CUs)) : Counts (Chan CUs) where
  rd
    | .leafState _ _ => i
    | c => n.rd c
  wr
    | .leafState _ _ => i
    | c => n.wr c
  polls := i

/-- Before its pass `i`, a process has used each of its channels `i` times, but for the leaf words. -/
def Beat (p : Proc CUs) (i : ℕ) (n : Counts (Chan CUs)) : Prop := ∃ s, Round (fun _ _ => true) p i s (evened i n)

theorem Beat.rd (h : Beat p i n) (hc : Scheduled all c) (hp : (network CUs axiDepth S O).reader c = p) : n.rd c = i := by
  obtain ⟨s, h⟩ := h
  have hrd := round_rd hc.live h hp
  cases c with
  | s | o | sLink | oLink => exact hrd
  | leafState => exact hc.elim

theorem Beat.wr (hC : 1 ≤ CUs) (h : Beat p i n) (hc : Scheduled all c) (hp : (network CUs axiDepth S O).writer c = p) :
    n.wr c = i := by
  obtain ⟨s, h⟩ := h
  have hwr := round_wr hC hc.live h hp
  cases c with
  | s | o | sLink | oLink => exact hwr
  | leafState => exact hc.elim

theorem Beat.due (h : Beat p i n) : (timetable axiDepth S O hC hd all off).Due p n (time off p i) where
  rd _ hc hp := (timetable_D hp (h.rd hc hp)).ge
  wr _ hc hp := (timetable_W hp (h.wr hC hc hp)).ge

theorem Beat.advanced (hC : 1 ≤ CUs) {n' : Counts (Chan CUs)} (h : Beat p i n) (h' : Beat p (i + 1) n') :
    Timetable.Advanced (network CUs axiDepth S O) (Scheduled all) p n n' where
  rd c hc hp := by rw [h.rd hc hp, h'.rd hc hp]; omega
  wr c hc hp := by rw [h.wr hC hc hp, h'.wr hC hc hp]; omega

theorem beat_init (p : Proc CUs) : Beat p 0 .zero := by
  have hzero : evened 0 .zero = (.zero : Counts (Chan CUs)) := by
    unfold evened Counts.zero
    congr 1 <;> funext c <;> cases c <;> rfl
  have hround : Round (fun _ _ => true) p 0 ((network CUs 0 (fun _ => 0) fun _ => 0).init p) .zero := init_round p
  exact ⟨_, hzero ▸ hround⟩

variable {H : ℕ}

theorem inTime_leafStateStream {k : Fin CUs} {l : Fin 8} (h : Beat (.leafStateStream k l) i n) :
    (timetable axiDepth S O hC hd all off).InTime (Group all) Drained H (.leafStateStream k l)
      ((network CUs axiDepth S O).body (.leafStateStream k l) ()) n fun _ => Beat (.leafStateStream k l) (i + 1) := by
  have hdue : (timetable axiDepth S O hC hd all off).Due _ n (time off _ i) := h.due
  obtain ⟨-, hrd, hwr, -⟩ := h
  have ha := reader_s axiDepth S O k l
  have hb := writer_s axiDepth S O k l
  simp only [network, leafStateStream]
  refine ⟨ha, hdue.read id (timetable_D ha hrd), fun v => ⟨hb, (hdue.addRd _).write id (timetable_W hb hwr),
    writer_leafState axiDepth S O k l, fun _ => .inr (.inl trivial), (), ?_⟩⟩
  exact ⟨by simpa [evened] using hrd, by simpa [evened] using hwr, rfl⟩

theorem inTime_instanceStream {k : Fin CUs} {l : Fin 8} {s : Rng32} (h : Beat (.instanceStream k l) i n) :
    (timetable axiDepth S O hC hd all off).InTime (Group all) Drained H (.instanceStream k l)
      ((network CUs axiDepth S O).body (.instanceStream k l) s) n fun _ => Beat (.instanceStream k l) (i + 1) := by
  have hdue : (timetable axiDepth S O hC hd all off).Due _ n (time off _ i) := h.due
  obtain ⟨-, -, hrd, hwr, -⟩ := h
  have ha := reader_o axiDepth S O k l
  have hb := writer_o axiDepth S O k l
  have hpoll : (network CUs axiDepth S O).reader (.leafState k l.rev) = .instanceStream k l := by simp
  have hbeat : ∀ m : Counts (Chan CUs), m.rd (.o k l.castSucc) = i + 1 → m.wr (.o k l.succ) = i + 1 →
      Beat (.instanceStream k l) (i + 1) m := fun m hr hw =>
    ⟨sgState (instanceId k l) (i + 1), rfl, hr, hw, (found_true _).symm, rfl⟩
  have hrd' : n.rd (.o k l.castSucc) = i := hrd
  have hwr' : n.wr (.o k l.succ) = i := hwr
  simp only [network, instanceStream]
  refine ⟨ha, hdue.read (fun _ => trivial) (timetable_D ha hrd), fun v => ⟨hpoll, id, ?_, fun w => ?_⟩⟩
  · refine ⟨hb, (hdue.addRd _).addPoll.write (c := Chan.o k l.succ) (fun _ => trivial) (timetable_W hb hwr), hbeat _ ?_ ?_⟩
    · simp [hrd']
    · simp [hwr']
  · refine ⟨hb, ((hdue.addRd _).addRd _).addPoll.write (c := Chan.o k l.succ) (fun _ => trivial)
      (timetable_W hb hwr), hbeat _ ?_ ?_⟩
    · simp [hrd']
    · simp [hwr']

/-- Pass `i` of any process is in time. -/
theorem inTime_body {s : Static p} (h : Beat p i n) :
    (timetable axiDepth S O hC hd all off).InTime (Group all) Drained H p ((network CUs axiDepth S O).body p s) n
      fun _ => Beat p (i + 1) := by
  have hdue : (timetable axiDepth S O hC hd all off).Due _ n (time off _ i) := h.due
  cases p with
  | leafStateStream k l => exact inTime_leafStateStream h
  | instanceStream k l => exact inTime_instanceStream h
  | ssrngStateMerge =>
    obtain ⟨s', rfl, hwr⟩ := h
    exact inTime_tokenSource (b := Chan.sLink Port.ssrngStateMergeOut) rfl (fun hg => ⟨hg, live_ssrngStateMergeOut hC⟩)
      hdue (timetable_W rfl hwr) (fun _ => rfl)
      ⟨_, rfl, by simpa [evened] using hwr⟩
  | rngStart =>
    obtain ⟨s', rfl, hwr⟩ := h
    exact inTime_tokenSource (b := Chan.oLink Port.rngStartOutput) rfl (fun _ => live_rngStartOutput hC)
      hdue (timetable_W rfl hwr) (fun _ => rfl)
      ⟨_, rfl, by simpa [evened] using hwr⟩
  | rngEnd =>
    obtain ⟨s', hrd⟩ := h
    have ha : (network CUs axiDepth S O).reader _ = .rngEnd := reader_rngEnd axiDepth S O
    exact inTime_sinkStream ha (fun hg => ⟨hg, _, rfl, .inl rfl⟩) hdue (timetable_D ha hrd)
      ⟨(), by simpa [Round, evened] using hrd⟩
  | rngMain =>
    obtain ⟨s', hrd⟩ := h
    have ha : (network CUs axiDepth S O).reader _ = .rngMain := reader_rngMain axiDepth S O
    exact inTime_sinkStream ha (fun _ => ⟨_, rfl, .inl rfl⟩) hdue (timetable_D ha hrd)
      ⟨(), by simpa [Round, evened] using hrd⟩
  | sToHls k =>
    obtain ⟨-, hrd, hwr⟩ := h
    have ha := reader_sIn axiDepth S O k
    exact inTime_axisToHlsStream (b := Chan.s k 0) ha rfl (fun hg => ⟨hg, _, rfl, .inr ⟨k, rfl⟩⟩) (fun hg => hg)
      hdue (timetable_D ha hrd) (timetable_W rfl hwr) (fun _ => rfl) ⟨(), by simpa [evened] using hrd, by simpa [evened] using hwr⟩
  | oToHls k =>
    obtain ⟨-, hrd, hwr⟩ := h
    have ha := reader_oIn axiDepth S O k
    exact inTime_axisToHlsStream (b := Chan.o k 0) ha rfl (fun _ => ⟨_, rfl, .inr ⟨k, rfl⟩⟩) (fun _ => trivial)
      hdue (timetable_D ha hrd) (timetable_W rfl hwr) (fun _ => rfl) ⟨(), by simpa [evened] using hrd, by simpa [evened] using hwr⟩
  | sToAxis k =>
    obtain ⟨-, hrd, hwr⟩ := h
    have ha := reader_s_last axiDepth S O k
    have hb : (network CUs axiDepth S O).writer (.sLink (.sOut (k + 1))) = .sToAxis k := stateWriter_sOut k
    exact inTime_axisToHlsStream ha hb (fun hg => hg) (fun hg => ⟨hg, live_sOut k⟩) hdue (timetable_D ha hrd)
      (timetable_W hb hwr) (fun _ => rfl) ⟨(), by simpa [evened] using hrd, by simpa [evened] using hwr⟩
  | oToAxis k =>
    obtain ⟨-, hrd, hwr⟩ := h
    have ha := reader_o_last axiDepth S O k
    have hb : (network CUs axiDepth S O).writer (.oLink (.oOut (k + 1))) = .oToAxis k := outputWriter_oOut k
    exact inTime_axisToHlsStream ha hb (fun _ => trivial) (fun _ => live_oOut k) hdue (timetable_D ha hrd)
      (timetable_W hb hwr) (fun _ => rfl) ⟨(), by simpa [evened] using hrd, by simpa [evened] using hwr⟩

theorem group_true (p : Proc CUs) : Group true p := by
  cases p <;> trivial

theorem group_outputReader (all : Bool) (dst : Port) : Group all (outputReader dst : Proc CUs) := by
  unfold outputReader
  split
  · cases kernel? CUs _ <;> trivial
  · trivial

theorem group_outputWriter (all : Bool) (src : Port) : Group all (outputWriter src : Proc CUs) := by
  unfold outputWriter
  split
  · cases kernel? CUs _ <;> trivial
  · trivial

/-- Both ends of a scheduled channel are in the group. -/
theorem group_ends (hc : Scheduled all c) :
    Group all ((network CUs axiDepth S O).reader c) ∧ Group all ((network CUs axiDepth S O).writer c) := by
  cases c with
  | s k l => obtain rfl : all = true := hc; exact ⟨group_true _, group_true _⟩
  | sLink src => obtain rfl : all = true := hc.1; exact ⟨group_true _, group_true _⟩
  | leafState k l => exact hc.elim
  | oLink src => exact ⟨group_outputReader all _, group_outputWriter all _⟩
  | o k l =>
    constructor
    · cases l using Fin.lastCases with
      | last => exact (reader_o_last axiDepth S O k).symm ▸ trivial
      | cast l => rw [reader_o]; trivial
    · cases l using Fin.cases with
      | zero => trivial
      | succ l => rw [writer_o]; trivial

theorem kept_beat (hC : 1 ≤ CUs) (hd : 0 < axiDepth) (all : Bool) (off H : ℕ) :
    (timetable axiDepth S O hC hd all off).Kept (Group all) Drained H fun p _ n => ∃ i, Beat p i n where
  ends _ hc := group_ends hc
  init p := ⟨0, beat_init p⟩
  body p s n h := by
    obtain ⟨i, h⟩ := h
    exact (inTime_body h).mono fun _ m h' => ⟨⟨i + 1, h'⟩, fun _ => .inr (h.advanced hC h')⟩

end

/-! ## Fair runs -/

section
variable {axiDepth : ℕ} {S : ℕ → RngState} {O : ℕ → Rng32} {f : ℕ → Proc CUs}

/-- At every point `leaf_state_stream` is at most one leaf word behind the states it has read. -/
def Behind : (p : Proc CUs) → Prog (Token : Chan CUs → Type) (Static p) → Counts (Chan CUs) → Prop
  | .leafStateStream k l, _, n => n.rd (.s k l.castSucc) ≤ n.wr (.leafState k l) + 1
  | _, _, _ => True

theorem along_of_forall {Chan A : Type} {V : Chan → Type} [DecidableEq Chan] {σ : (c : Chan) → ℕ → V c}
    {orc : ℕ → Bool} {J : Prog V A → Counts Chan → Prop} (hJ : ∀ x n, J x n) (x : Prog V A) (n : Counts Chan) :
    Along σ orc J x n := by
  induction x generalizing n with
  | ret a => exact hJ _ _
  | read c k ih => exact ⟨hJ _ _, ih _ _⟩
  | readNb c k ih =>
    refine ⟨hJ _ _, ?_⟩
    by_cases ho : orc n.polls
    · rw [if_pos ho]; exact ih _ _
    · rw [if_neg ho]; exact ih _ _
  | write c v k ih => exact ⟨hJ _ _, ih _⟩

theorem along_behind {orc : Proc CUs → ℕ → Bool} {p : Proc CUs} {i : ℕ} {s : Static p} {n : Counts (Chan CUs)}
    (h : Round orc p i s n) :
    Along (stream S O orc) (orc p) (Behind p) ((network CUs axiDepth S O).body p s) n := by
  cases p with
  | leafStateStream k l =>
    obtain ⟨hrd, hwr, hleaf⟩ := h
    simp only [network, leafStateStream, along_get_bind, along_put_bind, along_put]
    simp [Behind, hrd, hleaf]
  | _ => exact along_of_forall (fun _ _ => trivial) _ _

theorem rd_s_le (hC : 1 ≤ CUs) (sched : List (Proc CUs)) (k : Fin CUs) (l : Fin 8) :
    ((network CUs axiDepth S O).run sched).rd (.s k l.castSucc) ≤
      (((network CUs axiDepth S O).run sched).hist (.leafState k l)).length + 1 := by
  have hstart : ∀ p : Proc CUs, Behind p (.ret ((network CUs axiDepth S O).init p)) .zero := by
    intro p
    cases p <;> simp [Behind]
  obtain ⟨n, ht, hb⟩ := exists_counts init_round hstart sched
    (fun p i _ _ h => conf_body hC (served_free p i) h) (fun _ _ _ _ h => along_behind h)
  rw [ht.rd, ht.hist, List.length_map, List.length_range, reader_s]
  exact hb (.leafStateStream k l)

/-- The output chain goes on whatever the state chain does. -/
theorem exists_lt_rd_output (hC : 1 ≤ CUs) (hd : 0 < axiDepth) (hf : Fair f) {c : Chan CUs} (hc : Scheduled false c)
    (m : ℕ) : ∃ t, m < ((network CUs axiDepth S O).at f t).rd c := by
  refine exists_lt_rd (kept_beat hC hd false 0 _) ?_ hf hc (Nat.lt_succ_self _)
  intro c hdr hw
  cases c with
  | leafState k l => exact absurd hw (by simp [Group])
  | _ => exact hdr.elim

/-- So every instance polls without end, -/
theorem exists_le_polls (hC : 1 ≤ CUs) (hd : 0 < axiDepth) (hf : Fair f) (k : Fin CUs) (l : Fin 8) (m : ℕ) :
    ∃ t, m ≤ (((network CUs axiDepth S O).at f t).polls (.instanceStream k l)).length := by
  obtain ⟨t, ht⟩ := exists_lt_rd_output (S := S) (O := O) hC hd hf (c := .o k l.succ) trivial m
  have hpolled := (kept_run axiDepth S O ((List.range t).map f) k).polled l
  have hle := rd_run_le (N := network CUs axiDepth S O) ((List.range t).map f) (.o k l.succ)
  exact ⟨t, ht.le.trans (hle.trans hpolled)⟩

/-- and each stream of leaf words has room again and again. -/
theorem exists_room_leafState (hC : 1 ≤ CUs) (hd : 0 < axiDepth) (hf : Fair f) (k : Fin CUs) (l : Fin 8) (t : ℕ) :
    ∃ u, t ≤ u ∧ (((network CUs axiDepth S O).at f u).hist (.leafState k l)).length -
      ((network CUs axiDepth S O).at f u).rd (.leafState k l) < (network CUs axiDepth S O).depth (.leafState k l) := by
  refine exists_room_of_polls (depth_pos hd _) ?_ (exists_le_polls hC hd hf k l.rev) t
  intro t c' x hloc
  obtain ⟨y, n, hy, hin⟩ := exists_at (kept_beat hC hd false 0 0) f t (.instanceStream k l.rev)
  obtain rfl := hy.loc.symm.trans hloc
  obtain ⟨hr, hns, -⟩ := hin
  cases c' with
  | leafState k' l' =>
    rw [reader_leafState, Proc.instanceStream.injEq, Fin.rev_inj] at hr
    rw [hr.1, hr.2]
  | o k' l' => exact absurd trivial hns
  | s k' l' =>
    have hrank := congrArg rank hr
    rw [rank_reader_s] at hrank
    simp only [rank] at hrank
    omega
  | sLink src =>
    have hends := @readsLink_stateReader CUs (linkEnd CUs src)
    rw [show stateReader (linkEnd CUs src) = _ from hr] at hends
    exact absurd hends (by simp [readsLink])
  | oLink src =>
    have hends := @readsLink_outputReader CUs (linkEnd CUs src)
    rw [show outputReader (linkEnd CUs src) = _ from hr] at hends
    exact absurd hends (by simp [readsLink])

theorem exists_lt_rd_scheduled (hC : 1 ≤ CUs) (hd : 0 < axiDepth) (hf : Fair f) {c : Chan CUs} (hc : Scheduled true c)
    (m : ℕ) : ∃ t, m < ((network CUs axiDepth S O).at f t).rd c := by
  refine exists_lt_rd (kept_beat hC hd true 0 _) ?_ hf hc (Nat.lt_succ_self _)
  intro c hdr _
  cases c with
  | leafState k l => exact exists_room_leafState hC hd hf k l
  | _ => exact hdr.elim

/-- **No starvation**: in every fair run, for any number of kernels and links of any depth, every channel in use hands
    over tokens without end: words reach `rng_main`, states reach `rng_end`, and each instance finds leaf words again
    and again. -/
theorem fair_progress (hC : 1 ≤ CUs) (hd : 0 < axiDepth) (S : ℕ → RngState) (O : ℕ → Rng32) (hf : Fair f)
    (c : Chan CUs) (hc : Live c) (m : ℕ) : ∃ t, m < ((network CUs axiDepth S O).at f t).rd c := by
  cases c with
  | s k l => exact exists_lt_rd_scheduled hC hd hf (c := .s k l) rfl m
  | o k l => exact exists_lt_rd_scheduled hC hd hf (c := .o k l) trivial m
  | sLink src => exact exists_lt_rd_scheduled hC hd hf (c := .sLink src) ⟨rfl, hc⟩ m
  | oLink src => exact exists_lt_rd_scheduled hC hd hf (c := .oLink src) hc m
  | leafState k l =>
    obtain ⟨t, ht⟩ := exists_lt_rd_scheduled (S := S) (O := O) hC hd hf (c := .s k l.castSucc) rfl (m + 3)
    have hle : _ ≤ _ + 2 := length_at_le (N := network CUs axiDepth S O) (f := f) (c := .leafState k l) t
    have hs : ((network CUs axiDepth S O).at f t).rd (.s k l.castSucc) ≤
      (((network CUs axiDepth S O).at f t).hist (.leafState k l)).length + 1 := rd_s_le hC ((List.range t).map f) k l
    exact ⟨t, by omega⟩

end

/-- All processes, as a round. -/
def turns (CUs : ℕ) : List (Proc CUs) :=
  [.ssrngStateMerge, .rngStart, .rngEnd, .rngMain] ++ (List.finRange CUs).flatMap fun k =>
    [.sToHls k, .oToHls k, .sToAxis k, .oToAxis k] ++
      (List.finRange 8).flatMap fun i => [.leafStateStream k i, .instanceStream k i]

theorem turns_ne_nil (CUs : ℕ) : turns CUs ≠ [] := by simp [turns]

theorem mem_turns (p : Proc CUs) : p ∈ turns CUs := by
  cases p <;> simp [turns]

/-- One kernel, served in turns. -/
theorem fair_progress_roundRobin : ∃ t,
    4 < ((network 1 2 (fun _ => 0) fun _ => 0).at (roundRobin (turns 1) (turns_ne_nil 1)) t).rd (.leafState 0 0) :=
  fair_progress (by decide) (by decide) _ _ (fair_roundRobin (turns_ne_nil 1) mem_turns) (Chan.leafState 0 0) trivial 4

end ThundeRiNG.Sou
