import ThundeRiNG.Lib.Fair
import ThundeRiNG.Rng.Soum

/-!
# The merged unit never gets stuck, and never changes a word

Every process moves one token on each of its channels per pass, and down the chain every channel is written before it is
read. So no fair schedule can stop the unit: each word that comes in leaves it (`fair_words`), and as the sixty-four
contributions cancel it leaves as it came in, for every schedule and every state on the way. What the unit puts out is
therefore no more random than what it is given, which behind `rng_start` is zeros.
-/

namespace ThundeRiNG.Soum

open Kahn

section
variable {axiDepth : ℕ} {S : ℕ → RngState} {O : ℕ → Rng32}

/-- Every channel is in the timetable, and so is every process. -/
def Scheduled (_ : Chan) : Prop := True

def Group (_ : Proc) : Prop := True

def Drained (_ : Chan) : Prop := False

theorem depth_pos (hd : 0 < axiDepth) (c : Chan) : 0 < (network axiDepth S O).depth c := by
  cases c <;> simp [network, hd]

/-- One token of every channel per tick. -/
def timetable (axiDepth : ℕ) (S : ℕ → RngState) (O : ℕ → Rng32) (hd : 0 < axiDepth) :
    Timetable (network axiDepth S O) Scheduled :=
  .ofRank (fun _ => 1) rank 72 rank_lt (fun _ => one_pos) (fun c _ => rank_writer_lt_reader c) fun c _ => depth_pos hd c

/-- When `p` does its pass `i`. -/
def time (p : Proc) (i : ℕ) : ℕ := 72 * (1 * i) + rank p

variable {hd : 0 < axiDepth} {p : Proc} {i : ℕ} {n : Counts Chan} {c : Chan} {H : ℕ}

theorem timetable_D (hp : (network axiDepth S O).reader c = p) (hi : n.rd c = i) :
    (timetable axiDepth S O hd).D c (n.rd c) = time p i := by
  subst hp hi; rfl

theorem timetable_W (hp : (network axiDepth S O).writer c = p) (hi : n.wr c = i) :
    (timetable axiDepth S O hd).W c (n.wr c) = time p i := by
  subst hp hi; rfl

/-- Before its pass `i`, a process has used each of its channels `i` times. -/
def Beat (p : Proc) (i : ℕ) (n : Counts Chan) : Prop := ∃ s, Round p i s n

theorem Beat.due (h : Beat p i n) : (timetable axiDepth S O hd).Due p n (time p i) := by
  obtain ⟨s, h⟩ := h
  exact ⟨fun c _ hp => (timetable_D hp (round_rd h hp)).ge, fun c _ hp => (timetable_W hp (round_wr h hp)).ge⟩

theorem Beat.advanced {n' : Counts Chan} (h : Beat p i n) (h' : Beat p (i + 1) n') :
    Timetable.Advanced (network axiDepth S O) Scheduled p n n' := by
  obtain ⟨s, h⟩ := h
  obtain ⟨s', h'⟩ := h'
  exact ⟨fun c _ hp => by rw [round_rd h hp, round_rd h' hp]; omega,
    fun c _ hp => by rw [round_wr h hp, round_wr h' hp]; omega⟩

theorem inTime_soumInstance {l : Fin 64} {s : Rng32} (h : Beat (.soumInstance l) i n) :
    (timetable axiDepth S O hd).InTime Group Drained H (.soumInstance l)
      ((network axiDepth S O).body (.soumInstance l) s) n fun _ => Beat (.soumInstance l) (i + 1) := by
  have hdue : (timetable axiDepth S O hd).Due _ n (time _ i) := h.due
  obtain ⟨_, -, hs, hs', ho, ho'⟩ := h
  have hrs := reader_s axiDepth S O l
  have hro := reader_o axiDepth S O l
  simp only [network, soumInstance]
  refine ⟨hrs, hdue.read (fun _ => trivial) (timetable_D hrs hs), fun v => ⟨writer_s .., ?_, hro, ?_, fun w =>
    ⟨writer_o .., ?_, xorshiftjump^[i + 1] (tmpXor32S.getD 0 0), rfl, ?_⟩⟩⟩
  · exact (hdue.addRd _).write (c := Chan.s l.succ) (fun _ => trivial) (timetable_W (writer_s ..) hs')
  · exact ((hdue.addRd _).addWr _).read (c := Chan.o l.castSucc) (fun _ => trivial) (timetable_D hro (by simpa using ho))
  · exact (((hdue.addRd _).addWr _).addRd _).write (c := Chan.o l.succ) (fun _ => trivial)
      (timetable_W (writer_o ..) (by simpa using ho'))
  · simp [hs, hs', ho, ho']

/-- Pass `i` of any process is in time. -/
theorem inTime_body {s : Static p} (h : Beat p i n) :
    (timetable axiDepth S O hd).InTime Group Drained H p ((network axiDepth S O).body p s) n fun _ => Beat p (i + 1) := by
  have hdue : (timetable axiDepth S O hd).Due _ n (time _ i) := h.due
  have hall : Group p → True := fun _ => trivial
  cases p with
  | soumInstance l => exact inTime_soumInstance h
  | stateSource =>
    obtain ⟨s', rfl, hwr⟩ := h
    exact inTime_tokenSource (b := Chan.sIn) rfl hall hdue (timetable_W rfl hwr) (fun _ => rfl) ⟨_, rfl, by simp [hwr]⟩
  | outputSource =>
    obtain ⟨s', rfl, hwr⟩ := h
    exact inTime_tokenSource (b := Chan.oIn) rfl hall hdue (timetable_W rfl hwr) (fun _ => rfl) ⟨_, rfl, by simp [hwr]⟩
  | stateSink =>
    obtain ⟨_, hrd⟩ := h
    exact inTime_sinkStream (a := Chan.sOut) rfl hall hdue (timetable_D rfl hrd) ⟨(), by simpa [Round] using hrd⟩
  | outputSink =>
    obtain ⟨_, hrd⟩ := h
    exact inTime_sinkStream (a := Chan.oOut) rfl hall hdue (timetable_D rfl hrd) ⟨(), by simpa [Round] using hrd⟩
  | sToHls =>
    obtain ⟨_, hrd, hwr⟩ := h
    exact inTime_axisToHlsStream (a := Chan.sIn) (b := Chan.s 0) rfl rfl hall hall hdue (timetable_D rfl hrd)
      (timetable_W rfl hwr) (fun _ => rfl) ⟨(), by simp [Round, hrd, hwr]⟩
  | oToHls =>
    obtain ⟨_, hrd, hwr⟩ := h
    exact inTime_axisToHlsStream (a := Chan.oIn) (b := Chan.o 0) rfl rfl hall hall hdue (timetable_D rfl hrd)
      (timetable_W rfl hwr) (fun _ => rfl) ⟨(), by simp [Round, hrd, hwr]⟩
  | sToAxis =>
    obtain ⟨_, hrd, hwr⟩ := h
    have ha := reader_s_last axiDepth S O
    exact inTime_axisToHlsStream (b := Chan.sOut) ha rfl hall hall hdue (timetable_D ha hrd) (timetable_W rfl hwr)
      (fun _ => rfl) ⟨(), by simp [Round, hrd, hwr]⟩
  | oToAxis =>
    obtain ⟨_, hrd, hwr⟩ := h
    have ha := reader_o_last axiDepth S O
    exact inTime_axisToHlsStream (b := Chan.oOut) ha rfl hall hall hdue (timetable_D ha hrd) (timetable_W rfl hwr)
      (fun _ => rfl) ⟨(), by simp [Round, hrd, hwr]⟩

theorem kept_beat (hd : 0 < axiDepth) (H : ℕ) :
    (timetable axiDepth S O hd).Kept Group Drained H fun p _ n => ∃ i, Beat p i n where
  ends _ _ := ⟨trivial, trivial⟩
  init p := by
    have hround : Round p 0 ((network axiDepth S O).init p) .zero := init_round p
    exact ⟨0, _, hround⟩
  body p s n h := by
    obtain ⟨i, h⟩ := h
    exact (inTime_body h).mono fun _ m h' => ⟨⟨i + 1, h'⟩, fun _ => .inr (h.advanced h')⟩

/-- In time, any number of tokens of each stream has been read. -/
theorem exists_take_consumed (hd : 0 < axiDepth) {f : ℕ → Proc} (hf : Fair f) (c : Chan) (m : ℕ) :
    ∃ t, ∀ u, t ≤ u → (((network axiDepth S O).at f u).consumed c).take m = (List.range m).map (stream S O c) := by
  obtain ⟨t, ht⟩ := exists_lt_rd (kept_beat (S := S) (O := O) hd _) (fun _ hdr => hdr.elim) hf (c := c) (m := m) trivial
    (Nat.lt_succ_self _)
  refine ⟨t, fun u htu => ?_⟩
  have hmono := rd_at_mono (N := network axiDepth S O) (f := f) c htu
  exact take_consumed (hist_eq_stream axiDepth S O _ c) (ht.le.trans hmono)

/-- **The merged unit is a wire**: in every fair run, for FIFOs of any depth, every word and every state that comes in
    leaves in its turn, and each as it came in. -/
theorem fair_words (hd : 0 < axiDepth) (S : ℕ → RngState) (O : ℕ → Rng32) {f : ℕ → Proc} (hf : Fair f) (m : ℕ) :
    ∃ t, (((network axiDepth S O).at f t).consumed .oOut).take m = (List.range m).map O ∧
      (((network axiDepth S O).at f t).consumed .sOut).take m = (List.range m).map S := by
  obtain ⟨t, ht⟩ := exists_take_consumed (S := S) (O := O) hd hf .oOut m
  obtain ⟨u, hu⟩ := exists_take_consumed (S := S) (O := O) hd hf .sOut m
  have hwords : stream S O .oOut = O := funext stream_oOut
  exact ⟨max t u, by rw [ht _ (le_max_left t u), hwords], by rw [hu _ (le_max_right t u)]; rfl⟩

end

/-- All processes, as a round. -/
def allTurns : List Proc :=
  [.stateSource, .outputSource, .sToHls, .oToHls] ++ (List.finRange 64).map .soumInstance ++
    [.sToAxis, .oToAxis, .stateSink, .outputSink]

theorem fair_words_roundRobin :
    let N := network 1 (fun _ => INIT_STATE 0) fun n => BitVec.ofNat 32 n
    ∃ t, ((N.at (roundRobin allTurns (by simp [allTurns])) t).consumed .oOut).take 1000 =
        (List.range 1000).map (BitVec.ofNat 32) ∧
      ((N.at (roundRobin allTurns (by simp [allTurns])) t).consumed .sOut).take 1000 =
        (List.range 1000).map fun _ => INIT_STATE 0 :=
  fair_words one_pos _ _ (fair_roundRobin (by simp [allTurns]) fun p => by cases p <;> simp [allTurns]) 1000

end ThundeRiNG.Soum
