import Mathlib.Tactic.FinCases
import ThundeRiNG.Lib.Fair
import ThundeRiNG.Rng.Rsgu

/-!
# Every root state is delivered

The merge moves nine tokens where a lane moves one. On a clock that ticks once per root state a lane is due every
ninth tick, and so is each read of the merge, whose writes are due one tick after the other. So the nine lanes, the
merge and the reader of `out` never block each other for good, however short the links are (`delivers`).
-/

namespace ThundeRiNG.Rsgu

open Kahn

def rank : Proc → ℕ
  | .ssrngStateUpdate _ => 0
  | .ssrngStateMerge => 1
  | .consumer => 2

/-- How many root states a token of the channel stands for. -/
def weight : Chan → ℕ
  | .input _ => 9
  | .out => 1

/-- Every channel is in the timetable, and so is every process. -/
def Scheduled (_ : Chan) : Prop := True

def Group (_ : Proc) : Prop := True

def Drained (_ : Chan) : Prop := False

section
variable {depth : Chan → ℕ}

def timetable (depth : Chan → ℕ) (hd : ∀ c, 0 < depth c) : Timetable (network depth) Scheduled :=
  .ofRank weight rank 3 (fun p => by cases p <;> simp [rank]) (fun c => by cases c <;> simp [weight])
    (fun c _ => by cases c <;> simp [rank]) fun c _ => hd c

/-- When `p` acts for root state `τ`. -/
def time (p : Proc) (τ : ℕ) : ℕ := 3 * τ + rank p

/-- Before its pass `i`, a process has done `i` passes' reads and writes. -/
def Beat : (p : Proc) → ℕ → Counts Chan → Prop
  | .ssrngStateUpdate l, i, n => n.wr (.input l) = i
  | .ssrngStateMerge, i, n => (∀ l, n.rd (.input l) = i) ∧ n.wr .out = 9 * i
  | .consumer, i, n => n.rd .out = i

variable {hd : ∀ c, 0 < depth c} {p : Proc} {n : Counts Chan} {H i : ℕ}

theorem due_merge {τ : ℕ} (hrd : ∀ l, τ ≤ 9 * n.rd (.input l)) (hwr : τ ≤ n.wr .out) :
    (timetable depth hd).Due .ssrngStateMerge n (time .ssrngStateMerge τ) where
  rd c _ hp := by
    cases c with
    | input l => have := hrd l; simp only [timetable, Timetable.ofRank, time, weight, reader_input]; omega
    | out => simp at hp
  wr c _ hp := by
    cases c with
    | input l => simp at hp
    | out => simp only [timetable, Timetable.ofRank, time, weight, writer_out]; omega

/-- The writes of the merge, one root state after the other. -/
theorem inTime_forM_out (vs : List RngState) {Q : Unit → Counts Chan → Prop} (hrd : ∀ l, n.rd (.input l) = i + 1)
    (hle : n.wr .out + vs.length = 9 * (i + 1))
    (hQ : ∀ m, (∀ l, m.rd (.input l) = i + 1) → m.wr .out = 9 * (i + 1) → Q () m) :
    (timetable depth hd).InTime Group Drained H .ssrngStateMerge (vs.forM (Prog.put (V := Token) Chan.out)) n Q := by
  induction vs generalizing n with
  | nil => exact hQ n hrd (by simpa using hle)
  | cons v vs ih =>
    rw [List.length_cons] at hle
    have hdue : (timetable depth hd).Due .ssrngStateMerge n (time .ssrngStateMerge (n.wr .out)) :=
      due_merge (fun l => by rw [hrd]; omega) le_rfl
    rw [List.forM_eq_forM, List.forM_cons, Timetable.inTime_bind, Timetable.inTime_put]
    refine ⟨rfl, hdue.write (c := Chan.out) (fun _ => trivial) ?_, ih (by simpa using hrd) (by simp; omega)⟩
    simp only [timetable, Timetable.ofRank, time, weight, writer_out, Nat.one_mul]

/-- One read of the merge. -/
theorem inTime_get_input (l : Fin 9) {A : Type} {f : RngState → Prog Token A} {Q : A → Counts Chan → Prop}
    (hdue : (timetable depth hd).Due .ssrngStateMerge n (time .ssrngStateMerge (9 * i))) (hl : n.rd (.input l) = i)
    (h : ∀ v, (timetable depth hd).Due .ssrngStateMerge (n.addRd (.input l)) (time .ssrngStateMerge (9 * i)) →
      (timetable depth hd).InTime Group Drained H .ssrngStateMerge (f v) (n.addRd (.input l)) Q) :
    (timetable depth hd).InTime Group Drained H .ssrngStateMerge (Prog.get (V := Token) (Chan.input l) >>= f) n Q := by
  rw [Timetable.inTime_bind, Timetable.inTime_get]
  refine ⟨rfl, hdue.read (fun _ => trivial) ?_, fun v => h v (hdue.addRd _)⟩
  rw [hl]
  rfl

theorem inTime_ssrngStateMerge (h : Beat .ssrngStateMerge i n) :
    (timetable depth hd).InTime Group Drained H .ssrngStateMerge ((network depth).body .ssrngStateMerge ()) n
      fun _ => Beat .ssrngStateMerge (i + 1) := by
  obtain ⟨hrd, hwr⟩ := h
  have hdue : (timetable depth hd).Due .ssrngStateMerge n (time .ssrngStateMerge (9 * i)) :=
    due_merge (fun l => by rw [hrd]) hwr.ge
  refine inTime_get_input 0 hdue (hrd 0) fun v0 hdue => ?_
  refine inTime_get_input 1 hdue (by simp [hrd]) fun v1 hdue => ?_
  refine inTime_get_input 2 hdue (by simp [hrd]) fun v2 hdue => ?_
  refine inTime_get_input 3 hdue (by simp [hrd]) fun v3 hdue => ?_
  refine inTime_get_input 4 hdue (by simp [hrd]) fun v4 hdue => ?_
  refine inTime_get_input 5 hdue (by simp [hrd]) fun v5 hdue => ?_
  refine inTime_get_input 6 hdue (by simp [hrd]) fun v6 hdue => ?_
  refine inTime_get_input 7 hdue (by simp [hrd]) fun v7 hdue => ?_
  refine inTime_get_input 8 hdue (by simp [hrd]) fun v8 _ => ?_
  refine inTime_forM_out _ (i := i) (fun l => ?_) (by simp [hwr]; omega) fun m hm hm' => ⟨hm, hm'⟩
  fin_cases l <;> simp [hrd]

/-- Pass `i` of any process is in time and moves each of its channels on. -/
theorem inTime_body {s : Static p} (h : Beat p i n) :
    (timetable depth hd).InTime Group Drained H p ((network depth).body p s) n fun _ => Beat p (i + 1) := by
  cases p with
  | ssrngStateMerge => exact inTime_ssrngStateMerge h
  | ssrngStateUpdate l =>
    have hwr : n.wr (.input l) = i := h
    have hdue : (timetable depth hd).Due (.ssrngStateUpdate l) n (3 * (9 * i)) := by
      constructor
      · intro c _ hp
        cases c <;> simp at hp
      · intro c _ hp
        cases c with
        | input l' => obtain rfl : l' = l := by simpa using hp
                      rw [hwr]; exact le_rfl
        | out => simp at hp
    have hend : (n.addWr (.input l)).wr (.input l) = i + 1 := by simp [hwr]
    exact ⟨rfl, hdue.write (c := Chan.input l) (fun _ => trivial) (by rw [hwr]; rfl), hend⟩
  | consumer =>
    have hrd : n.rd .out = i := h
    have hdue : (timetable depth hd).Due .consumer n (3 * (1 * i) + 2) := by
      constructor
      · intro c _ hp
        cases c with
        | input l => simp at hp
        | out => rw [hrd]; exact le_rfl
      · intro c _ hp
        cases c <;> simp at hp
    have hend : (n.addRd .out).rd .out = i + 1 := by simp [hrd]
    exact ⟨rfl, hdue.read (c := Chan.out) (fun _ => trivial) (by rw [hrd]; rfl), fun _ => hend⟩

theorem Beat.advanced {n' : Counts Chan} (h : Beat p i n) (h' : Beat p (i + 1) n') :
    Timetable.Advanced (network depth) Scheduled p n n' := by
  constructor
  · intro c _ hp
    cases c with
    | input l => subst hp; rw [h.1, h'.1]; omega
    | out => subst hp; exact lt_of_eq_of_lt h (by rw [show n'.rd .out = i + 1 from h']; omega)
  · intro c _ hp
    cases c with
    | input l => subst hp; exact lt_of_eq_of_lt h (by rw [show n'.wr (.input l) = i + 1 from h']; omega)
    | out => subst hp; rw [h.2, h'.2]; omega

theorem kept_beat (hd : ∀ c, 0 < depth c) (H : ℕ) :
    (timetable depth hd).Kept Group Drained H fun p _ n => ∃ i, Beat p i n where
  ends _ _ := ⟨trivial, trivial⟩
  init p := ⟨0, by cases p <;> simp [Beat]⟩
  body p s n h := by
    obtain ⟨i, h⟩ := h
    exact (inTime_body h).mono fun _ m h' => ⟨⟨i + 1, h'⟩, fun _ => .inr (h.advanced h')⟩

/-- **Leapfrogging delivers**: in every fair run, for links of any depth, the reader of `out` gets every root state, in
    order. -/
theorem delivers (hd : ∀ c, 0 < depth c) {f : ℕ → Proc} (hf : Fair f) (m : ℕ) :
    ∃ t, (((network depth).at f t).consumed .out).take m = (List.range m).map (rootState (INIT_STATE 0)) := by
  obtain ⟨t, ht⟩ :=
    exists_lt_rd (kept_beat hd _) (fun c hdr => hdr.elim) hf (c := .out) (m := m) trivial (Nat.lt_succ_self _)
  exact ⟨t, take_consumed (leapfrog depth _) ht.le⟩

end

/-- The nine lanes, the merge and the consumer in turns. -/
def turns : List Proc := (List.finRange 9).map .ssrngStateUpdate ++ [.ssrngStateMerge, .consumer]

theorem delivers_roundRobin :
    ∃ t, (((network fun _ => 1).at (roundRobin turns (by decide)) t).consumed .out).take 1000 =
      (List.range 1000).map (rootState (INIT_STATE 0)) :=
  delivers (fun _ => Nat.one_pos) (fair_roundRobin (by decide) fun p => by cases p <;> simp [turns]) 1000

end ThundeRiNG.Rsgu
