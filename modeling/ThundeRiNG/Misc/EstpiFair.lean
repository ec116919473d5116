import ThundeRiNG.Misc.EstpiDeadlock

/-!
# Fair runs of the pi estimator

The streams bound each other: if a generator or an application stops, all of them do (`Bounded.all`). Then nothing would
happen any more, but some process can always go on. So in a fair run none stops (`fair_delivers`).
-/

namespace ThundeRiNG.Estpi

open Kahn Sou Function

variable {n : ℕ} {S : ℕ → RngState}

/-- All processes, as a round. -/
def turns (n : ℕ) : List (Proc n) :=
  [.stateTransitionMerge, .padS, .dummyStream, .sinkStream, .padO, .consumer] ++
    (List.finRange n).flatMap fun i => [.rngInstance i, .application i]

theorem turns_ne_nil (n : ℕ) : turns n ≠ [] := by simp [turns]

theorem mem_turns (p : Proc n) : p ∈ turns n := by
  cases p <;> simp [turns]

instance : Finite (Proc n) :=
  Set.finite_univ_iff.1 ((List.finite_toSet (turns n)).subset fun p _ => mem_turns p)

instance : Finite (Chan n) := by
  refine Set.finite_univ_iff.1 ((List.finite_toSet ([.sStream, .output] ++ (List.finRange n).map .rng ++
    (List.finRange (n + 1)).flatMap fun i => [Chan.s i, .o i])).subset fun c _ => ?_)
  cases c <;> simp

theorem body_not_ret (p : Proc n) (s : Static p) : ((network n S).body p s).isRet = false := by
  cases p <;> rfl

section
variable {f : ℕ → Proc n} {c c' : Chan n}

def Bounded (S : ℕ → RngState) (f : ℕ → Proc n) (c : Chan n) : Prop :=
  ∃ M, ∀ t, (((network n S).at f t).hist c).length ≤ M

theorem Bounded.of_le (h : Bounded S f c) {k : ℕ} (hle : ∀ sched, (((network n S).run sched).hist c').length ≤
    2 * (((network n S).run sched).hist c).length + k) : Bounded S f c' := by
  obtain ⟨M, hM⟩ := h
  exact ⟨2 * M + k, fun t => (hle _).trans (by have := hM t; unfold Network.at at this; omega)⟩

/-- All generators and applications go on, or none. -/
theorem Bounded.all {i : Fin n} (h : Bounded S f (.rng i)) (c : Chan n) : Bounded S f c := by
  have hdepth := fun sched c => length_run_le (N := network n S) sched c
  have hrd := fun sched c => rd_run_le (N := network n S) sched c
  have hback : ∀ j, Bounded S f (.rng j) → Bounded S f (.s j.castSucc) := fun j hj => hj.of_le (k := 3) fun sched => by
    have hcounts := rngInstance_counts S sched j
    have hlen : _ ≤ _ + 2 := hdepth sched (.s j.castSucc)
    omega
  have hzero : ∀ k : Fin (n + 1), Bounded S f (.s k) → Bounded S f (.s 0) := by
    intro k
    induction k using Fin.induction with
    | zero => exact id
    | succ j ih => exact fun hj => ih (hback j (hj.of_le (k := 0) fun sched => by
        have hcounts := rngInstance_counts S sched j
        omega))
  have hs : ∀ k, Bounded S f (.s k) := fun k => (hzero _ (hback i h)).of_le (k := 0) fun sched => by
    have hle := antitone_length_s S sched (Fin.zero_le k)
    simp only at hle
    omega
  have hrng : ∀ j, Bounded S f (.rng j) := fun j => (hs j.succ).of_le (k := 0) fun sched => by
    have hcounts := rngInstance_counts S sched j
    omega
  have ho : ∀ j : Fin n, Bounded S f (.o j.succ) := fun j => (hrng j).of_le (k := 0) fun sched => by
    have hcounts := application_counts S sched j
    have hle := hrd sched (.rng j)
    omega
  have hn : 0 < n := i.pos
  cases c with
  | s k => exact hs k
  | rng j => exact hrng j
  | sStream =>
    refine (hs 0).of_le (k := 17) fun sched => ?_
    have hcounts := padS_counts S sched
    have hlen : _ ≤ _ + 16 := hdepth sched .sStream
    omega
  | o k =>
    cases k using Fin.cases with
    | succ j => exact ho j
    | zero =>
      refine (hrng ⟨0, hn⟩).of_le (k := 2) fun sched => ?_
      have hcounts := application_counts S sched ⟨0, hn⟩
      have hle := hrd sched (.rng ⟨0, hn⟩)
      have hlen : _ ≤ _ + 2 := hdepth sched (.o 0)
      rw [show (⟨0, hn⟩ : Fin n).castSucc = 0 from rfl] at hcounts
      omega
  | output =>
    have hlast : Bounded S f (.o (Fin.last n)) := by
      cases hl : Fin.last n using Fin.cases with
      | zero => exact absurd (congrArg Fin.val hl) hn.ne'
      | succ j => exact ho j
    refine hlast.of_le (k := 0) fun sched => ?_
    have hcounts := padO_counts S sched
    have hle := hrd sched (.o (Fin.last n))
    omega

theorem not_bounded_rng (hf : Fair f) (i : Fin n) : ¬ Bounded S f (.rng i) := by
  intro h
  refine exists_unbounded (N := network n S) body_not_ret (exists_enabled S) hf h.all fun p => ?_
  by_cases hp : ∃ j, p = .application j
  · obtain ⟨j, rfl⟩ := hp
    obtain ⟨M, hM⟩ := h.all (.rng j)
    refine ⟨M, fun t => ?_⟩
    have hcounts := application_counts S ((List.range t).map f) j
    have hle := (rd_run_le (N := network n S) ((List.range t).map f) (.rng j)).trans (hM t)
    unfold Network.at
    omega
  · push Not at hp
    exact ⟨0, fun t => by rw [show ((network n S).at f t).polls p = [] from polls_eq_nil S _ hp]; rfl⟩

theorem exists_lt_length (h : ¬ Bounded S f c) (m : ℕ) : ∃ t, m < (((network n S).at f t).hist c).length := by
  by_contra hno
  push Not at hno
  exact h ⟨m, hno⟩

/-- The zeros of `dummy_stream` drain, too: the first application polls without end. -/
theorem not_bounded_o_zero (hn : 0 < n) (hf : Fair f) : ¬ Bounded S f (.o 0) := by
  intro h
  have hreader : (network n S).reader (.o 0) = .application ⟨0, hn⟩ := reader_o S ⟨0, hn⟩
  have hown : ∀ t c' k, ((network n S).at f t).loc ((network n S).reader (.o 0)) = .readNb c' k → c' = .o 0 := by
    intro t c' k hloc
    obtain ⟨x, a, hat, -, hst⟩ := exists_station S ((List.range t).map f) ((network n S).reader (.o 0))
    obtain rfl := hat.loc.symm.trans hloc
    have hpoll : ∀ p, p = .application ⟨0, hn⟩ → ∀ k, Station 0 p (.readNb c' k) a → c' = .o 0 := by
      rintro _ rfl k hst
      exact hst.1
    exact hpoll _ hreader k hst
  have hpolls : ∀ m, ∃ t, m ≤ (((network n S).at f t).polls ((network n S).reader (.o 0))).length := by
    intro m
    obtain ⟨t, ht⟩ := exists_lt_length (not_bounded_rng (S := S) hf ⟨0, hn⟩) (2 * m + 6)
    have hcounts := application_counts S ((List.range t).map f) ⟨0, hn⟩
    have hlen : _ ≤ _ + 4 := length_run_le (N := network n S) ((List.range t).map f) (.rng ⟨0, hn⟩)
    refine ⟨t, ?_⟩
    rw [hreader]
    unfold Network.at at *
    omega
  obtain ⟨T, hT⟩ := eventually_const (length_at_mono (N := network n S) (f := f) (.o 0)) h
  obtain ⟨u, hu, hroom⟩ := exists_room_of_polls (N := network n S) (c := .o 0) two_pos hown hpolls T
  have hidle : ∀ w, u ≤ w → f w = .dummyStream → (((network n S).at f w).loc .dummyStream).isRet = true := by
    intro w hw hfw
    obtain ⟨x, a, hat, -, hst⟩ := exists_station S ((List.range w).map f) .dummyStream
    have hloc : ((network n S).at f w).loc .dummyStream = x := hat.loc
    rw [hloc]
    cases x with
    | ret s => rfl
    | read c k => exact hst.elim
    | readNb c k => exact hst.elim
    | write c v k =>
      have hc : c = .o 0 := hst
      subst hc
      have hrd := rd_at_mono (N := network n S) (f := f) (.o 0) hw
      have hlen := (hT w (hu.trans hw)).trans (hT u hu).symm
      have hgrow := (hT (w + 1) (by omega)).trans (hT w (hu.trans hw)).symm
      simp only at hrd hlen hgrow
      rw [at_succ, hfw, fire_write hloc (by rw [hlen]; exact lt_of_le_of_lt (Nat.sub_le_sub_left hrd _) hroom)] at hgrow
      simp at hgrow
  obtain ⟨w, hw, hfw⟩ := hf .dummyStream u
  have hwrite : ∀ v, w + 1 ≤ v → (((network n S).at f v).loc .dummyStream).isRet = false := by
    intro v hv
    induction v, hv using Nat.le_induction with
    | base =>
      have hret := hidle w hw hfw
      cases hloc : ((network n S).at f w).loc .dummyStream with
      | ret s => rw [at_succ, hfw, fire_ret hloc]; simp only [update_self]; exact body_not_ret (S := S) .dummyStream s
      | _ => rw [hloc] at hret; exact absurd hret (by simp [Prog.isRet])
    | succ v hv ih =>
      by_cases hp : .dummyStream = f v
      · have hret := hidle v (by omega) hp.symm
        rw [ih] at hret
        exact absurd hret (by decide)
      · rw [at_succ, fire_loc_of_ne hp]; exact ih
  obtain ⟨v, hv, hfv⟩ := hf .dummyStream (w + 1)
  have hret := hidle v (by omega) hfv
  rw [hwrite v hv] at hret
  exact absurd hret (by decide)

/-- **No starvation**: in every fair run every channel hands over tokens without end: each application draws pair after
    pair, and estimates reach the consumer, however the polls fall out. -/
theorem fair_delivers (hn : 0 < n) (S : ℕ → RngState) (hf : Fair f) (c : Chan n) (m : ℕ) :
    ∃ t, m < ((network n S).at f t).rd c := by
  have hrng : ∀ i, ¬ Bounded S f (.rng i) := not_bounded_rng hf
  have ho : ∀ i : Fin n, ¬ Bounded S f (.o i.succ) := fun i h => hrng i <| h.of_le (k := 6) fun sched => by
    have hcounts := application_counts S sched i
    have hlen : _ ≤ _ + 4 := length_run_le (N := network n S) sched (.rng i)
    omega
  have hs : ∀ k, ¬ Bounded S f (.s k) := by
    intro k h
    cases k using Fin.cases with
    | succ i => exact hrng i (h.of_le (k := 0) fun sched => by have := rngInstance_counts S sched i; omega)
    | zero =>
      refine hrng ⟨0, hn⟩ (h.of_le (k := 0) fun sched => ?_)
      have hcounts := rngInstance_counts S sched ⟨0, hn⟩
      have hle := antitone_length_s S sched (Fin.zero_le (Fin.succ ⟨0, hn⟩))
      simp only at hle
      omega
  have hlast : ¬ Bounded S f (.o (Fin.last n)) := by
    cases hl : Fin.last n using Fin.cases with
    | zero => exact absurd (congrArg Fin.val hl) hn.ne'
    | succ i => exact ho i
  have hunbounded : ¬ Bounded S f c := by
    cases c with
    | s k => exact hs k
    | rng i => exact hrng i
    | sStream =>
      refine fun h => hs 0 (h.of_le (k := 0) fun sched => ?_)
      have hcounts := padS_counts S sched
      have hle := rd_run_le (N := network n S) sched .sStream
      omega
    | output =>
      refine fun h => hlast (h.of_le (k := 3) fun sched => ?_)
      have hcounts := padO_counts S sched
      have hlen : _ ≤ _ + 2 := length_run_le (N := network n S) sched (.o (Fin.last n))
      omega
    | o k =>
      cases k using Fin.cases with
      | succ i => exact ho i
      | zero => exact not_bounded_o_zero hn hf
  obtain ⟨t, ht⟩ := exists_lt_length hunbounded (m + (network n S).depth c)
  have hlen := length_run_le (N := network n S) ((List.range t).map f) c
  exact ⟨t, by unfold Network.at at *; omega⟩

end

/-- Three applications, served in turns. -/
theorem fair_delivers_roundRobin :
    ∃ t, 1000 < ((network 3 fun _ => 0).at (roundRobin (turns 3) (turns_ne_nil 3)) t).rd .output :=
  fair_delivers (by decide) _ (fair_roundRobin (turns_ne_nil 3) mem_turns) .output 1000

end ThundeRiNG.Estpi
