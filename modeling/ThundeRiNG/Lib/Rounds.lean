import ThundeRiNG.Lib.Kahn

/-!
# Runs that make progress

Kahn's theorem says what the tokens of a run are, not that there are any. Here a schedule is built. A process
that finds its tokens and its room finishes the iteration it is in (`exists_finish`). In a network whose
processes move one token on each of their channels per iteration, and in which some order has every writer
before its readers, letting each process do one iteration in that order is a round, and there are runs of any
number of rounds (`exists_rounds`).
-/

namespace Kahn

open Function

variable {Chan : Type} {V : Chan → Type} {Proc : Type} [DecidableEq Proc] {N : Network V Proc}
  {σ : (c : Chan) → ℕ → V c} {orc : Proc → ℕ → Bool}

/-! ## A process on its own -/

/-- What a process may count on while the others wait: tokens up to `avail`, and room where at most
    `depth` tokens lie beyond `taken`. -/
def Guard.alone (N : Network V Proc) (avail taken : Chan → ℕ) : Guard Chan where
  read c i := i < avail c
  miss c i := avail c ≤ i
  write c i := i - taken c < N.depth c

/-- The others have written `avail` and read `taken` on the channels of `p`. -/
structure Waits (N : Network V Proc) (n : Proc → Counts Chan) (p : Proc) (avail taken : Chan → ℕ) : Prop where
  wr : ∀ c, N.reader c = p → (n (N.writer c)).wr c = avail c
  rd : ∀ c, N.writer c = p → (n (N.reader c)).rd c = taken c

theorem Waits.update (hself : ∀ c, N.reader c ≠ N.writer c) {n : Proc → Counts Chan} {p : Proc} {avail taken : Chan → ℕ}
    (h : Waits N n p avail taken) (m : Counts Chan) :
    Waits N (update n p m) p avail taken where
  wr c hc := by rw [update_of_ne (fun e => hself c (hc.trans e.symm)), h.wr c hc]
  rd c hc := by rw [update_of_ne (fun e => hself c (e.trans hc.symm)), h.rd c hc]

variable [DecidableEq Chan]

/-- From `g` some actions of `p`, and of no other process, end an iteration of `p` in `Q`. -/
def Finishes (σ : (c : Chan) → ℕ → V c) (orc : Proc → ℕ → Bool) (g : Config N) (n : Proc → Counts Chan) (p : Proc)
    (Q : N.S p → Counts Chan → Prop) : Prop :=
  ∃ (ps : List Proc) (s : N.S p) (m : Counts Chan), (ps.foldl N.fire g).loc p = .ret s ∧ Q s m ∧
    Tied N σ orc (ps.foldl N.fire g) (update n p m) ∧ ∀ q, q ≠ p → (ps.foldl N.fire g).loc q = g.loc q

section
variable {g : Config N} {n : Proc → Counts Chan} {p : Proc} {Q : N.S p → Counts Chan → Prop} {avail taken : Chan → ℕ}

theorem Finishes.of_fire {m : Counts Chan} (h : Finishes σ orc (N.fire g p) (update n p m) p Q)
    (hloc : ∀ q, q ≠ p → (N.fire g p).loc q = g.loc q) : Finishes σ orc g n p Q := by
  obtain ⟨ps, s, m', h1, h2, h3, h4⟩ := h
  rw [update_idem] at h3
  exact ⟨p :: ps, s, m', h1, h2, h3, fun q hq => (h4 q hq).trans (hloc q hq)⟩

/-- A process that finds its tokens and its room finishes the iteration it is in. -/
theorem exists_finish (hself : ∀ c, N.reader c ≠ N.writer c) (ht : Tied N σ orc g n) (hw : Waits N n p avail taken)
    (hconf : Conf N σ orc (.alone N avail taken) p (g.loc p) (n p) Q) : Finishes σ orc g n p Q := by
  generalize hx : g.loc p = x at hconf
  induction x generalizing g n with
  | ret s => exact ⟨[], s, n p, hx, hconf, by rwa [update_eq_self], fun _ _ => rfl⟩
  | read c k ih =>
    obtain ⟨hr, hlt, hk⟩ := hconf
    have htok := ht.token hr
    rw [if_pos (by rw [hw.wr c hr]; exact hlt)] at htok
    have hfire := fire_read hx htok
    refine Finishes.of_fire (m := (n p).addRd c) ?_ fun q hq => by rw [hfire]; simp [hq]
    rw [hfire]
    exact ih (σ c ((n p).rd c)) (ht.addRd hr _) (hw.update hself _) (by simp) (by simpa using hk)
  | readNb c k ih =>
    obtain ⟨hr, hk⟩ := hconf
    have htok := ht.token hr
    by_cases ho : orc p (n p).polls
    · rw [if_pos ho] at hk
      rw [if_pos (by rw [hw.wr c hr]; exact hk.1)] at htok
      have hfire := fire_poll hx htok
      have ht' := (ht.addRd hr g.loc).addPoll (p := p) (b := true) (by simpa using ho.symm)
        (Function.update g.loc p (k (some (σ c ((n p).rd c)))))
      rw [update_idem, update_self] at ht'
      refine Finishes.of_fire (m := ((n p).addRd c).addPoll) ?_ fun q hq => by rw [hfire]; simp [hq]
      rw [hfire]
      exact ih (some (σ c ((n p).rd c))) ht' (hw.update hself _) (by simp) (by simpa using hk.2)
    · rw [if_neg ho] at hk
      rw [if_neg (by rw [hw.wr c hr]; exact Nat.not_lt.2 hk.1)] at htok
      have hfire := fire_poll_miss hx htok
      refine Finishes.of_fire (m := (n p).addPoll) ?_ fun q hq => by rw [hfire]; simp [hq]
      rw [hfire]
      exact ih none (ht.addPoll (by simpa using ho) _) (hw.update hself _) (by simp) (by simpa using hk.2)
  | write c v k ih =>
    obtain ⟨hwr, hlt, hv, hk⟩ := hconf
    have hroom : (g.hist c).length - g.rd c < N.depth c := by
      rw [ht.hist, ht.rd, hw.rd c hwr, hwr, List.length_map, List.length_range]
      exact hlt
    have hfire := fire_write hx hroom
    refine Finishes.of_fire (m := (n p).addWr c) ?_ fun q hq => by rw [hfire]; simp [hq]
    rw [hfire]
    exact ih (ht.addWr hwr hv _) (hw.update hself _) (by simp) (by simpa using hk)

end

/-! ## Rounds -/

/-- Iteration `i` of a process reads token `i` of each of its inputs and writes token `i` of each of its outputs, as
    far as these channels are `live`; `R p i` says what `p` keeps and has counted when it starts, and every poll finds
    its token. -/
structure SingleRate (N : Network V Proc) (σ : (c : Chan) → ℕ → V c) (live : Chan → Prop)
    (R : (p : Proc) → ℕ → N.S p → Counts Chan → Prop) : Prop where
  init : ∀ p, R p 0 (N.init p) .zero
  rd : ∀ {p i s m c}, live c → R p i s m → N.reader c = p → m.rd c = i
  wr : ∀ {p i s m c}, live c → R p i s m → N.writer c = p → m.wr c = i
  body : ∀ G p i s m, R p i s m → (∀ c, live c → N.reader c = p → G.read c i) →
    (∀ c, live c → N.writer c = p → G.write c i) → Conf N σ (fun _ _ => true) G p (N.body p s) m (R p (i + 1))

/-- Every process is between iterations, `p` before its iteration `f p`. -/
def Between (σ : (c : Chan) → ℕ → V c) (R : (p : Proc) → ℕ → N.S p → Counts Chan → Prop) (f : Proc → ℕ)
    (g : Config N) : Prop :=
  ∃ n, Tied N σ (fun _ _ => true) g n ∧ ∀ p, ∃ s, g.loc p = .ret s ∧ R p (f p) s (n p)

section
variable {live : Chan → Prop} {R : (p : Proc) → ℕ → N.S p → Counts Chan → Prop}

omit [DecidableEq Proc] in
/-- What a configuration between iterations shows. -/
theorem Between.length_hist (hR : SingleRate N σ live R) {f : Proc → ℕ} {g : Config N} (h : Between σ R f g) {c : Chan}
    (hc : live c) : (g.hist c).length = f (N.writer c) := by
  obtain ⟨n, ht, hloc⟩ := h
  obtain ⟨s, -, hRs⟩ := hloc (N.writer c)
  rw [ht.hist, List.length_map, List.length_range, hR.wr hc hRs rfl]

omit [DecidableEq Proc] [DecidableEq Chan] in
theorem Between.polls {f : Proc → ℕ} {g : Config N} (h : Between σ R f g) (p : Proc) : ∀ b ∈ g.polls p, b = true := by
  obtain ⟨n, ht, -⟩ := h
  rw [ht.polls]
  simp

variable (hR : SingleRate N σ live R) (hself : ∀ c, N.reader c ≠ N.writer c)
include hR hself

/-- A process whose inputs are one iteration ahead, and whose outputs have room, can do its next iteration. -/
theorem exists_turn {f : Proc → ℕ} {g : Config N} (h : Between σ R f g) {p : Proc}
    (hin : ∀ c, live c → N.reader c = p → f p < f (N.writer c))
    (hout : ∀ c, live c → N.writer c = p → f p - f (N.reader c) < N.depth c) :
    ∃ ps : List Proc, Between σ R (update f p (f p + 1)) (ps.foldl N.fire g) := by
  obtain ⟨n, ht, hloc⟩ := h
  obtain ⟨s, hs, hRs⟩ := hloc p
  have hwait : Waits N n p (fun c => (n (N.writer c)).wr c) (fun c => (n (N.reader c)).rd c) :=
    ⟨fun _ _ => rfl, fun _ _ => rfl⟩
  have hfire := fire_ret hs
  have hstart : Finishes σ (fun _ _ => true) (N.fire g p) n p (R p (f p + 1)) := by
    rw [hfire]
    refine exists_finish hself ⟨ht.rd, ht.hist, ht.polls⟩ hwait ?_
    simp only [update_self]
    refine hR.body _ p (f p) s (n p) hRs (fun c hc hp => ?_) fun c hc hp => ?_
    · obtain ⟨s', -, hs'⟩ := hloc (N.writer c)
      have h := hin c hc hp
      rwa [← hR.wr hc hs' rfl] at h
    · obtain ⟨s', -, hs'⟩ := hloc (N.reader c)
      have h := hout c hc hp
      rwa [← hR.rd hc hs' rfl] at h
  obtain ⟨ps, s', m, h1, h2, h3, h4⟩ := hstart
  refine ⟨p :: ps, update n p m, h3, ?_⟩
  intro q
  by_cases hq : q = p
  · subst hq; exact ⟨s', h1, by simpa using h2⟩
  · obtain ⟨s, hs', hRq⟩ := hloc q
    have hkeep : (N.fire g p).loc q = g.loc q := by rw [hfire]; simp [hq]
    exact ⟨s, (h4 q hq).trans (hkeep.trans hs'), by simpa [hq] using hRq⟩

variable {rank : Proc → ℕ} (hinj : Injective rank) (hrank : ∀ c, live c → rank (N.writer c) < rank (N.reader c))
  (hdepth : ∀ c, live c → 0 < N.depth c)
include hinj hrank hdepth

/-- The first processes of the order have done their turn of a round. -/
theorem exists_turns {g : Config N} {i : ℕ} (h : Between σ R (fun _ => i) g) (r : ℕ) :
    ∃ ps : List Proc, Between σ R (fun p => if rank p < r then i + 1 else i) (ps.foldl N.fire g) := by
  induction r with
  | zero => exact ⟨[], by simpa using h⟩
  | succ r ih =>
    obtain ⟨ps, hps⟩ := ih
    by_cases hp : ∃ p, rank p = r
    · obtain ⟨p, rfl⟩ := hp
      obtain ⟨qs, hqs⟩ := exists_turn hR hself hps (p := p)
        (fun c hc hcp => by have := hrank c hc; rw [hcp] at this; simp [this])
        (fun c hc hcp => by
          have := hrank c hc
          rw [hcp] at this
          have hlt : ¬ rank (N.reader c) < rank p := by omega
          simp [hlt, hdepth c hc])
      refine ⟨ps ++ qs, ?_⟩
      rw [List.foldl_append]
      refine (congrArg (Between σ R · (qs.foldl N.fire (ps.foldl N.fire g))) (funext fun q => ?_)).mp hqs
      by_cases hq : q = p
      · subst hq; simp
      · have hne : rank q ≠ rank p := fun e => hq (hinj e)
        have hiff : rank q < rank p + 1 ↔ rank q < rank p := by omega
        simp [hq, hiff]
    · refine ⟨ps, (congrArg (Between σ R · (ps.foldl N.fire g)) (funext fun q => ?_)).mp hps⟩
      have hne : rank q ≠ r := fun e => hp ⟨q, e⟩
      have hiff : rank q < r + 1 ↔ rank q < r := by omega
      simp [hiff]

/-- **Progress**: for every `i` some run lets every process do exactly `i` iterations and finds a token at every
    poll. -/
theorem exists_rounds {K : ℕ} (hK : ∀ p, rank p < K) (i : ℕ) :
    ∃ sched : List Proc, Between σ R (fun _ => i) (N.run sched) := by
  induction i with
  | zero =>
    exact ⟨[], fun _ => .zero, ⟨fun _ => rfl, fun _ => rfl, fun _ => rfl⟩, fun p => ⟨N.init p, rfl, hR.init p⟩⟩
  | succ i ih =>
    obtain ⟨sched, h⟩ := ih
    obtain ⟨ps, hps⟩ := exists_turns hR hself hinj hrank hdepth h K
    refine ⟨sched ++ ps, ?_⟩
    unfold Network.run at hps ⊢
    rw [List.foldl_append]
    simpa [hK] using hps

end

end Kahn
