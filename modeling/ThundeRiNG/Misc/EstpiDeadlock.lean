import ThundeRiNG.Lib.Blocked
import ThundeRiNG.Misc.Estpi

/-!
# The pi estimator never gets stuck

The generators stand in one chain, and a generator passes no state on while its application leaves it no room for a word;
an application waits until the next one polls, and that one polls only when it has drawn two words. So they might wait for
each other in a ring. They do not: while a stream of tokens is full, its reader has not polled since the last write, hence
not much more often than there were writes (`Jammed.polls_le`); but where a stream of words is full, there are more words
further down the chain than such a reader has used (`exists_full_rng`).
-/

namespace ThundeRiNG.Estpi

open Kahn Sou Function

variable {n : ℕ} {S : ℕ → RngState}

/-- Where a process stands, with what it has done on its channels; `z` is the first place of both chains. -/
def Station (z : Fin (n + 1)) : (p : Proc n) → Prog (Token : Chan n → Type) (Static p) → Counts (Chan n) → Prop
  | .stateTransitionMerge, .ret _, _ => True
  | .stateTransitionMerge, .write c _ _, _ => c = .sStream
  | .padS, .ret _, m => m.rd .sStream = m.wr (.s z)
  | .padS, .read c _, m => c = .sStream ∧ m.rd .sStream = m.wr (.s z)
  | .padS, .write c _ _, m => c = .s z ∧ m.rd .sStream = m.wr (.s z) + 1
  | .dummyStream, .ret _, _ => True
  | .dummyStream, .write c _ _, _ => c = .o z
  | .rngInstance i, .ret _, m => m.rd (.s i.castSucc) = m.wr (.rng i) ∧ m.wr (.s i.succ) = m.wr (.rng i)
  | .rngInstance i, .read c _, m =>
    c = .s i.castSucc ∧ m.rd (.s i.castSucc) = m.wr (.rng i) ∧ m.wr (.s i.succ) = m.wr (.rng i)
  | .rngInstance i, .write c _ _, m =>
    m.rd (.s i.castSucc) = m.wr (.rng i) + 1 ∧
      (c = .s i.succ ∧ m.wr (.s i.succ) = m.wr (.rng i) ∨ c = .rng i ∧ m.wr (.s i.succ) = m.wr (.rng i) + 1)
  | .application i, .ret _, m =>
    m.rd (.rng i) = 2 * m.wr (.o i.succ) ∧ m.polls = m.wr (.o i.succ) ∧ m.rd (.o i.castSucc) ≤ m.polls
  | .application i, .read c k, m =>
    c = .rng i ∧ m.polls = m.wr (.o i.succ) ∧ 2 * m.wr (.o i.succ) ≤ m.rd (.rng i) ∧
      m.rd (.rng i) ≤ 2 * m.wr (.o i.succ) + 1 ∧ (∀ v, ¬ (k v).Writing) ∧ m.rd (.o i.castSucc) ≤ m.polls
  | .application i, .readNb c _, m =>
    c = .o i.castSucc ∧ m.polls = m.wr (.o i.succ) ∧ m.rd (.rng i) = 2 * m.wr (.o i.succ) + 2 ∧
      m.rd (.o i.castSucc) ≤ m.polls
  | .application i, .write c _ k, m =>
    c = .o i.succ ∧ m.polls = m.wr (.o i.succ) + 1 ∧ m.rd (.rng i) = 2 * m.wr (.o i.succ) + 2 ∧ k.isRet ∧
      m.rd (.o i.castSucc) ≤ m.polls
  | .sinkStream, .ret _, _ => True
  | .sinkStream, .read c _, _ => c = .s (Fin.last n)
  | .padO, .ret _, m => m.rd (.o (Fin.last n)) = m.wr .output
  | .padO, .read c _, m => c = .o (Fin.last n) ∧ m.rd (.o (Fin.last n)) = m.wr .output
  | .padO, .write c _ _, m => c = .output ∧ m.rd (.o (Fin.last n)) = m.wr .output + 1
  | .consumer, .ret _, _ => True
  | .consumer, .read c _, _ => c = .output
  | _, _, _ => False

theorem found_le (orc : ℕ → Bool) (j : ℕ) : found orc j ≤ j := by
  induction j with
  | zero => rfl
  | succ j ih =>
    rw [found_succ]
    split <;> omega

theorem along_station {orc : Proc n → ℕ → Bool} {p : Proc n} {i : ℕ} {s : Static p} {m : Counts (Chan n)}
    (h : Round orc p i s m) : Along (stream S orc) (orc p) (Station 0 p) ((network n S).body p s) m := by
  cases p with
  | stateTransitionMerge => exact ⟨rfl, trivial⟩
  | padS =>
    obtain ⟨hrd, hwr⟩ := h
    simp only [network, axisToHlsStream, along_get_bind, along_put]
    simp [Station, hrd, hwr]
  | dummyStream => exact ⟨rfl, trivial⟩
  | sinkStream => exact ⟨rfl, trivial⟩
  | padO =>
    obtain ⟨hrd, hwr⟩ := h
    simp only [network, axisToHlsStream, along_get_bind, along_put]
    simp [Station, hrd, hwr]
  | consumer => exact ⟨rfl, trivial⟩
  | rngInstance l =>
    obtain ⟨rfl, hrd, hwr, hrng⟩ := h
    simp only [network, rngInstance, along_get_bind, along_put_bind, along_pure]
    simp [Station, hrd, hwr, hrng]
  | application l =>
    obtain ⟨hrng, hrd, hwr, hpolls⟩ := h
    simp only [network, application, oOut_counted, along_get_bind, along_poll_bind]
    have hfound := found_le (orc (.application l)) i
    by_cases ho : orc (.application l) i
    · simp [Station, hrng, hrd, hwr, hpolls, ho, along_put, Prog.isRet]
      exact ⟨⟨fun _ => not_false, by omega⟩, ⟨fun _ => not_false, by omega⟩, by omega⟩
    · simp [Station, hrng, hrd, hwr, hpolls, ho, along_put, Prog.isRet]
      exact ⟨⟨fun _ => not_false, by omega⟩, ⟨fun _ => not_false, by omega⟩, by omega⟩

section
variable (S) (sched : List (Proc n))

theorem exists_station (p : Proc n) : ∃ x m, At ((network n S).run sched) p x m ∧
    (((network n S).run sched).polls p).length = m.polls ∧ Station 0 p x m := by
  have hstart : ∀ q : Proc n, Station 0 q (.ret ((network n S).init q)) .zero := by
    intro q
    cases q <;> simp [Station]
  obtain ⟨m, ht, hst⟩ := exists_counts init_round hstart sched
    (fun q i _ _ h => conf_body h) (fun _ _ _ _ h => along_station h)
  refine ⟨_, m p, ⟨rfl, fun c hc => hc ▸ ht.rd c, fun c hc => ?_⟩, ?_, hst p⟩
  · rw [ht.hist, List.length_map, List.length_range, hc]
  · rw [ht.polls, List.length_map, List.length_range]

/-- A generator passes a state on before its word. -/
theorem rngInstance_counts (i : Fin n) :
    (((network n S).run sched).hist (.rng i)).length ≤ (((network n S).run sched).hist (.s i.succ)).length ∧
      (((network n S).run sched).hist (.s i.succ)).length ≤ (((network n S).run sched).hist (.rng i)).length + 1 ∧
      (((network n S).run sched).hist (.s i.succ)).length ≤ ((network n S).run sched).rd (.s i.castSucc) ∧
      ((network n S).run sched).rd (.s i.castSucc) ≤ (((network n S).run sched).hist (.rng i)).length + 1 := by
  obtain ⟨x, m, hat, -, hst⟩ := exists_station S sched (.rngInstance i)
  rw [hat.wr (.rng i) rfl, hat.wr (.s i.succ) rfl, hat.rd (.s i.castSucc) (reader_s S i)]
  cases x with
  | ret s => simp only [Station] at hst; omega
  | read c k => simp only [Station] at hst; omega
  | readNb c k => exact hst.elim
  | write c v k => obtain ⟨hrd, ⟨-, hwr⟩ | ⟨-, hwr⟩⟩ := hst <;> omega

theorem application_counts (i : Fin n) :
    2 * (((network n S).run sched).polls (.application i)).length ≤ ((network n S).run sched).rd (.rng i) ∧
      ((network n S).run sched).rd (.rng i) ≤ 2 * (((network n S).run sched).hist (.o i.succ)).length + 2 ∧
      (((network n S).run sched).hist (.o i.succ)).length ≤ (((network n S).run sched).polls (.application i)).length ∧
      ((network n S).run sched).rd (.o i.castSucc) ≤ (((network n S).run sched).polls (.application i)).length := by
  obtain ⟨x, m, hat, hpolls, hst⟩ := exists_station S sched (.application i)
  rw [hpolls, hat.rd (.rng i) rfl, hat.wr (.o i.succ) rfl, hat.rd (.o i.castSucc) (reader_o S i)]
  cases x with
  | ret s => simp only [Station] at hst; omega
  | read c k => obtain ⟨-, hp, hle, hle', -, hrd⟩ := hst; omega
  | readNb c k => obtain ⟨-, hp, hrd, hrd'⟩ := hst; omega
  | write c v k => obtain ⟨-, hp, hrd, -, hrd'⟩ := hst; omega

theorem padS_counts : (((network n S).run sched).hist (.s 0)).length ≤ ((network n S).run sched).rd .sStream ∧
    ((network n S).run sched).rd .sStream ≤ (((network n S).run sched).hist (.s 0)).length + 1 := by
  obtain ⟨x, m, hat, -, hst⟩ := exists_station S sched .padS
  rw [hat.rd .sStream rfl, hat.wr (.s 0) rfl]
  cases x with
  | ret s => simp only [Station] at hst; omega
  | read c k => obtain ⟨-, hrd⟩ := hst; omega
  | readNb c k => exact hst.elim
  | write c v k => obtain ⟨-, hrd⟩ := hst; omega

theorem padO_counts : (((network n S).run sched).hist .output).length ≤ ((network n S).run sched).rd (.o (Fin.last n)) ∧
    ((network n S).run sched).rd (.o (Fin.last n)) ≤ (((network n S).run sched).hist .output).length + 1 := by
  obtain ⟨x, m, hat, -, hst⟩ := exists_station S sched .padO
  rw [hat.rd (.o (Fin.last n)) (reader_o_last S), hat.wr .output rfl]
  cases x with
  | ret s => simp only [Station] at hst; omega
  | read c k => obtain ⟨-, hrd⟩ := hst; omega
  | readNb c k => exact hst.elim
  | write c v k => obtain ⟨-, hrd⟩ := hst; omega

/-- Only applications poll. -/
theorem polls_eq_nil {p : Proc n} (hp : ∀ i, p ≠ .application i) : ((network n S).run sched).polls p = [] := by
  induction sched using List.reverseRecOn with
  | nil => rfl
  | append_singleton sched q ih =>
    rw [← List.length_eq_zero_iff]
    by_contra hne
    obtain ⟨rfl, c, k, hloc⟩ := polls_fire_of_lt (g := (network n S).run sched) (p := q) (q := p) (by
      rw [ih, ← Network.run_concat, List.length_nil]
      omega)
    obtain ⟨x, m, hat, -, hst⟩ := exists_station S sched q
    obtain rfl := hat.loc.symm.trans hloc
    cases q <;> simp_all [Station]

/-- The streams of states get shorter along the chain. -/
theorem antitone_length_s : Antitone fun k : Fin (n + 1) => (((network n S).run sched).hist (.s k)).length :=
  Fin.antitone_iff_succ_le.2 fun i => (rngInstance_counts S sched i).2.2.1.trans (rd_run_le sched _)

theorem length_rng_le {i m : Fin n} (h : i ≤ m) :
    (((network n S).run sched).hist (.rng m)).length ≤ (((network n S).run sched).hist (.rng i)).length + 1 := by
  have hs := antitone_length_s S sched (Fin.succ_le_succ_iff.2 h)
  simp only at hs
  exact (rngInstance_counts S sched m).1.trans (hs.trans (rngInstance_counts S sched i).2.1)

end

/-! ## Full streams of tokens -/

/-- All applications from `i` up to `m` have written as much as they can, and those between are about to write. -/
structure Jammed (g : Config (network n S)) (i m : Fin n) : Prop where
  full : ∀ l : Fin n, i ≤ l → l < m → Full g (.o l.succ)
  writing : ∀ l : Fin n, i < l → l < m → (g.loc (.application l)).Writing

theorem Jammed.full_castSucc {g : Config (network n S)} {i m l : Fin n} (h : Jammed g i m) (hil : i < l) (hlm : l ≤ m) :
    Full g (.o l.castSucc) := by
  obtain ⟨l', hl'⟩ := Fin.exists_succ_eq.2 (show l.castSucc ≠ 0 from fun h0 => by
    have hval := congrArg Fin.val h0
    simp at hval
    omega)
  have hval := congrArg Fin.val hl'
  simp only [Fin.val_succ, Fin.val_castSucc] at hval
  rw [← hl']
  exact h.full l' (by omega) (by omega)

section
variable {sched : List (Proc n)} {p : Proc n} {i m l : Fin n}

/-- The last action was no poll of a stream that is full. -/
theorem ne_readNb_of_full (h : Full ((network n S).run (sched ++ [p])) (.o l.castSucc)) (hp : p = .application l)
    (c : Chan n) (k : Option (Token c) → Prog Token (Static p)) : ((network n S).run sched).loc p ≠ .readNb c k := by
  intro hloc
  obtain ⟨x, a, hat, -, hst⟩ := exists_station S sched p
  obtain rfl := hat.loc.symm.trans hloc
  subst hp
  obtain ⟨rfl, -⟩ := hst
  rw [Network.run_concat] at h
  exact not_full_fire_of_poll hloc (length_run_le sched _) two_pos h

/-- A full stream of tokens has been full before the last action, or that was the write which ends an iteration. -/
theorem full_or_written (h : Full ((network n S).run (sched ++ [p])) (.o l.succ)) :
    Full ((network n S).run sched) (.o l.succ) ∨
      (((network n S).run (sched ++ [p])).loc (.application l)).isRet = true := by
  by_contra! hno
  obtain ⟨hroom, hret⟩ := hno
  rw [Network.run_concat] at h hret
  obtain ⟨v, k, hloc, hk⟩ := hist_fire_of_ne fun e => hroom (h.of_fire e)
  obtain ⟨x, a, hat, -, hst⟩ := exists_station S sched p
  obtain rfl := hat.loc.symm.trans hloc
  obtain rfl : p = .application l := by
    cases p <;> simp_all [Station]
  rw [hk] at hret
  exact hret hst.2.2.2.1

/-- An application that is about to write, and has not just polled, was about to write before. -/
theorem writing_before (h : (((network n S).run (sched ++ [p])).loc (.application l)).Writing)
    (hpoll : p = .application l → ∀ c k, ((network n S).run sched).loc p ≠ .readNb c k) :
    (((network n S).run sched).loc (.application l)).Writing := by
  rw [Network.run_concat] at h
  by_cases hp : .application l = p
  · subst hp
    obtain ⟨x, a, hat, -, hst⟩ := exists_station S sched (.application l)
    cases x with
    | write c v k => rw [hat.loc]; trivial
    | readNb c k => exact absurd hat.loc (hpoll rfl c k)
    | ret s =>
      rw [fire_ret hat.loc] at h
      simp only [update_self] at h
      exact h.elim
    | read c k =>
      cases hv : (((network n S).run sched).hist c)[((network n S).run sched).rd c]? with
      | none => rwa [fire_read_blocked hat.loc hv] at h
      | some v =>
        rw [fire_read hat.loc hv] at h
        simp only [update_self] at h
        exact absurd h (hst.2.2.2.2.1 v)
  · rwa [fire_loc_of_ne hp] at h

/-- Between iterations, an application has read as many words as its tokens take. -/
theorem rd_le_of_isRet (h : (((network n S).run sched).loc (.application i)).isRet = true) :
    ((network n S).run sched).rd (.rng i) ≤ 2 * (((network n S).run sched).hist (.o i.succ)).length := by
  obtain ⟨x, a, hat, -, hst⟩ := exists_station S sched (.application i)
  rw [hat.rd (.rng i) rfl, hat.wr (.o i.succ) rfl]
  rw [hat.loc] at h
  cases x with
  | ret s => exact hst.1.le
  | _ => exact absurd h (by simp [Prog.isRet])

/-- If the last action was not the write of `i`, the jam was there before. -/
theorem Jammed.before (h : Jammed ((network n S).run (sched ++ [p])) i m)
    (hi : (((network n S).run (sched ++ [p])).loc (.application i)).isRet = false) :
    Jammed ((network n S).run sched) i m := by
  refine ⟨fun l hil hlm => ?_, fun l hil hlm => ?_⟩
  · obtain hfull | hret := full_or_written (h.full l hil hlm)
    · exact hfull
    · obtain rfl | hne := eq_or_ne i l
      · rw [hi] at hret
        exact absurd hret (by decide)
      · have hwriting := h.writing l (lt_of_le_of_ne hil hne) hlm
        cases hloc : ((network n S).run (sched ++ [p])).loc (.application l) with
        | ret s => rw [hloc] at hwriting; exact hwriting.elim
        | _ => rw [hloc] at hret; exact absurd hret (by simp [Prog.isRet])
  · exact writing_before (h.writing l hil hlm) (ne_readNb_of_full (h.full_castSucc hil hlm.le))

end

/-- A jam does not let `m` poll, and it starts with a write of `i`: so `m` cannot have polled much more often. -/
theorem Jammed.polls_le (sched : List (Proc n)) {i m : Fin n} (him : i < m) (h : Jammed ((network n S).run sched) i m) :
    2 * (((network n S).run sched).polls (.application m)).length ≤
      2 * (((network n S).run sched).hist (.o i.succ)).length + 5 := by
  induction sched using List.reverseRecOn with
  | nil => exact Nat.zero_le _
  | append_singleton sched p ih =>
    by_cases hi : (((network n S).run (sched ++ [p])).loc (.application i)).isRet = true
    · -- `i` has read no more words than its tokens took, and no generator is far ahead of its words
      have hread := rd_le_of_isRet hi
      obtain ⟨hpolls, -⟩ := application_counts S (sched ++ [p]) m
      have hrd := rd_run_le (N := network n S) (sched ++ [p]) (.rng m)
      have hrng := length_rng_le S (sched ++ [p]) him.le
      have hdepth : _ ≤ _ + 4 := length_run_le (N := network n S) (sched ++ [p]) (.rng i)
      omega
    · have hpolls : (((network n S).run (sched ++ [p])).polls (.application m)).length ≤
          (((network n S).run sched).polls (.application m)).length := by
        by_contra! hlt
        rw [Network.run_concat] at hlt
        obtain ⟨hp, c, k, hloc⟩ := polls_fire_of_lt hlt
        subst hp
        exact ne_readNb_of_full (h.full_castSucc him le_rfl) rfl c k hloc
      have hlen : (((network n S).run sched).hist (.o i.succ)).length ≤
          (((network n S).run (sched ++ [p])).hist (.o i.succ)).length := by
        rw [Network.run_concat]
        exact length_le_fire _ _ _
      have hbefore := ih (h.before (Bool.eq_false_iff.2 hi))
      omega

/-! ## No deadlock -/

/-- An application that cannot go on waits for a word, or for room. -/
theorem application_blocked {sched : List (Proc n)} {i : Fin n}
    (h : ¬ Enabled ((network n S).run sched) (.application i)) :
    (((network n S).run sched).hist (.rng i)).length ≤
        2 * (((network n S).run sched).polls (.application i)).length + 1 ∨
      Full ((network n S).run sched) (.o i.succ) ∧ (((network n S).run sched).loc (.application i)).Writing ∧
        ((network n S).run sched).rd (.rng i) = 2 * (((network n S).run sched).hist (.o i.succ)).length + 2 := by
  obtain ⟨x, m, hat, hpolls, hst⟩ := exists_station S sched (.application i)
  have hwait := waiting_of_not_enabled h
  rw [hat.loc] at hwait
  cases x with
  | ret s => exact hwait.elim
  | readNb c k => exact hwait.elim
  | read c k =>
    obtain ⟨rfl, hp, -, hle, -⟩ := hst
    have hrd := hat.rd (.rng i) rfl
    have hempty : _ ≤ _ := hwait
    left
    omega
  | write c v k =>
    obtain ⟨rfl, -, hrd, -⟩ := hst
    right
    refine ⟨hwait, by rw [hat.loc]; trivial, ?_⟩
    rw [hat.rd (.rng i) rfl, hat.wr (.o i.succ) rfl, hrd]

theorem rngInstance_blocked {sched : List (Proc n)} {i : Fin n}
    (h : ¬ Enabled ((network n S).run sched) (.rngInstance i)) :
    ((((network n S).run sched).hist (.s i.castSucc)).length ≤ ((network n S).run sched).rd (.s i.castSucc) ∧
        ((network n S).run sched).rd (.s i.castSucc) = (((network n S).run sched).hist (.rng i)).length ∧
        (((network n S).run sched).hist (.s i.succ)).length = (((network n S).run sched).hist (.rng i)).length) ∨
      Full ((network n S).run sched) (.s i.succ) ∨
      Full ((network n S).run sched) (.rng i) ∧
        (((network n S).run sched).hist (.s i.succ)).length = (((network n S).run sched).hist (.rng i)).length + 1 := by
  obtain ⟨x, m, hat, -, hst⟩ := exists_station S sched (.rngInstance i)
  have hwait := waiting_of_not_enabled h
  rw [hat.loc] at hwait
  cases x with
  | ret s => exact hwait.elim
  | readNb c k => exact hwait.elim
  | read c k =>
    obtain ⟨rfl, hrd, hwr⟩ := hst
    rw [hat.rd (.s i.castSucc) (reader_s S i), hat.wr (.s i.succ) rfl, hat.wr (.rng i) rfl]
    have hempty : _ ≤ _ := hwait
    rw [hat.rd (.s i.castSucc) (reader_s S i)] at hempty
    exact .inl ⟨hempty, hrd, hwr⟩
  | write c v k =>
    obtain ⟨-, ⟨rfl, -⟩ | ⟨rfl, hwr⟩⟩ := hst
    · exact .inr (.inl hwait)
    · rw [hat.wr (.s i.succ) rfl, hat.wr (.rng i) rfl]
      exact .inr (.inr ⟨hwait, hwr⟩)

section
variable {sched : List (Proc n)} (h : ∀ p, ¬ Enabled ((network n S).run sched) p)
include h

/-- What comes out of the chain is always taken. -/
theorem not_full_o_last : ¬ Full ((network n S).run sched) (.o (Fin.last n)) := by
  intro hfull
  have hfull' : 2 ≤ _ - _ := hfull
  obtain ⟨x, m, hat, -, hst⟩ := exists_station S sched .padO
  obtain ⟨x', m', hat', -, hst'⟩ := exists_station S sched .consumer
  have hwait := waiting_of_not_enabled (h .padO)
  have hwait' := waiting_of_not_enabled (h .consumer)
  rw [hat.loc] at hwait
  rw [hat'.loc] at hwait'
  cases x with
  | ret s => exact hwait
  | readNb c k => exact hwait
  | read c k =>
    obtain ⟨rfl, -⟩ := hst
    have hempty : _ ≤ _ := hwait
    omega
  | write c v k =>
    obtain ⟨rfl, -⟩ := hst
    have hout : 4 ≤ _ - _ := hwait
    cases x' with
    | read c' k' =>
      have hc' : c' = _ := hst'
      subst hc'
      have hempty : _ ≤ _ := hwait'
      omega
    | write c' v' k' => exact hst'.elim
    | _ => exact hwait'.elim

theorem s_last_le : (((network n S).run sched).hist (.s (Fin.last n))).length ≤
    ((network n S).run sched).rd (.s (Fin.last n)) := by
  obtain ⟨x, m, hat, -, hst⟩ := exists_station S sched .sinkStream
  have hwait := waiting_of_not_enabled (h .sinkStream)
  rw [hat.loc] at hwait
  cases x with
  | read c k =>
    have hc : c = _ := hst
    subst hc
    exact hwait
  | write c v k => exact hst.elim
  | _ => exact hwait.elim

/-- States come in as long as there is room. -/
theorem lt_s_zero : ((network n S).run sched).rd (.s 0) < (((network n S).run sched).hist (.s 0)).length := by
  obtain ⟨x, m, hat, -, hst⟩ := exists_station S sched .padS
  obtain ⟨x', m', hat', -, hst'⟩ := exists_station S sched .stateTransitionMerge
  have hwait := waiting_of_not_enabled (h .padS)
  have hwait' := waiting_of_not_enabled (h .stateTransitionMerge)
  rw [hat.loc] at hwait
  rw [hat'.loc] at hwait'
  cases x with
  | ret s => exact hwait.elim
  | readNb c k => exact hwait.elim
  | write c v k =>
    obtain ⟨rfl, -⟩ := hst
    have hfull : 2 ≤ _ - _ := hwait
    omega
  | read c k =>
    obtain ⟨rfl, -⟩ := hst
    have hempty : _ ≤ _ := hwait
    cases x' with
    | write c' v k' =>
      have hc' : c' = _ := hst'
      subst hc'
      have hfull : 16 ≤ _ - _ := hwait'
      omega
    | read c' k' => exact hst'.elim
    | _ => exact hwait'.elim

/-- Some generator has written as many words as it can, and all behind it have written one more. -/
theorem exists_full_rng : ∃ b : Fin n, Full ((network n S).run sched) (.rng b) ∧ ∀ l, b < l →
    (((network n S).run sched).hist (.rng l)).length = (((network n S).run sched).hist (.rng b)).length + 1 := by
  -- from the end of the chain: the states are all gone, and the words all written, until a full stream of words
  have hback : ∀ k : Fin (n + 1),
      ((((network n S).run sched).hist (.s k)).length ≤ ((network n S).run sched).rd (.s k) ∧
        ∀ l : Fin n, k ≤ l.castSucc →
          (((network n S).run sched).hist (.rng l)).length = (((network n S).run sched).hist (.s k)).length) ∨
      ∃ b : Fin n, Full ((network n S).run sched) (.rng b) ∧ ∀ l, b < l →
        (((network n S).run sched).hist (.rng l)).length = (((network n S).run sched).hist (.rng b)).length + 1 := by
    intro k
    induction k using Fin.reverseInduction with
    | last => exact .inl ⟨s_last_le h, fun l hl => absurd hl (not_le.2 (Fin.castSucc_lt_last l))⟩
    | cast i ih =>
      obtain ⟨hempty, hrng⟩ | hfound := ih
      · obtain ⟨hle, hrd, hlen⟩ | hfull | ⟨hfull, hlen⟩ := rngInstance_blocked (h (.rngInstance i))
        · have hge := rd_run_le (N := network n S) sched (.s i.castSucc)
          refine .inl ⟨hle, fun l hl => ?_⟩
          obtain rfl | hne := eq_or_ne i l
          · omega
          · rw [hrng l (Fin.succ_le_castSucc_iff.2 (lt_of_le_of_ne (Fin.castSucc_le_castSucc_iff.1 hl) hne))]
            omega
        · have hfull' : 2 ≤ _ - _ := hfull
          omega
        · refine .inr ⟨i, hfull, fun l hl => ?_⟩
          rw [hrng l (Fin.succ_le_castSucc_iff.2 hl), hlen]
      · exact .inr hfound
  obtain ⟨hempty, -⟩ | hfound := hback 0
  · exact absurd hempty (not_le.2 (lt_s_zero h))
  · exact hfound

end

/-- **No deadlock**: in every configuration that a run can reach, some process can go on. -/
theorem exists_enabled (S : ℕ → RngState) (sched : List (Proc n)) : ∃ p, Enabled ((network n S).run sched) p := by
  by_contra hno
  have h : ∀ p, ¬ Enabled ((network n S).run sched) p := not_exists.1 hno
  obtain ⟨b, hfull, hwords⟩ := exists_full_rng h
  have hfull' : 4 ≤ _ - _ := hfull
  obtain ⟨hpolls, -⟩ := application_counts S sched b
  -- the application of a full stream of words waits for room,
  obtain hword | ⟨hroom, -, hread⟩ := application_blocked (h (.application b))
  · omega
  -- and the next one that waits for a word is at the end of the jam
  have hwait : ∃ m, b < m ∧ (((network n S).run sched).hist (.rng m)).length ≤
      2 * (((network n S).run sched).polls (.application m)).length + 1 := by
    by_contra hnone
    push Not at hnone
    -- else the last one would wait for room, and there is
    obtain ⟨k, hk⟩ : ∃ k, n = k + 1 := ⟨n - 1, by have := b.isLt; omega⟩
    subst hk
    refine not_full_o_last h ?_
    obtain rfl | hlt := (Fin.le_last b).eq_or_lt
    · exact hroom
    · obtain hword | hlast := application_blocked (h (.application (Fin.last k)))
      · exact absurd hword (not_le.2 (hnone _ hlt))
      · exact hlast.1
  obtain ⟨m, ⟨hbm, hm⟩, hmin⟩ := WellFounded.has_min wellFounded_lt {m | b < m ∧ _} hwait
  have hjam : Jammed ((network n S).run sched) b m := by
    have hbetween : ∀ l, b < l → l < m → Full ((network n S).run sched) (.o l.succ) ∧
        (((network n S).run sched).loc (.application l)).Writing := by
      intro l hbl hlm
      obtain hword | ⟨hl, hl', -⟩ := application_blocked (h (.application l))
      · exact absurd hlm (hmin l ⟨hbl, hword⟩)
      · exact ⟨hl, hl'⟩
    refine ⟨fun l hbl hlm => ?_, fun l hbl hlm => (hbetween l hbl hlm).2⟩
    obtain rfl | hne := eq_or_ne b l
    · exact hroom
    · exact (hbetween l (lt_of_le_of_ne hbl hne) hlm).1
  have hle := hjam.polls_le sched hbm
  have hlen := hwords m hbm
  omega

end ThundeRiNG.Estpi
