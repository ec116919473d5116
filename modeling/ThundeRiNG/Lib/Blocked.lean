import Mathlib.Data.Fintype.Order
import ThundeRiNG.Lib.Fair

/-!
# Blocked processes

What stands still while a process is blocked, and what a blocked network looks like: every process waits for a token, or
for room (`Waiting`). A fair run of finitely many processes, of which one can always go on, does not come to rest
(`exists_unbounded`).
-/

namespace Kahn

open Function

variable {Chan : Type} {V : Chan → Type} {Proc : Type} {N : Network V Proc}

/-- The next action is a write. -/
def Prog.Writing {A : Type} : Prog V A → Prop
  | .write _ _ _ => True
  | _ => False

/-- There is no room for another token. -/
def Full (g : Config N) (c : Chan) : Prop := N.depth c ≤ (g.hist c).length - g.rd c

/-- The next action is blocked. -/
def Waiting (g : Config N) {A : Type} : Prog V A → Prop
  | .read c _ => (g.hist c).length ≤ g.rd c
  | .write c _ _ => Full g c
  | _ => False

theorem waiting_of_not_enabled {g : Config N} {p : Proc} (h : ¬ Enabled g p) : Waiting g (g.loc p) := by
  unfold Enabled at h
  cases hloc : g.loc p with
  | ret s => simp [hloc] at h
  | read c k => simpa [hloc, Waiting] using h
  | readNb c k => simp [hloc] at h
  | write c v k => simpa [hloc, Waiting, Full] using h

section
variable [DecidableEq Chan] [DecidableEq Proc] {g : Config N} {p q : Proc} {c : Chan}

theorem fire_loc_of_ne (h : q ≠ p) : (N.fire g p).loc q = g.loc q := by
  cases hloc : g.loc p with
  | ret s => rw [fire_ret hloc]; exact update_of_ne h _ _
  | read c k =>
    cases hv : (g.hist c)[g.rd c]? with
    | none => rw [fire_read_blocked hloc hv]
    | some v => rw [fire_read hloc hv]; exact update_of_ne h _ _
  | readNb c k =>
    cases hv : (g.hist c)[g.rd c]? with
    | none => rw [fire_poll_miss hloc hv]; exact update_of_ne h _ _
    | some v => rw [fire_poll hloc hv]; exact update_of_ne h _ _
  | write c v k =>
    by_cases hd : (g.hist c).length - g.rd c < N.depth c
    · rw [fire_write hloc hd]; exact update_of_ne h _ _
    · rw [fire_write_blocked hloc hd]

/-- Only a write to `c` adds to what is written there. -/
theorem hist_fire_of_ne (h : (N.fire g p).hist c ≠ g.hist c) :
    ∃ v k, g.loc p = .write c v k ∧ (N.fire g p).loc p = k := by
  cases hloc : g.loc p with
  | ret s => rw [fire_ret hloc] at h; exact absurd rfl h
  | read c k =>
    cases hv : (g.hist c)[g.rd c]? with
    | none => rw [fire_read_blocked hloc hv] at h; exact absurd rfl h
    | some v => rw [fire_read hloc hv] at h; exact absurd rfl h
  | readNb c k =>
    cases hv : (g.hist c)[g.rd c]? with
    | none => rw [fire_poll_miss hloc hv] at h; exact absurd rfl h
    | some v => rw [fire_poll hloc hv] at h; exact absurd rfl h
  | write c' v k =>
    by_cases hd : (g.hist c').length - g.rd c' < N.depth c'
    · rw [fire_write hloc hd] at h ⊢
      obtain rfl : c = c' := by
        by_contra hc
        exact h (update_of_ne hc _ _)
      exact ⟨v, k, rfl, update_self ..⟩
    · rw [fire_write_blocked hloc hd] at h; exact absurd rfl h

theorem Full.of_fire (h : Full (N.fire g p) c) (hist : (N.fire g p).hist c = g.hist c) : Full g c := by
  unfold Full at *
  have hrd := rd_le_fire g p c
  rw [hist] at h
  omega

/-- After a poll there is room. -/
theorem not_full_fire_of_poll {k : Option (V c) → Prog V (N.S p)} (h : g.loc p = .readNb c k)
    (hle : (g.hist c).length ≤ g.rd c + N.depth c) (hpos : 0 < N.depth c) : ¬ Full (N.fire g p) c := by
  unfold Full
  cases hv : (g.hist c)[g.rd c]? with
  | none =>
    rw [fire_poll_miss h hv]
    have hlen := List.getElem?_eq_none_iff.1 hv
    simp only
    omega
  | some v =>
    rw [fire_poll h hv]
    simp only [update_self]
    omega

end

/-! ## A fair run does not come to rest -/

section
variable [DecidableEq Chan] [DecidableEq Proc] {f : ℕ → Proc}

theorem eventually_const {x : ℕ → ℕ} (hx : Monotone x) (hb : ∃ M, ∀ t, x t ≤ M) : ∃ T, ∀ t, T ≤ t → x t = x T := by
  obtain ⟨M, hM⟩ := hb
  obtain ⟨T, -, hT⟩ := (measure fun t => M - x t).wf.has_min Set.univ ⟨0, trivial⟩
  refine ⟨T, fun t ht => ?_⟩
  have hmin : ¬ M - x t < M - x T := hT t trivial
  have hge : x T ≤ x t := hx ht
  have hle := hM t
  omega

omit [DecidableEq Chan] [DecidableEq Proc] in
theorem Enabled.congr {g g' : Config N} {p : Proc} (h : Enabled g p) (hloc : g'.loc p = g.loc p)
    (hrd : ∀ c, g'.rd c = g.rd c) (hlen : ∀ c, (g'.hist c).length = (g.hist c).length) : Enabled g' p := by
  unfold Enabled at *
  rw [hloc]
  cases hx : g.loc p <;> simp_all

/-- Where nothing is read, written or polled any more, who has an action left is blocked. -/
theorem not_enabled_of_rest {g : Config N} {p : Proc} (hret : (g.loc p).isRet = false)
    (hrd : ∀ c, (N.fire g p).rd c = g.rd c) (hlen : ∀ c, ((N.fire g p).hist c).length = (g.hist c).length)
    (hpolls : ((N.fire g p).polls p).length = (g.polls p).length) : ¬ Enabled g p := by
  intro he
  unfold Enabled at he
  cases hloc : g.loc p with
  | ret s => rw [hloc] at hret; exact absurd hret (by simp [Prog.isRet])
  | read c k =>
    rw [hloc] at he
    obtain ⟨v, hv⟩ := token_of_lt he
    have h := hrd c
    rw [fire_read hloc hv] at h
    simp at h
  | readNb c k =>
    cases hv : (g.hist c)[g.rd c]? with
    | none => rw [fire_poll_miss hloc hv] at hpolls; simp at hpolls
    | some v => rw [fire_poll hloc hv] at hpolls; simp at hpolls
  | write c v k =>
    rw [hloc] at he
    have h := hlen c
    rw [fire_write hloc he] at h
    simp at h

/-- **No rest without a deadlock**: if some process can always go on, a fair run has no bound on its actions. -/
theorem exists_unbounded [Finite Chan] [Finite Proc] (hbody : ∀ p s, (N.body p s).isRet = false)
    (hlive : ∀ sched, ∃ p, Enabled (N.run sched) p) (hf : Fair f)
    (hlen : ∀ c, ∃ M, ∀ t, ((N.at f t).hist c).length ≤ M) (hpolls : ∀ p, ∃ M, ∀ t, ((N.at f t).polls p).length ≤ M) :
    False := by
  have hrd : ∀ c, ∃ M, ∀ t, (N.at f t).rd c ≤ M := fun c => by
    obtain ⟨M, hM⟩ := hlen c
    exact ⟨M, fun t => (rd_run_le _ c).trans (hM t)⟩
  choose a ha using fun c => eventually_const (length_at_mono (N := N) (f := f) c) (hlen c)
  choose b hb using fun c => eventually_const (rd_at_mono (N := N) (f := f) c) (hrd c)
  choose e he using fun p => eventually_const (polls_at_mono (N := N) (f := f) p) (hpolls p)
  obtain ⟨A, hA⟩ := Finite.exists_le a
  obtain ⟨B, hB⟩ := Finite.exists_le b
  obtain ⟨E, hE⟩ := Finite.exists_le e
  obtain ⟨T, hTA, hTB, hTE⟩ : ∃ T, A ≤ T ∧ B ≤ T ∧ E ≤ T := ⟨A + B + E, by omega, by omega, by omega⟩
  -- nothing happens after `T`
  have hblocked : ∀ t, T ≤ t → ((N.at f t).loc (f t)).isRet = false → ¬ Enabled (N.at f t) (f t) := by
    intro t ht hret
    refine not_enabled_of_rest hret (fun c => ?_) (fun c => ?_) ?_
    · have h := (hb c (t + 1) (by have := hB c; omega)).trans (hb c t (by have := hB c; omega)).symm
      simpa only [at_succ] using h
    · have h := (ha c (t + 1) (by have := hA c; omega)).trans (ha c t (by have := hA c; omega)).symm
      simpa only [at_succ] using h
    · have h := (he (f t) (t + 1) (by have := hE (f t); omega)).trans (he (f t) t (by have := hE (f t); omega)).symm
      simpa only [at_succ] using h
  have hstay : ∀ p t, T ≤ t → ((N.at f t).loc p).isRet = false → ∀ u, t ≤ u → (N.at f u).loc p = (N.at f t).loc p := by
    intro p t ht hret u hu
    induction u, hu using Nat.le_induction with
    | base => rfl
    | succ u hu ih =>
      rw [at_succ]
      by_cases hp : p = f u
      · subst hp
        rw [fire_of_not_enabled (hblocked u (ht.trans hu) (ih ▸ hret)), ih]
      · rw [fire_loc_of_ne hp, ih]
  -- so each process gets stuck in an iteration,
  have hstuck : ∀ p, ∃ t, T ≤ t ∧ ((N.at f t).loc p).isRet = false := by
    intro p
    obtain ⟨u, hu, rfl⟩ := hf p T
    cases hloc : (N.at f u).loc (f u) with
    | ret s =>
      refine ⟨u + 1, by omega, ?_⟩
      rw [at_succ, fire_ret hloc]
      simp only [update_self]
      exact hbody _ s
    | _ => exact ⟨u, hu, by rw [hloc]; rfl⟩
  choose d hdT hd using hstuck
  obtain ⟨D, hD⟩ := Finite.exists_le d
  -- and the one that can go on does not
  obtain ⟨p, hp⟩ : ∃ p, Enabled (N.at f D) p := hlive _
  obtain ⟨u, hu, rfl⟩ := hf p D
  have hloc : (N.at f u).loc (f u) = (N.at f D).loc (f u) :=
    (hstay _ _ (hdT _) (hd _) u ((hD _).trans hu)).trans (hstay _ _ (hdT _) (hd _) D (hD _)).symm
  have hTD : T ≤ D := (hdT (f u)).trans (hD (f u))
  refine hblocked u (hTD.trans hu) ?_ (hp.congr hloc (fun c => ?_) fun c => ?_)
  · rw [hloc, hstay _ _ (hdT _) (hd _) D (hD _)]; exact hd _
  · exact (hb c u (by have := hB c; omega)).trans (hb c D (by have := hB c; omega)).symm
  · exact (ha c u (by have := hA c; omega)).trans (ha c D (by have := hA c; omega)).symm

end

end Kahn
