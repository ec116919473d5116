import Mathlib.Order.Monotone.Basic
import ThundeRiNG.Lib.Kahn

/-!
# Networks that never get stuck

`Rounds` builds one schedule; here every fair schedule is meant. A timetable has a time for every write and every
read of a channel: a token is read later than it is written, and written later than the token whose place it takes
is read (`Timetable`). Processes whose blocking actions each come when nothing of theirs is due earlier (`InTime`)
cannot wait for each other in a circle, so under a fair schedule everything the timetable has comes about
(`exists_due`), up to a horizon that may be as far as one likes.

| what is asked | of whom |
| --- | --- |
| use of one's own channels only                                 | every process |
| in time, on channels whose both ends are in the group           | the group `P` |
| nothing: a write to a `drained` channel may wait for its reader | outside the timetable |

Polls are not in the timetable. Whatever they find, the group goes on.
-/

namespace Kahn

open Function

variable {Chan : Type} {V : Chan → Type} {Proc : Type} {N : Network V Proc}

/-! ## Fair schedules -/

/-- Every process gets its turn again and again. -/
def Fair (f : ℕ → Proc) : Prop := ∀ p t, ∃ u, t ≤ u ∧ f u = p

/-- Turn by turn through a list, again and again. -/
def roundRobin (l : List Proc) (h : l ≠ []) (t : ℕ) : Proc := l.get ⟨t % l.length, Nat.mod_lt _ (List.length_pos_iff.2 h)⟩

theorem fair_roundRobin {l : List Proc} (h : l ≠ []) (hall : ∀ p, p ∈ l) : Fair (roundRobin l h) := by
  intro p t
  obtain ⟨i, rfl⟩ := List.mem_iff_get.1 (hall p)
  have hpos : 0 < l.length := List.length_pos_iff.2 h
  refine ⟨l.length * t + i, by have := Nat.le_mul_of_pos_left t hpos; omega, ?_⟩
  unfold roundRobin
  congr 1
  rw [Fin.ext_iff]
  exact (Nat.mul_add_mod _ _ _).trans (Nat.mod_eq_of_lt i.isLt)

section
variable [DecidableEq Chan] [DecidableEq Proc]

/-- The configuration after the first `t` turns. -/
def Network.at (N : Network V Proc) (f : ℕ → Proc) (t : ℕ) : Config N := N.run ((List.range t).map f)

theorem at_succ (f : ℕ → Proc) (t : ℕ) : N.at f (t + 1) = N.fire (N.at f t) (f t) := by
  unfold Network.at
  rw [List.range_succ, List.map_append, List.map_singleton, Network.run_concat]

end

/-! ## Where a process stands -/

/-- Process `p` has `x` left of its iteration, and `n` counts what it has done on its own channels. -/
structure At (g : Config N) (p : Proc) (x : Prog V (N.S p)) (n : Counts Chan) : Prop where
  loc : g.loc p = x
  rd : ∀ c, N.reader c = p → g.rd c = n.rd c
  wr : ∀ c, N.writer c = p → (g.hist c).length = n.wr c

/-- The channel of the next action is the process's own. -/
def Owned (N : Network V Proc) (p : Proc) {A : Type} : Prog V A → Prop
  | .ret _ => True
  | .read c _ => N.reader c = p
  | .readNb c _ => N.reader c = p
  | .write c _ _ => N.writer c = p

/-- The next action is not blocked. -/
def Enabled (g : Config N) (p : Proc) : Prop :=
  match g.loc p with
  | .ret _ => True
  | .read c _ => g.rd c < (g.hist c).length
  | .readNb _ _ => True
  | .write c _ _ => (g.hist c).length - g.rd c < N.depth c

section
variable [DecidableEq Chan] [DecidableEq Proc] {g : Config N} {p q : Proc} {x : Prog V (N.S p)} {n : Counts Chan} {c : Chan}

omit [DecidableEq Chan] [DecidableEq Proc] in
theorem token_of_lt (h : g.rd c < (g.hist c).length) : ∃ v, (g.hist c)[g.rd c]? = some v :=
  ⟨_, List.getElem?_eq_getElem h⟩

theorem fire_of_not_enabled (h : ¬ Enabled g p) : N.fire g p = g := by
  unfold Enabled at h
  cases hloc : g.loc p with
  | ret s => simp [hloc] at h
  | readNb c k => simp [hloc] at h
  | read c k => exact fire_read_blocked hloc (List.getElem?_eq_none (by simpa [hloc] using h))
  | write c v k => exact fire_write_blocked hloc (by simpa [hloc] using h)

/-- What another process does leaves `p` where it stands. -/
theorem At.of_other (h : At g p x n) (hq : q ≠ p) (hown : Owned N q (g.loc q)) : At (N.fire g q) p x n := by
  have hloc : ∀ y : Prog V (N.S q), update g.loc q y p = x := fun y => by rw [update_of_ne hq.symm, h.loc]
  have hread : ∀ c', N.reader c' = q → ∀ c, N.reader c = p → update g.rd c' (g.rd c' + 1) c = n.rd c := by
    intro c' hc' c hc
    rw [update_of_ne (fun e => hq (by rw [← hc', ← hc, e])), h.rd c hc]
  have hwrite : ∀ c' v, N.writer c' = q → ∀ c, N.writer c = p →
      (update g.hist c' (g.hist c' ++ [v]) c).length = n.wr c := by
    intro c' v hc' c hc
    rw [update_of_ne (fun e => hq (by rw [← hc', ← hc, e])), h.wr c hc]
  cases hq' : g.loc q with
  | ret s => rw [Kahn.fire_ret hq']; exact ⟨hloc _, h.rd, h.wr⟩
  | read c k =>
    rw [hq'] at hown
    cases hv : (g.hist c)[g.rd c]? with
    | none => rwa [fire_read_blocked hq' hv]
    | some v => rw [Kahn.fire_read hq' hv]; exact ⟨hloc _, hread c hown, h.wr⟩
  | readNb c k =>
    rw [hq'] at hown
    cases hv : (g.hist c)[g.rd c]? with
    | none => rw [fire_poll_miss hq' hv]; exact ⟨hloc _, h.rd, h.wr⟩
    | some v => rw [Kahn.fire_poll hq' hv]; exact ⟨hloc _, hread c hown, h.wr⟩
  | write c v k =>
    rw [hq'] at hown
    by_cases hd : (g.hist c).length - g.rd c < N.depth c
    · rw [Kahn.fire_write hq' hd]; exact ⟨hloc _, h.rd, hwrite c v hown⟩
    · rwa [fire_write_blocked hq' hd]

theorem At.fire_ret {s : N.S p} (h : At g p (.ret s) n) : At (N.fire g p) p (N.body p s) n := by
  rw [Kahn.fire_ret h.loc]
  exact ⟨update_self .., h.rd, h.wr⟩

omit [DecidableEq Proc] in
theorem At.addRd (h : At g p x n) (hr : N.reader c = p) (c' : Chan) (hc' : N.reader c' = p) :
    update g.rd c (g.rd c + 1) c' = (n.addRd c).rd c' := by
  rw [Counts.addRd_rd]
  by_cases hc : c' = c
  · subst hc; rw [update_self, if_pos rfl, h.rd c' hr]
  · rw [update_of_ne hc, if_neg hc, h.rd c' hc']

omit [DecidableEq Proc] in
theorem At.addWr (h : At g p x n) (hw : N.writer c = p) (v : V c) (c' : Chan) (hc' : N.writer c' = p) :
    (update g.hist c (g.hist c ++ [v]) c').length = (n.addWr c).wr c' := by
  rw [Counts.addWr_wr]
  by_cases hc : c' = c
  · subst hc; rw [update_self, if_pos rfl, List.length_append, List.length_singleton, h.wr c' hw]
  · rw [update_of_ne hc, if_neg hc, h.wr c' hc']

theorem At.fire_read {k : V c → Prog V (N.S p)} (h : At g p (.read c k) n) (hr : N.reader c = p)
    (he : g.rd c < (g.hist c).length) : ∃ v, At (N.fire g p) p (k v) (n.addRd c) := by
  obtain ⟨v, hv⟩ := token_of_lt he
  rw [Kahn.fire_read h.loc hv]
  exact ⟨v, update_self .., h.addRd hr, h.wr⟩

theorem At.fire_poll {k : Option (V c) → Prog V (N.S p)} (h : At g p (.readNb c k) n) (hr : N.reader c = p) :
    At (N.fire g p) p (k none) n.addPoll ∨ ∃ v, At (N.fire g p) p (k (some v)) (n.addRd c).addPoll := by
  cases hv : (g.hist c)[g.rd c]? with
  | none => rw [fire_poll_miss h.loc hv]; exact .inl ⟨update_self .., h.rd, h.wr⟩
  | some v => rw [Kahn.fire_poll h.loc hv]; exact .inr ⟨v, update_self .., h.addRd hr, h.wr⟩

theorem At.fire_write {v : V c} {k : Prog V (N.S p)} (h : At g p (.write c v k) n) (hw : N.writer c = p)
    (he : (g.hist c).length - g.rd c < N.depth c) : At (N.fire g p) p k (n.addWr c) := by
  rw [Kahn.fire_write h.loc he]
  exact ⟨update_self .., h.rd, h.addWr hw v⟩

end

/-! ## Timetables -/

/-- When token `m` of a channel is written and when it is read, for the channels that are `live`. -/
structure Timetable (N : Network V Proc) (live : Chan → Prop) where
  W : Chan → ℕ → ℕ
  D : Chan → ℕ → ℕ
  strictMono_W : ∀ c, StrictMono (W c)
  strictMono_D : ∀ c, StrictMono (D c)
  written : ∀ c m, live c → W c m < D c m
  /-- The token whose place token `m` takes has been read. -/
  room : ∀ c m, live c → N.depth c ≤ m → D c (m - N.depth c) < W c m

namespace Timetable

variable {live : Chan → Prop} (T : Timetable N live) {p : Proc} {n : Counts Chan}

/-- Nothing of `p`, which has counted `n`, comes before time `τ`. -/
structure Due (p : Proc) (n : Counts Chan) (τ : ℕ) : Prop where
  rd : ∀ c, live c → N.reader c = p → τ ≤ T.D c (n.rd c)
  wr : ∀ c, live c → N.writer c = p → τ ≤ T.W c (n.wr c)

variable {T}

theorem depth_pos (T : Timetable N live) {c : Chan} (hc : live c) : 0 < N.depth c := by
  by_contra h
  have hr := T.room c 0 hc (by omega)
  have hw := T.written c 0 hc
  simp only [Nat.zero_sub] at hr
  omega

theorem Due.mono {n' : Counts Chan} {τ τ' : ℕ} (h : T.Due p n τ) (hτ : τ' ≤ τ)
    (hrd : ∀ c, N.reader c = p → n.rd c ≤ n'.rd c) (hwr : ∀ c, N.writer c = p → n.wr c ≤ n'.wr c) : T.Due p n' τ' where
  rd c hc hp := hτ.trans ((h.rd c hc hp).trans ((T.strictMono_D c).monotone (hrd c hp)))
  wr c hc hp := hτ.trans ((h.wr c hc hp).trans ((T.strictMono_W c).monotone (hwr c hp)))

theorem Due.of_le {τ τ' : ℕ} (h : T.Due p n τ) (hτ : τ' ≤ τ) : T.Due p n τ' :=
  h.mono hτ (fun _ _ => le_rfl) fun _ _ => le_rfl

/-- The next action on every channel of `p` in the timetable has moved on. -/
structure Advanced (N : Network V Proc) (live : Chan → Prop) (p : Proc) (n n' : Counts Chan) : Prop where
  rd : ∀ c, live c → N.reader c = p → n.rd c < n'.rd c
  wr : ∀ c, live c → N.writer c = p → n.wr c < n'.wr c

theorem Due.succ {n' : Counts Chan} {τ : ℕ} (h : T.Due p n τ) (ha : Advanced N live p n n') : T.Due p n' (τ + 1) where
  rd c hc hp := (h.rd c hc hp).trans_lt (T.strictMono_D c (ha.rd c hc hp))
  wr c hc hp := (h.wr c hc hp).trans_lt (T.strictMono_W c (ha.wr c hc hp))

variable [DecidableEq Chan]

theorem Due.addRd {τ : ℕ} (h : T.Due p n τ) (c : Chan) : T.Due p (n.addRd c) τ := by
  refine h.mono le_rfl (fun c' _ => ?_) fun _ _ => le_rfl
  rw [Counts.addRd_rd]
  split
  · rename_i hc; subst hc; omega
  · rfl

theorem Due.addWr {τ : ℕ} (h : T.Due p n τ) (c : Chan) : T.Due p (n.addWr c) τ := by
  refine h.mono le_rfl (fun _ _ => le_rfl) fun c' _ => ?_
  rw [Counts.addWr_wr]
  split
  · rename_i hc; subst hc; omega
  · rfl

omit [DecidableEq Chan] in
theorem Due.addPoll {τ : ℕ} (h : T.Due p n τ) : T.Due p n.addPoll τ := ⟨h.rd, h.wr⟩

variable (T)

/-- From here on `p` uses its own channels only; if it belongs to the group, each blocking action comes when nothing
    of `p` is due earlier, or past the horizon `H`; and it ends in `Q`. -/
def InTime (P : Proc → Prop) (drained : Chan → Prop) (H : ℕ) (p : Proc) {A : Type} :
    Prog V A → Counts Chan → (A → Counts Chan → Prop) → Prop
  | .ret a, n, Q => Q a n
  | .read c k, n, Q =>
    N.reader c = p ∧ (P p → T.Due p n H ∨ live c ∧ T.Due p n (T.D c (n.rd c))) ∧
      ∀ v, InTime P drained H p (k v) (n.addRd c) Q
  | .readNb c k, n, Q =>
    N.reader c = p ∧ ¬ live c ∧ InTime P drained H p (k none) n.addPoll Q ∧
      ∀ v, InTime P drained H p (k (some v)) (n.addRd c).addPoll Q
  | .write c _ k, n, Q =>
    N.writer c = p ∧ (P p → T.Due p n H ∨ drained c ∨ live c ∧ T.Due p n (T.W c (n.wr c))) ∧
      InTime P drained H p k (n.addWr c) Q

variable {T} {P : Proc → Prop} {drained : Chan → Prop} {H : ℕ} {A B : Type}

theorem inTime_bind {x : Prog V B} {f : B → Prog V A} {Q : A → Counts Chan → Prop} :
    T.InTime P drained H p (x >>= f) n Q ↔
      T.InTime P drained H p x n fun b m => T.InTime P drained H p (f b) m Q := by
  induction x generalizing n with
  | ret b => rfl
  | read c k ih => exact and_congr_right fun _ => and_congr_right fun _ => forall_congr' fun v => ih v
  | readNb c k ih =>
    exact and_congr_right fun _ => and_congr_right fun _ => and_congr (ih none) (forall_congr' fun v => ih (some v))
  | write c v k ih => exact and_congr_right fun _ => and_congr_right fun _ => ih

theorem inTime_get {c : Chan} {Q : V c → Counts Chan → Prop} :
    T.InTime P drained H p (.get c) n Q ↔
      N.reader c = p ∧ (P p → T.Due p n H ∨ live c ∧ T.Due p n (T.D c (n.rd c))) ∧ ∀ v, Q v (n.addRd c) := Iff.rfl

theorem inTime_put {c : Chan} {v : V c} {Q : Unit → Counts Chan → Prop} :
    T.InTime P drained H p (.put c v) n Q ↔
      N.writer c = p ∧ (P p → T.Due p n H ∨ drained c ∨ live c ∧ T.Due p n (T.W c (n.wr c))) ∧ Q () (n.addWr c) :=
  Iff.rfl

omit [DecidableEq Chan] in
/-- A read at the time that is due. -/
theorem Due.read {τ : ℕ} {c : Chan} (h : T.Due p n τ) (hc : P p → live c) (hD : T.D c (n.rd c) = τ) (hp : P p) :
    T.Due p n H ∨ live c ∧ T.Due p n (T.D c (n.rd c)) := .inr ⟨hc hp, hD ▸ h⟩

omit [DecidableEq Chan] in
theorem Due.write {τ : ℕ} {c : Chan} (h : T.Due p n τ) (hc : P p → live c) (hW : T.W c (n.wr c) = τ) (hp : P p) :
    T.Due p n H ∨ drained c ∨ live c ∧ T.Due p n (T.W c (n.wr c)) := .inr (.inr ⟨hc hp, hW ▸ h⟩)

theorem InTime.mono {Q Q' : A → Counts Chan → Prop} (hQ : ∀ a m, Q a m → Q' a m) {x : Prog V A}
    (h : T.InTime P drained H p x n Q) : T.InTime P drained H p x n Q' := by
  induction x generalizing n with
  | ret a => exact hQ _ _ h
  | read c k ih => exact ⟨h.1, h.2.1, fun v => ih v (h.2.2 v)⟩
  | readNb c k ih => exact ⟨h.1, h.2.1, ih none h.2.2.1, fun v => ih (some v) (h.2.2.2 v)⟩
  | write c v k ih => exact ⟨h.1, h.2.1, ih h.2.2⟩

theorem InTime.owned {Q : A → Counts Chan → Prop} {x : Prog V A} (h : T.InTime P drained H p x n Q) : Owned N p x := by
  cases x with
  | ret a => trivial
  | read c k => exact h.1
  | readNb c k => exact h.1
  | write c v k => exact h.1

/-- What each process of a network has to do: it keeps to `R` between its iterations, which are in time; an iteration
    of the group moves every channel of the timetable on, or the process is past the horizon. -/
structure Kept (T : Timetable N live) (P : Proc → Prop) (drained : Chan → Prop) (H : ℕ)
    (R : (p : Proc) → N.S p → Counts Chan → Prop) : Prop where
  ends : ∀ c, live c → P (N.reader c) ∧ P (N.writer c)
  init : ∀ p, R p (N.init p) .zero
  body : ∀ p s n, R p s n → T.InTime P drained H p (N.body p s) n fun s' n' =>
    R p s' n' ∧ (P p → T.Due p n' H ∨ Advanced N live p n n')

end Timetable

/-! ## A fair run -/

/-- What has been read and written in all. -/
def Config.tally (g : Config N) : Counts Chan := ⟨g.rd, fun c => (g.hist c).length, 0⟩

section
variable {live : Chan → Prop} {T : Timetable N live} {p : Proc} {τ : ℕ}

theorem At.due_tally {g : Config N} {x : Prog V (N.S p)} {n : Counts Chan} (h : At g p x n) :
    T.Due p g.tally τ ↔ T.Due p n τ := by
  constructor
  · exact fun hd => hd.mono le_rfl (fun c hc => (h.rd c hc).le) fun c hc => (h.wr c hc).le
  · exact fun hd => hd.mono le_rfl (fun c hc => (h.rd c hc).ge) fun c hc => (h.wr c hc).ge

variable [DecidableEq Chan] [DecidableEq Proc] {f : ℕ → Proc}

theorem rd_le_fire (g : Config N) (p : Proc) (c : Chan) : g.rd c ≤ (N.fire g p).rd c := by
  have hread : ∀ c', g.rd c ≤ update g.rd c' (g.rd c' + 1) c := by
    intro c'
    by_cases hc : c = c'
    · subst hc; simp
    · rw [update_of_ne hc]
  unfold Network.fire
  split
  · rfl
  · split
    · rfl
    · exact hread _
  · split
    · rfl
    · exact hread _
  · split <;> rfl

theorem length_le_fire (g : Config N) (p : Proc) (c : Chan) : (g.hist c).length ≤ ((N.fire g p).hist c).length := by
  unfold Network.fire
  split
  · rfl
  · split <;> rfl
  · split <;> rfl
  · rename_i c' v k _
    split
    · by_cases hc : c = c'
      · subst hc; simp
      · exact Nat.le_of_eq (by simp [update_of_ne hc])
    · rfl

theorem rd_at_mono (c : Chan) : Monotone fun t => (N.at f t).rd c :=
  monotone_nat_of_le_succ fun t => by rw [at_succ]; exact rd_le_fire _ _ _

theorem length_at_mono (c : Chan) : Monotone fun t => ((N.at f t).hist c).length :=
  monotone_nat_of_le_succ fun t => by rw [at_succ]; exact length_le_fire _ _ _

theorem due_at_mono {t u : ℕ} (htu : t ≤ u) (h : T.Due p (N.at f t).tally τ) : T.Due p (N.at f u).tally τ :=
  h.mono le_rfl (fun c _ => rd_at_mono c htu) fun c _ => length_at_mono c htu

variable {P : Proc → Prop} {drained : Chan → Prop} {H : ℕ} {R : (p : Proc) → N.S p → Counts Chan → Prop}
  (hK : T.Kept P drained H R)
include hK

/-- Whenever a run stops, every process stands at a point from where its iteration is in time. -/
theorem exists_at (f : ℕ → Proc) (t : ℕ) (p : Proc) :
    ∃ x n, At (N.at f t) p x n ∧ T.InTime P drained H p x n (R p) := by
  induction t generalizing p with
  | zero => exact ⟨.ret (N.init p), .zero, ⟨rfl, fun _ _ => rfl, fun _ _ => rfl⟩, hK.init p⟩
  | succ t ih =>
    rw [at_succ]
    obtain ⟨x, n, h, hx⟩ := ih p
    by_cases hq : f t = p
    · rw [hq]
      by_cases he : Enabled (N.at f t) p
      · cases x with
        | ret s => exact ⟨_, n, h.fire_ret, (hK.body p s n hx).mono fun _ _ h => h.1⟩
        | read c k =>
          obtain ⟨v, h'⟩ := h.fire_read hx.1 (by simpa [Enabled, h.loc] using he)
          exact ⟨_, _, h', hx.2.2 v⟩
        | readNb c k =>
          obtain h' | ⟨v, h'⟩ := h.fire_poll hx.1
          · exact ⟨_, _, h', hx.2.2.1⟩
          · exact ⟨_, _, h', hx.2.2.2 v⟩
        | write c v k => exact ⟨_, _, h.fire_write hx.1 (by simpa [Enabled, h.loc] using he), hx.2.2⟩
      · rw [fire_of_not_enabled he]; exact ⟨x, n, h, hx⟩
    · obtain ⟨y, m, hy, hym⟩ := ih (f t)
      exact ⟨x, n, h.of_other hq (hy.loc ▸ hym.owned), hx⟩

/-- A process stays where it is until a turn of its own finds it not blocked. -/
theorem exists_enabled_turn (hf : Fair f) {t : ℕ} {x : Prog V (N.S p)} {n : Counts Chan} (h : At (N.at f t) p x n)
    (he : ∃ t', ∀ u, t' ≤ u → At (N.at f u) p x n → Enabled (N.at f u) p) :
    ∃ u, t ≤ u ∧ f u = p ∧ At (N.at f u) p x n ∧ Enabled (N.at f u) p := by
  by_contra hno
  push Not at hno
  have hstay : ∀ u, t ≤ u → At (N.at f u) p x n := by
    intro u hu
    induction u, hu using Nat.le_induction with
    | base => exact h
    | succ u hu ih =>
      rw [at_succ]
      by_cases hq : f u = p
      · rwa [hq, fire_of_not_enabled (hno u hu hq ih)]
      · obtain ⟨y, m, hy, hym⟩ := exists_at hK f u (f u)
        exact ih.of_other hq (hy.loc ▸ hym.owned)
  obtain ⟨t', ht'⟩ := he
  obtain ⟨u, hu, hq⟩ := hf p (max t t')
  have hat := hstay u ((le_max_left _ _).trans hu)
  exact hno u ((le_max_left _ _).trans hu) hq hat (ht' u ((le_max_right _ _).trans hu) hat)

variable (hdrain : ∀ c, drained c → P (N.writer c) → ∀ t,
  ∃ u, t ≤ u ∧ ((N.at f u).hist c).length - (N.at f u).rd c < N.depth c)
include hdrain

/-- If all of the group get as far as `τ`, none of them is blocked for good on an action of time `τ`. -/
theorem eventually_enabled (hτ : τ < H) (hdue : ∀ q, P q → ∃ t, T.Due q (N.at f t).tally τ) (hp : P p) {t : ℕ}
    {x : Prog V (N.S p)} {n : Counts Chan} {Q : N.S p → Counts Chan → Prop} (h : At (N.at f t) p x n)
    (hx : T.InTime P drained H p x n Q) (hn : ¬ T.Due p n (τ + 1)) :
    ∃ t', ∀ u, t' ≤ u → At (N.at f u) p x n → Enabled (N.at f u) p := by
  cases x with
  | ret s => exact ⟨0, fun u _ hu => by simp [Enabled, hu.loc]⟩
  | readNb c k => exact ⟨0, fun u _ hu => by simp [Enabled, hu.loc]⟩
  | read c k =>
    obtain ⟨hr, hd, -⟩ := hx
    obtain hH | ⟨hc, hd⟩ := hd hp
    · exact absurd (hH.of_le hτ) hn
    · have hnow : T.D c (n.rd c) ≤ τ := Nat.not_lt.1 fun hlt => hn (hd.of_le hlt)
      obtain ⟨t', ht'⟩ := hdue _ (hK.ends c hc).2
      refine ⟨t', fun u hu hat => ?_⟩
      have hw := (due_at_mono hu ht').wr c hc rfl
      have hlt : n.rd c < ((N.at f u).hist c).length :=
        (T.strictMono_W c).lt_iff_lt.1 ((T.written c _ hc).trans_le (hnow.trans hw))
      simpa [Enabled, hat.loc, hat.rd c hr] using hlt
  | write c v k =>
    obtain ⟨hw, hd, -⟩ := hx
    obtain hH | hdr | ⟨hc, hd⟩ := hd hp
    · exact absurd (hH.of_le hτ) hn
    · obtain ⟨t', htt', hroom⟩ := hdrain c hdr (hw ▸ hp) t
      refine ⟨t', fun u hu hat => ?_⟩
      have hrd := rd_at_mono (f := f) (N := N) c hu
      have hlen := length_at_mono (f := f) (N := N) c htt'
      have h0 := h.wr c hw
      have h1 := hat.wr c hw
      simp only [Enabled, hat.loc]
      simp only at hrd hlen
      omega
    · have hnow : T.W c (n.wr c) ≤ τ := Nat.not_lt.1 fun hlt => hn (hd.of_le hlt)
      obtain ⟨t', ht'⟩ := hdue _ (hK.ends c hc).1
      refine ⟨t', fun u hu hat => ?_⟩
      simp only [Enabled, hat.loc]
      rw [hat.wr c hw]
      by_cases hfull : N.depth c ≤ n.wr c
      · have hr := (due_at_mono hu ht').rd c hc rfl
        have hlt : n.wr c - N.depth c < (N.at f u).rd c :=
          (T.strictMono_D c).lt_iff_lt.1 ((T.room c _ hc hfull).trans_le (hnow.trans hr))
        have hpos := T.depth_pos hc
        omega
      · omega

/-- Then each of them gets to the end of its iteration, or past `τ`. -/
theorem exists_ret (hf : Fair f) (hτ : τ < H) (hdue : ∀ q, P q → ∃ t, T.Due q (N.at f t).tally τ) (hp : P p) {t : ℕ}
    {x : Prog V (N.S p)} {n : Counts Chan} {Q : N.S p → Counts Chan → Prop} (h : At (N.at f t) p x n)
    (hx : T.InTime P drained H p x n Q) :
    ∃ u, t ≤ u ∧ (T.Due p (N.at f u).tally (τ + 1) ∨ ∃ s m, At (N.at f u) p (.ret s) m ∧ Q s m) := by
  induction x generalizing t n with
  | ret s => exact ⟨t, le_rfl, .inr ⟨s, n, h, hx⟩⟩
  | read c k ih =>
    by_cases hn : T.Due p n (τ + 1)
    · exact ⟨t, le_rfl, .inl (h.due_tally.2 hn)⟩
    obtain ⟨u, hu, hq, hat, he⟩ := exists_enabled_turn hK hf h (eventually_enabled hK hdrain hτ hdue hp h hx hn)
    have hnext : N.at f (u + 1) = N.fire (N.at f u) p := by rw [at_succ, hq]
    obtain ⟨v, hv⟩ := hat.fire_read hx.1 (by simpa [Enabled, hat.loc] using he)
    obtain ⟨u', hu', hend⟩ := ih v (hnext ▸ hv) (hx.2.2 v)
    exact ⟨u', by omega, hend⟩
  | readNb c k ih =>
    by_cases hn : T.Due p n (τ + 1)
    · exact ⟨t, le_rfl, .inl (h.due_tally.2 hn)⟩
    obtain ⟨u, hu, hq, hat, -⟩ := exists_enabled_turn hK hf h (eventually_enabled hK hdrain hτ hdue hp h hx hn)
    have hnext : N.at f (u + 1) = N.fire (N.at f u) p := by rw [at_succ, hq]
    obtain hv | ⟨v, hv⟩ := hat.fire_poll hx.1
    · obtain ⟨u', hu', hend⟩ := ih none (hnext ▸ hv) hx.2.2.1
      exact ⟨u', by omega, hend⟩
    · obtain ⟨u', hu', hend⟩ := ih (some v) (hnext ▸ hv) (hx.2.2.2 v)
      exact ⟨u', by omega, hend⟩
  | write c v k ih =>
    by_cases hn : T.Due p n (τ + 1)
    · exact ⟨t, le_rfl, .inl (h.due_tally.2 hn)⟩
    obtain ⟨u, hu, hq, hat, he⟩ := exists_enabled_turn hK hf h (eventually_enabled hK hdrain hτ hdue hp h hx hn)
    have hnext : N.at f (u + 1) = N.fire (N.at f u) p := by rw [at_succ, hq]
    obtain ⟨u', hu', hend⟩ := ih (hnext ▸ hat.fire_write hx.1 (by simpa [Enabled, hat.loc] using he)) hx.2.2
    exact ⟨u', by omega, hend⟩

/-- **Nobody is stuck**: in a fair run all of the group get as far as any time up to the horizon. The induction is on
    the time: what `τ` asks of a process, others have to do before `τ`. -/
theorem exists_due (hf : Fair f) (hτ : τ ≤ H) (hp : P p) : ∃ t, T.Due p (N.at f t).tally τ := by
  induction τ generalizing p with
  | zero => exact ⟨0, fun _ _ _ => Nat.zero_le _, fun _ _ _ => Nat.zero_le _⟩
  | succ τ ih =>
    have hdue : ∀ q, P q → ∃ t, T.Due q (N.at f t).tally τ := fun q hq => ih (by omega) hq
    obtain ⟨t, ht⟩ := hdue p hp
    obtain ⟨x, n, h, hx⟩ := exists_at hK f t p
    obtain ⟨u, hu, hdone | ⟨s, m, hm, hR⟩⟩ := exists_ret hK hdrain hf hτ hdue hp h hx
    · exact ⟨u, hdone⟩
    -- between iterations: the next one moves every channel of `p` on
    obtain ⟨u₁, hu₁, hq, hat, -⟩ := exists_enabled_turn hK hf hm ⟨0, fun u _ hu => by simp [Enabled, hu.loc]⟩
    have hnext : N.at f (u₁ + 1) = N.fire (N.at f u₁) p := by rw [at_succ, hq]
    obtain ⟨u₂, hu₂, hdone | ⟨s', m', hm', -, hend⟩⟩ :=
      exists_ret hK hdrain hf hτ hdue hp (hnext ▸ hat.fire_ret) (hK.body p s m hR)
    · exact ⟨u₂, hdone⟩
    refine ⟨u₂, hm'.due_tally.2 ?_⟩
    obtain hH | ha := hend hp
    · exact hH.of_le hτ
    · exact (hm.due_tally.1 (due_at_mono hu ht)).succ ha

/-- Each token that the timetable has before the horizon is written and read. -/
theorem exists_lt_rd (hf : Fair f) {c : Chan} (hc : live c) {m : ℕ} (hm : T.D c m < H) : ∃ t, m < (N.at f t).rd c := by
  obtain ⟨t, ht⟩ := exists_due hK hdrain hf hm (hK.ends c hc).1
  exact ⟨t, (T.strictMono_D c).lt_iff_lt.1 (ht.rd c hc rfl)⟩

end

/-- What the first reads of a channel took, where the channel holds a known stream. -/
theorem take_consumed [DecidableEq Chan] [DecidableEq Proc] {f : ℕ → Proc} {c : Chan} {stream : ℕ → V c} {m t : ℕ}
    (hhist : (N.at f t).hist c = (List.range ((N.at f t).hist c).length).map stream) (hm : m ≤ (N.at f t).rd c) :
    ((N.at f t).consumed c).take m = (List.range m).map stream := by
  have hle : (N.at f t).rd c ≤ ((N.at f t).hist c).length := rd_run_le _ _
  rw [Config.consumed, hhist, ← List.map_take, ← List.map_take, List.take_range, List.take_range]
  congr 2
  omega

/-! ## A channel that is polled drains -/

section
variable [DecidableEq Chan] [DecidableEq Proc] {f : ℕ → Proc} {c : Chan}

theorem length_fire_le {g : Config N} {p : Proc} (hle : (g.hist c).length ≤ g.rd c + N.depth c) :
    ((N.fire g p).hist c).length ≤ (N.fire g p).rd c + N.depth c := by
  have hrd := rd_le_fire g p c
  cases hloc : g.loc p with
  | ret s => rw [fire_ret hloc]; exact hle
  | read c' k =>
    cases hv : (g.hist c')[g.rd c']? with
    | none => rwa [fire_read_blocked hloc hv]
    | some v => rw [fire_read hloc hv] at hrd ⊢; exact hle.trans (Nat.add_le_add_right hrd _)
  | readNb c' k =>
    cases hv : (g.hist c')[g.rd c']? with
    | none => rw [fire_poll_miss hloc hv]; exact hle
    | some v => rw [fire_poll hloc hv] at hrd ⊢; exact hle.trans (Nat.add_le_add_right hrd _)
  | write c' v k =>
    by_cases hd : (g.hist c').length - g.rd c' < N.depth c'
    · rw [fire_write hloc hd]
      by_cases hc : c = c'
      · subst hc; simp; omega
      · simpa [update_of_ne hc] using hle
    · rwa [fire_write_blocked hloc hd]

/-- A FIFO never holds more than its depth. -/
theorem length_run_le (sched : List Proc) (c : Chan) :
    ((N.run sched).hist c).length ≤ (N.run sched).rd c + N.depth c := by
  induction sched using List.reverseRecOn with
  | nil => exact Nat.zero_le _
  | append_singleton sched p ih => rw [Network.run_concat]; exact length_fire_le ih

theorem length_at_le (t : ℕ) : ((N.at f t).hist c).length ≤ (N.at f t).rd c + N.depth c := length_run_le _ c

theorem polls_at_mono (p : Proc) : Monotone fun t => ((N.at f t).polls p).length := by
  refine monotone_nat_of_le_succ fun t => ?_
  obtain ⟨l, hl⟩ := polls_fire (N.at f t) (f t) p
  simp only [at_succ, hl, List.length_append]
  omega

/-- Only a poll of `p` adds to its outcomes. -/
theorem polls_fire_of_lt {g : Config N} {p q : Proc} (h : (g.polls q).length < ((N.fire g p).polls q).length) :
    p = q ∧ ∃ c k, g.loc q = .readNb c k := by
  have hsame : g.polls q ≠ (N.fire g p).polls q := fun e => by rw [← e] at h; exact lt_irrefl _ h
  cases hloc : g.loc p with
  | ret s => rw [fire_ret hloc] at hsame; exact absurd rfl hsame
  | read c k =>
    cases hv : (g.hist c)[g.rd c]? with
    | none => rw [fire_read_blocked hloc hv] at hsame; exact absurd rfl hsame
    | some v => rw [fire_read hloc hv] at hsame; exact absurd rfl hsame
  | write c v k =>
    by_cases hd : (g.hist c).length - g.rd c < N.depth c
    · rw [fire_write hloc hd] at hsame; exact absurd rfl hsame
    · rw [fire_write_blocked hloc hd] at hsame; exact absurd rfl hsame
  | readNb c k =>
    by_cases hq : p = q
    · subst hq; exact ⟨rfl, c, k, hloc⟩
    · exfalso
      cases hv : (g.hist c)[g.rd c]? with
      | none => rw [fire_poll_miss hloc hv] at hsame; exact hsame (update_of_ne (Ne.symm hq) _ _).symm
      | some v => rw [fire_poll hloc hv] at hsame; exact hsame (update_of_ne (Ne.symm hq) _ _).symm

/-- If its reader polls `c`, and nothing else, for ever, then `c` has room again and again. -/
theorem exists_room_of_polls (hpos : 0 < N.depth c)
    (hown : ∀ t c' k, (N.at f t).loc (N.reader c) = .readNb c' k → c' = c)
    (hpolls : ∀ m, ∃ t, m ≤ ((N.at f t).polls (N.reader c)).length) (t : ℕ) :
    ∃ u, t ≤ u ∧ ((N.at f u).hist c).length - (N.at f u).rd c < N.depth c := by
  by_contra hfull
  push Not at hfull
  -- then no poll can come after `t`: it would find a token and make room
  have hnone : ∀ u, t ≤ u → ((N.at f u).polls (N.reader c)).length ≤ ((N.at f t).polls (N.reader c)).length := by
    intro u hu
    induction u, hu using Nat.le_induction with
    | base => rfl
    | succ u hu ih =>
      by_contra hlt
      have hgrow : ((N.at f u).polls (N.reader c)).length < ((N.at f (u + 1)).polls (N.reader c)).length := by omega
      rw [at_succ] at hgrow
      obtain ⟨hq, c', k, hloc⟩ := polls_fire_of_lt hgrow
      obtain rfl := hown u c' k hloc
      obtain ⟨v, hv⟩ := token_of_lt (g := N.at f u) (c := c') (by have := hfull u hu; omega)
      have hroom := hfull (u + 1) (by omega)
      have hle := length_at_le (N := N) (f := f) (c := c') u
      rw [at_succ, hq, fire_poll hloc hv] at hroom
      simp only [update_self] at hroom
      omega
  obtain ⟨u, hu⟩ := hpolls (((N.at f t).polls (N.reader c)).length + 1)
  obtain htu | hut := Nat.le_total t u
  · have := hnone u htu; omega
  · have hmono := polls_at_mono (N := N) (f := f) (N.reader c) hut
    simp only at hmono
    omega

end

/-! ## The timetable of an order -/

namespace Timetable

variable {live : Chan → Prop}

/-- A common clock: token `m` of `c` belongs to tick `w c * m`, and within a tick the processes act in the order
    `rank`, every writer before its reader. -/
def ofRank (w : Chan → ℕ) (rank : Proc → ℕ) (K : ℕ) (hK : ∀ p, rank p < K) (hw : ∀ c, 0 < w c)
    (hrank : ∀ c, live c → rank (N.writer c) < rank (N.reader c)) (hdepth : ∀ c, live c → 0 < N.depth c) :
    Timetable N live where
  W c m := K * (w c * m) + rank (N.writer c)
  D c m := K * (w c * m) + rank (N.reader c)
  strictMono_W c m m' h := by
    have hlt : K * (w c * m) < K * (w c * m') :=
      Nat.mul_lt_mul_of_pos_left (Nat.mul_lt_mul_of_pos_left h (hw c)) (Nat.zero_lt_of_lt (hK (N.writer c)))
    simp only
    omega
  strictMono_D c m m' h := by
    have hlt : K * (w c * m) < K * (w c * m') :=
      Nat.mul_lt_mul_of_pos_left (Nat.mul_lt_mul_of_pos_left h (hw c)) (Nat.zero_lt_of_lt (hK (N.reader c)))
    simp only
    omega
  written c m hc := by have := hrank c hc; omega
  room c m hc hm := by
    have hstep : w c * (m - N.depth c) + 1 ≤ w c * m := by
      have hlt : w c * (m - N.depth c) < w c * m :=
        Nat.mul_lt_mul_of_pos_left (by have := hdepth c hc; omega) (hw c)
      exact hlt
    have htick := Nat.mul_le_mul_left K hstep
    rw [Nat.mul_add, Nat.mul_one] at htick
    have hr := hK (N.reader c)
    omega

end Timetable

end Kahn
