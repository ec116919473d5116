import ThundeRiNG.Lib.Fair

/-!
# Placing a process in a larger network

A process written for one set of channels runs unchanged on the channels of a larger network that stand for them
(`Prog.place`). What was proved of it there holds here: it keeps to the streams (`conf_place`) and to a timetable
(`inTime_place`), with the counts read through the placement.
-/

namespace Kahn

variable {C C' : Type} {V : C → Type} {V' : C' → Type} {A : Type}

/-- Where each channel lies, with the same tokens. -/
structure Placement (V : C → Type) (V' : C' → Type) where
  chan : C → C'
  inj : Function.Injective chan
  val : (c : C) → V c ≃ V' (chan c)

def Prog.place (e : Placement V V') : Prog V A → Prog V' A
  | .ret a => .ret a
  | .read c k => .read (e.chan c) fun v => (k ((e.val c).symm v)).place e
  | .readNb c k => .readNb (e.chan c) fun v => (k (v.map (e.val c).symm)).place e
  | .write c v k => .write (e.chan c) (e.val c v) (k.place e)

/-- The counts of the channels that are placed. -/
def Counts.within (e : Placement V V') (n : Counts C') : Counts C :=
  ⟨fun c => n.rd (e.chan c), fun c => n.wr (e.chan c), n.polls⟩

section
variable (e : Placement V V') (n : Counts C') (c : C)

@[simp] theorem within_zero : (Counts.zero : Counts C').within e = .zero := rfl

@[simp] theorem within_addPoll : n.addPoll.within e = (n.within e).addPoll := rfl

variable [DecidableEq C] [DecidableEq C']

@[simp] theorem within_addRd : (n.addRd (e.chan c)).within e = (n.within e).addRd c := by
  unfold Counts.within Counts.addRd
  congr 1
  funext c'
  simp only [Function.update_apply, e.inj.eq_iff]

@[simp] theorem within_addWr : (n.addWr (e.chan c)).within e = (n.within e).addWr c := by
  unfold Counts.within Counts.addWr
  congr 1
  funext c'
  simp only [Function.update_apply, e.inj.eq_iff]

end

variable {Proc Proc' : Type} [DecidableEq C] [DecidableEq C'] {N : Network V Proc} {N' : Network V' Proc'} {e : Placement V V'}
  {p : Proc} {p' : Proc'} {n : Counts C'} {Q : A → Counts C → Prop}

/-- The ends of `p` are those of `p'`. -/
structure SameEnds (N : Network V Proc) (N' : Network V' Proc') (e : Placement V V') (p : Proc) (p' : Proc') : Prop where
  reader : ∀ c, N.reader c = p → N'.reader (e.chan c) = p'
  writer : ∀ c, N.writer c = p → N'.writer (e.chan c) = p'

theorem conf_place {σ : (c : C) → ℕ → V c} {σ' : (c : C') → ℕ → V' c} {orc : Proc → ℕ → Bool} {orc' : Proc' → ℕ → Bool}
    {G : Guard C} (hends : SameEnds N N' e p p') (hσ : ∀ c i, e.val c (σ c i) = σ' (e.chan c) i)
    (horc : orc p = orc' p') {x : Prog V A} (h : Conf N σ orc G p x (n.within e) Q) :
    Conf N' σ' orc' .free p' (x.place e) n fun a m => Q a (m.within e) := by
  induction x generalizing n with
  | ret a => exact h
  | read c k ih =>
    obtain ⟨hr, -, hk⟩ := h
    have hv : (e.val c).symm (σ' (e.chan c) (n.rd (e.chan c))) = σ c ((n.within e).rd c) := by
      rw [← hσ, Equiv.symm_apply_apply]; rfl
    refine ⟨hends.reader c hr, trivial, ?_⟩
    simp only [hv]
    exact ih _ (by rwa [within_addRd])
  | readNb c k ih =>
    obtain ⟨hr, hk⟩ := h
    have hv : (e.val c).symm (σ' (e.chan c) (n.rd (e.chan c))) = σ c ((n.within e).rd c) := by
      rw [← hσ, Equiv.symm_apply_apply]; rfl
    have ho : orc p (n.within e).polls = orc' p' n.polls := congrFun horc _
    refine ⟨hends.reader c hr, ?_⟩
    rw [ho] at hk
    by_cases hb : orc' p' n.polls
    · rw [if_pos hb] at hk ⊢
      refine ⟨trivial, ?_⟩
      simp only [Option.map_some, hv]
      exact ih _ (by rw [within_addPoll, within_addRd]; exact hk.2)
    · rw [if_neg hb] at hk ⊢
      exact ⟨trivial, ih _ hk.2⟩
  | write c v k ih =>
    obtain ⟨hw, -, rfl, hk⟩ := h
    exact ⟨hends.writer c hw, trivial, hσ _ _, ih (by rwa [within_addWr])⟩

/-- The timetables agree on what `p` does: its channels have the same times here and there, and `p'` has no others. -/
structure SameTimes {live : C → Prop} {live' : C' → Prop} (T : Timetable N live) (T' : Timetable N' live')
    (e : Placement V V') (p : Proc) (p' : Proc') : Prop where
  D : ∀ c m, T.D c m = T'.D (e.chan c) m
  W : ∀ c m, T.W c m = T'.W (e.chan c) m
  live : ∀ c, live c ↔ live' (e.chan c)
  reader : ∀ c', live' c' → N'.reader c' = p' → ∃ c, e.chan c = c' ∧ N.reader c = p
  writer : ∀ c', live' c' → N'.writer c' = p' → ∃ c, e.chan c = c' ∧ N.writer c = p

section
variable {live : C → Prop} {live' : C' → Prop} {T : Timetable N live} {T' : Timetable N' live'}

omit [DecidableEq C] [DecidableEq C'] in
theorem SameTimes.due (h : SameTimes T T' e p p') {τ : ℕ} (hd : T.Due p (n.within e) τ) : T'.Due p' n τ where
  rd c' hc' hp := by
    obtain ⟨c, rfl, hc⟩ := h.reader c' hc' hp
    rw [← h.D]
    exact hd.rd c ((h.live c).2 hc') hc
  wr c' hc' hp := by
    obtain ⟨c, rfl, hc⟩ := h.writer c' hc' hp
    rw [← h.W]
    exact hd.wr c ((h.live c).2 hc') hc

omit [DecidableEq C] [DecidableEq C'] in
theorem SameTimes.advanced (h : SameTimes T T' e p p') {n' : Counts C'}
    (ha : Timetable.Advanced N live p (n.within e) (n'.within e)) : Timetable.Advanced N' live' p' n n' where
  rd c' hc' hp := by
    obtain ⟨c, rfl, hc⟩ := h.reader c' hc' hp
    exact ha.rd c ((h.live c).2 hc') hc
  wr c' hc' hp := by
    obtain ⟨c, rfl, hc⟩ := h.writer c' hc' hp
    exact ha.wr c ((h.live c).2 hc') hc

theorem inTime_place {P : Proc → Prop} {P' : Proc' → Prop} {drained : C → Prop} {drained' : C' → Prop} {H : ℕ}
    (hends : SameEnds N N' e p p') (htimes : SameTimes T T' e p p') (hP : P' p' → P p)
    (hdr : ∀ c, drained c → drained' (e.chan c)) {x : Prog V A} (h : T.InTime P drained H p x (n.within e) Q) :
    T'.InTime P' drained' H p' (x.place e) n fun a m => Q a (m.within e) := by
  induction x generalizing n with
  | ret a => exact h
  | read c k ih =>
    obtain ⟨hr, hd, hk⟩ := h
    refine ⟨hends.reader c hr, fun hp => ?_, fun v => ih _ (by rw [within_addRd]; exact hk _)⟩
    obtain hd | ⟨hc, hd⟩ := hd (hP hp)
    · exact .inl (htimes.due hd)
    · exact .inr ⟨(htimes.live c).1 hc, htimes.D c _ ▸ htimes.due hd⟩
  | readNb c k ih =>
    obtain ⟨hr, hc, hnone, hsome⟩ := h
    refine ⟨hends.reader c hr, fun hc' => hc ((htimes.live c).2 hc'), ih _ hnone, fun v => ih _ ?_⟩
    rw [within_addPoll, within_addRd]
    exact hsome _
  | write c v k ih =>
    obtain ⟨hw, hd, hk⟩ := h
    refine ⟨hends.writer c hw, fun hp => ?_, ih (by rwa [within_addWr])⟩
    obtain hd | hd | ⟨hc, hd⟩ := hd (hP hp)
    · exact .inl (htimes.due hd)
    · exact .inr (.inl (hdr c hd))
    · exact .inr (.inr ⟨(htimes.live c).1 hc, htimes.W c _ ▸ htimes.due hd⟩)

end

end Kahn
