import Mathlib.GroupTheory.Perm.Cycle.Basic
import ThundeRiNG.Lib.Orbit

/-!
# Shift chains

Registers `α` hold words `β`. A load clocks every register from the register `f` names for it, and the entry `e` from
outside. What matters is how long a register's way along `f` to the entry is: after enough loads it holds the word
that came in that long ago (`loads_reached`), and before, a word of the start (`loads_unreached`).

When `f` is one cycle through all registers (`CyclesOn f univ`), as many loads as there are registers load every
register (`CyclesOn.exists_equiv`), and the words leave in the order they came in (`CyclesOn.loads_out`). A register
is put into a cycle behind another one by `CyclesOn.extend`.
-/

namespace ShiftChain

open Function Set

variable {α β : Type*} {f g : α → α} {s : Set α} {e x y z : α}

/-! ## One cycle -/

/-- `f` stays in `s`, and leads from every point of `s` to every other. -/
structure CyclesOn (f : α → α) (s : Set α) : Prop where
  mapsTo : MapsTo f s s
  reach : ∀ x ∈ s, ∀ y ∈ s, ∃ k, f^[k] x = y

theorem reach_trans (hxy : ∃ k, f^[k] x = y) (hyz : ∃ k, f^[k] y = z) : ∃ k, f^[k] x = z := by
  obtain ⟨k, rfl⟩ := hxy
  obtain ⟨l, rfl⟩ := hyz
  exact ⟨l + k, iterate_add_apply f l k x⟩

/-- A new point `b` comes between `a` and what followed `a`. -/
theorem CyclesOn.extend (h : CyclesOn f s) {a b : α} (ha : a ∈ s) (hga : g a = b) (hgb : g b = f a)
    (hg : ∀ x ∈ s, x ≠ a → g x = f x) : CyclesOn g (insert b s) := by
  have hfa : f a ∈ s := h.mapsTo ha
  -- a step of `f` is one step of `g`, and two where it passes `b`
  have hstep : ∀ x ∈ s, ∃ k, g^[k] x = f x := by
    intro x hx
    by_cases hxa : x = a
    · subst hxa
      exact ⟨2, by rw [iterate_succ_apply, iterate_one, hga, hgb]⟩
    · exact ⟨1, hg x hx hxa⟩
  have hsteps : ∀ x ∈ s, ∀ k, ∃ m, g^[m] x = f^[k] x := by
    intro x hx k
    induction k with
    | zero => exact ⟨0, rfl⟩
    | succ k ih =>
      rw [iterate_succ_apply']
      exact reach_trans ih (hstep _ (h.mapsTo.iterate k hx))
  have hold : ∀ x ∈ s, ∀ y ∈ s, ∃ k, g^[k] x = y := by
    intro x hx y hy
    obtain ⟨k, rfl⟩ := h.reach x hx y hy
    exact hsteps x hx k
  have hout : ∃ k, g^[k] b = f a := ⟨1, hgb⟩
  have hin : ∃ k, g^[k] a = b := ⟨1, hga⟩
  constructor
  · rintro x (rfl | hx)
    · exact .inr (hgb ▸ hfa)
    · by_cases hxa : x = a
      · subst hxa
        exact .inl hga
      · exact .inr (hg x hx hxa ▸ h.mapsTo hx)
  · rintro x (rfl | hx) y (rfl | hy)
    · exact ⟨0, rfl⟩
    · exact reach_trans hout (hold _ hfa y hy)
    · exact reach_trans (hold x hx a ha) hin
    · exact hold x hx y hy

theorem CyclesOn.surjective (h : CyclesOn f univ) : Surjective f := by
  intro x
  obtain ⟨k, hk⟩ := h.reach (f x) trivial x trivial
  exact ⟨f^[k] x, by rw [← iterate_succ_apply' f k x, iterate_succ_apply, hk]⟩

theorem CyclesOn.minimalPeriod_pos (h : CyclesOn f univ) (x : α) : 0 < minimalPeriod f x := by
  obtain ⟨k, hk⟩ := h.reach (f x) trivial x trivial
  exact IsPeriodicPt.minimalPeriod_pos k.succ_pos (show f^[k + 1] x = x from hk)

/-- On the way round a point is met within one round. -/
theorem CyclesOn.exists_lt (h : CyclesOn f univ) (x y : α) : ∃ k < minimalPeriod f x, f^[k] x = y := by
  obtain ⟨k, rfl⟩ := h.reach x trivial y trivial
  exact ⟨k % minimalPeriod f x, Nat.mod_lt _ (h.minimalPeriod_pos x), iterate_mod_minimalPeriod_eq⟩

theorem CyclesOn.minimalPeriod_eq [Fintype α] (h : CyclesOn f univ) (x : α) : minimalPeriod f x = Fintype.card α := by
  have hinj : Injective fun k : Fin (minimalPeriod f x) => f^[k] x := by
    intro k l hkl
    exact Fin.ext (iterate_injOn_Iio_minimalPeriod k.2 l.2 hkl)
  have hsurj : Surjective fun k : Fin (minimalPeriod f x) => f^[k] x := by
    intro y
    obtain ⟨k, hk, hy⟩ := h.exists_lt x y
    exact ⟨⟨k, hk⟩, hy⟩
  simpa using Fintype.card_of_bijective ⟨hinj, hsurj⟩

theorem CyclesOn.isCycleOn [Finite α] (h : CyclesOn f univ) : ∃ c : Equiv.Perm α, ⇑c = f ∧ c.IsCycleOn univ := by
  refine ⟨Equiv.ofBijective f (Finite.surjective_iff_bijective.1 h.surjective), rfl, ?_, ?_⟩
  · exact bijOn_univ.2 (Equiv.bijective _)
  · intro x hx y hy
    obtain ⟨k, hk⟩ := h.reach x hx y hy
    exact ⟨k, by rw [zpow_natCast, ← Equiv.Perm.iterate_eq_pow]; exact hk⟩

/-! ## Loading -/

section
variable [DecidableEq α]

/-- One clock: the entry takes `v`, every other register what the register named by `f` held. -/
def load (f : α → α) (e : α) (v : β) (st : α → β) : α → β := fun i => if i = e then v else st (f i)

/-- The registers after `k` loads of `v 0`, `v 1`, and so on. -/
def loads (f : α → α) (e : α) (v : ℕ → β) (st : α → β) : ℕ → α → β
  | 0 => st
  | k + 1 => load f e (v k) (loads f e v st k)

variable {v : ℕ → β} {st : α → β}

theorem loads_succ_entry (k : ℕ) : loads f e v st (k + 1) e = v k := if_pos rfl

theorem loads_succ_of_ne (hx : x ≠ e) (k : ℕ) : loads f e v st (k + 1) x = loads f e v st k (f x) := if_neg hx

/-- A register whose way to the entry is `d` long holds the word of `d` loads ago. -/
theorem loads_reached {d : ℕ} (hd : f^[d] x = e) (hmin : ∀ j < d, f^[j] x ≠ e) (k : ℕ) :
    loads f e v st (k + d + 1) x = v k := by
  induction d generalizing x with
  | zero =>
    obtain rfl : x = e := hd
    exact loads_succ_entry k
  | succ d ih =>
    have hx : x ≠ e := hmin 0 d.succ_pos
    rw [loads_succ_of_ne hx, ← Nat.add_assoc]
    exact ih hd fun j hj => hmin (j + 1) (Nat.succ_lt_succ hj)

/-- Until then it holds a word of the start. -/
theorem loads_unreached {k : ℕ} (hmin : ∀ j < k, f^[j] x ≠ e) : loads f e v st k x = st (f^[k] x) := by
  induction k generalizing x with
  | zero => rfl
  | succ k ih =>
    have hx : x ≠ e := hmin 0 k.succ_pos
    rw [loads_succ_of_ne hx, iterate_succ_apply]
    exact ih fun j hj => hmin (j + 1) (Nat.succ_lt_succ hj)

variable [Fintype α] {N : ℕ}

/-- The first time the way from a register meets the entry: each register at its own distance. -/
theorem CyclesOn.exists_dist (h : CyclesOn f univ) (hN : Fintype.card α = N) (e : α) :
    ∃ d : α → Fin N, Injective d ∧ ∀ x, f^[d x] x = e ∧ ∀ j < (d x : ℕ), f^[j] x ≠ e := by
  have hex : ∀ x, ∃ k, f^[k] x = e := fun x => h.reach x trivial e trivial
  have hlt : ∀ x, Nat.find (hex x) < N := by
    intro x
    obtain ⟨k, hk, hke⟩ := h.exists_lt x e
    rw [h.minimalPeriod_eq, hN] at hk
    exact (Nat.find_min' (hex x) hke).trans_lt hk
  refine ⟨fun x => ⟨Nat.find (hex x), hlt x⟩, ?_, fun x => ⟨Nat.find_spec (hex x), fun j hj => Nat.find_min _ hj⟩⟩
  intro x y hxy
  have heq : Nat.find (hex x) = Nat.find (hex y) := congrArg Fin.val hxy
  have hinj : Injective f := Finite.injective_iff_surjective.2 h.surjective
  refine hinj.iterate (Nat.find (hex x)) ?_
  rw [Nat.find_spec (hex x), heq, Nat.find_spec (hex y)]

/-- One load for each register loads them all: the start is gone, and each holds a word of its own. -/
theorem CyclesOn.exists_equiv (h : CyclesOn f univ) (hN : Fintype.card α = N) (e : α) :
    ∃ σ : α ≃ Fin N, ∀ (v : ℕ → β) (st : α → β), loads f e v st N = fun i => v (σ i) := by
  obtain ⟨d, hinj, hd⟩ := h.exists_dist hN e
  have hcard : Fintype.card α = Fintype.card (Fin N) := by rw [hN, Fintype.card_fin]
  refine ⟨(Equiv.ofBijective d ((Fintype.bijective_iff_injective_and_card d).2 ⟨hinj, hcard⟩)).trans Fin.revPerm,
    fun v st => funext fun i => ?_⟩
  -- `d i` loads ago is load `N - 1 - d i` of the `N`
  have hk : ((d i).rev : ℕ) + d i + 1 = N := by rw [Fin.val_rev]; omega
  calc loads f e v st N i = loads f e v st ((d i).rev + d i + 1) i := by rw [hk]
    _ = v (d i).rev := loads_reached (hd i).1 (hd i).2 _

/-- The words of a full load leave behind the entry, in their order, whatever comes in meanwhile. -/
theorem CyclesOn.loads_out (h : CyclesOn f univ) (hN : Fintype.card α = N) (e : α) {k : ℕ} (hk : k < N)
    (v w : ℕ → β) (st : α → β) : loads f e w (loads f e v st N) k (f e) = v k := by
  have hper : minimalPeriod f e = N := (h.minimalPeriod_eq e).trans hN
  have hne : ∀ j, j + 1 < N → f^[j + 1] e ≠ e := by
    intro j hj
    exact not_isPeriodicPt_of_pos_of_lt_minimalPeriod j.succ_ne_zero (by rw [hper]; exact hj)
  have hround : f^[N] e = e := by rw [← hper]; exact iterate_minimalPeriod
  rw [loads_unreached fun j hj => hne j (by omega)]
  -- the way back to the entry from there is the rest of the round
  have hback : f^[N - 1 - k] (f^[k] (f e)) = e := by
    rw [← iterate_succ_apply, ← iterate_add_apply, show N - 1 - k + (k + 1) = N by omega, hround]
  have hfirst : ∀ j < N - 1 - k, f^[j] (f^[k] (f e)) ≠ e := by
    intro j hj
    rw [← iterate_succ_apply, ← iterate_add_apply]
    exact hne (j + k) (by omega)
  calc loads f e v st N (f^[k] (f e)) = loads f e v st (k + (N - 1 - k) + 1) (f^[k] (f e)) := by
        rw [show k + (N - 1 - k) + 1 = N by omega]
    _ = v k := loads_reached hback hfirst k

end

end ShiftChain
