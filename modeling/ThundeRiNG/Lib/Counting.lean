import Mathlib.Algebra.BigOperators.Group.Finset.Basic
import Mathlib.Data.Fintype.Card
import Mathlib.Data.Fintype.Prod
import Mathlib.Data.Nat.Periodic
import Mathlib.Dynamics.PeriodicPts.Lemmas
import ThundeRiNG.Lib.Orbit
import ThundeRiNG.Lib.XorLinear

/-!
# Counting fibres, and counting along a full cycle

`card_fiber` counts the points a map sends to one value, when the map together with a second one tells
all points apart and the sizes leave no room. `card_filter_cycle` counts the same points along one round
of a map that runs through the whole type, `card_filter_coprime` counts pairs along two rounds of coprime lengths.
-/

namespace Counting

open Finset Function

/-- If `f` and `g` together are injective and `α` is exactly as large as `β × γ`, every fibre of `g` is as large
    as `β`. -/
theorem card_fiber {α β γ : Type*} [Fintype α] [Fintype β] [Fintype γ] [DecidableEq γ] {f : α → β} {g : α → γ}
    (hinj : Injective fun a => (f a, g a)) (hcard : Fintype.card α = Fintype.card β * Fintype.card γ) (c : γ) :
    (univ.filter fun a => g a = c).card = Fintype.card β := by
  have hbij : Bijective fun a => (f a, g a) := by
    rw [Fintype.bijective_iff_injective_and_card, Fintype.card_prod]
    exact ⟨hinj, hcard⟩
  rw [← card_univ]
  refine card_bij (fun a _ => f a) (fun _ _ => mem_univ _) ?_ ?_
  · intro a ha b hb hab
    have ha' : g a = c := (mem_filter.1 ha).2
    have hb' : g b = c := (mem_filter.1 hb).2
    exact hinj (Prod.ext hab (ha'.trans hb'.symm))
  · intro b _
    obtain ⟨a, ha⟩ := hbij.2 (b, c)
    obtain ⟨hf, hg⟩ := Prod.mk.inj ha
    exact ⟨a, mem_filter.2 ⟨mem_univ a, hg⟩, hf⟩

/-- With all fibres of size `k`, a property of the values holds `k` times as often for the points. -/
theorem card_filter_preimage {α γ : Type*} [Fintype α] [Fintype γ] [DecidableEq γ] {g : α → γ} {k : ℕ}
    (hfiber : ∀ c, (univ.filter fun a => g a = c).card = k) (p : γ → Prop) [DecidablePred p] :
    (univ.filter fun a => p (g a)).card = k * (univ.filter p).card := by
  rw [card_eq_sum_card_fiberwise (f := g) (t := univ.filter p) (fun a ha => by simpa using ha),
    sum_const_nat (m := k), Nat.mul_comm]
  intro c hc
  rw [← hfiber c, filter_filter]
  congr 1
  refine filter_congr fun a _ => ⟨And.right, ?_⟩
  rintro rfl
  exact ⟨(mem_filter.1 hc).2, rfl⟩

/-- A bijection does not change how often a property holds. -/
theorem card_filter_comp {α : Type*} [Fintype α] {e : α → α} (he : Injective e) (p : α → Prop) [DecidablePred p] :
    (univ.filter fun a => p (e a)).card = (univ.filter p).card := by
  refine card_bij (fun a _ => e a) (fun a ha => by simpa using ha) (fun _ _ _ _ h => he h) ?_
  intro b hb
  obtain ⟨a, rfl⟩ := Finite.surjective_of_injective he b
  exact ⟨a, by simpa using hb, rfl⟩

/-- `N` consecutive states of a map whose cycle has length `N`, the size of the type, are all the points once. -/
theorem card_filter_cycle {α : Type*} [Fintype α] {f : α → α} {x : α} {m : ℕ}
    (hper : minimalPeriod f (f^[m] x) = Fintype.card α) (p : α → Prop) [DecidablePred p] :
    ((Ico m (m + Fintype.card α)).filter fun n => p (f^[n] x)).card = (univ.filter p).card := by
  have hshift : ∀ n, m ≤ n → f^[n] x = f^[n - m] (f^[m] x) := fun n hn => by
    rw [← iterate_add_apply, Nat.sub_add_cancel hn]
  refine card_bij (fun n _ => f^[n] x) (fun n hn => by simpa using (mem_filter.1 hn).2) ?_ ?_
  · intro a ha b hb hab
    have ha' := mem_Ico.1 (mem_filter.1 ha).1
    have hb' := mem_Ico.1 (mem_filter.1 hb).1
    rw [hshift a ha'.1, hshift b hb'.1] at hab
    have := iterate_injOn_Iio_minimalPeriod (x := f^[m] x) (Set.mem_Iio.2 (by omega)) (Set.mem_Iio.2 (by omega)) hab
    omega
  · intro b hb
    obtain ⟨n, hn, rfl⟩ := Orbit.exists_iterate_eq (f := f) (x := f^[m] x) (S := univ) (fun _ => mem_univ _)
      (by rw [hper, card_univ]) (mem_univ b)
    refine ⟨n + m, mem_filter.2 ⟨mem_Ico.2 ⟨by omega, by omega⟩, ?_⟩, ?_⟩
    · rw [iterate_add_apply]; simpa using hb
    · rw [iterate_add_apply]

/-- The same from the point itself. -/
theorem card_filter_range_cycle {α : Type*} [Fintype α] {f : α → α} {x : α} {N : ℕ} (hcard : Fintype.card α = N)
    (hper : minimalPeriod f x = N) (p : α → Prop) [DecidablePred p] :
    ((range N).filter fun n => p (f^[n] x)).card = (univ.filter p).card := by
  subst hcard
  have h := card_filter_cycle (m := 0) hper p
  rwa [Nat.zero_add, ← range_eq_Ico] at h

/-- Counting in a stretch of a list that `f` makes is counting positions. -/
theorem count_window {α : Type*} [DecidableEq α] (f : ℕ → α) {m N L : ℕ} (h : m + N ≤ L) (a : α) :
    ((((List.range L).map f).drop m).take N).count a = ((Ico m (m + N)).filter fun n => f n = a).card := by
  have hrange : ((List.range L).drop m).take N = List.range' m N := by
    rw [List.range_eq_range', List.drop_range', List.take_range'_of_length_ge (by omega), Nat.zero_add, Nat.mul_one]
  have hIco : Ico m (m + N) = ⟨List.range' m N, List.nodup_range'⟩ := by
    simp only [Nat.Ico_eq_range', Nat.add_sub_cancel_left]
  rw [← List.map_drop, ← List.map_take, hrange, List.count, List.countP_map, List.countP_eq_length_filter, hIco]
  simp [Finset.filter, Function.comp_def, beq_eq_decide]

/-- An orbit that stays in `T` and is as long as `T` is large goes through `T` in each round, wherever that begins. -/
theorem card_filter_orbit {α : Type*} {f : α → α} {x : α} {T : Finset α} (hT : ∀ n, f^[n] x ∈ T)
    (hper : minimalPeriod f x = T.card) (p : α → Prop) [DecidablePred p] (m : ℕ) :
    ((Ico m (m + T.card)).filter fun n => p (f^[n] x)).card = (T.filter p).card := by
  have hperiodic : Periodic (fun n => p (f^[n] x)) T.card := fun n => by
    simp only [iterate_add_apply, ← hper, iterate_minimalPeriod]
  rw [Nat.filter_Ico_card_eq_of_periodic _ _ _ hperiodic, Nat.count_eq_card_filter_range]
  refine card_bij (fun n _ => f^[n] x) (fun n hn => ?_) (fun a ha b hb hab => ?_) fun y hy => ?_
  · exact mem_filter.2 ⟨hT n, (mem_filter.1 hn).2⟩
  · rw [← hper] at ha hb
    exact iterate_injOn_Iio_minimalPeriod (mem_range.1 (mem_filter.1 ha).1) (mem_range.1 (mem_filter.1 hb).1) hab
  · obtain ⟨hyT, hp⟩ := mem_filter.1 hy
    obtain ⟨n, hn, rfl⟩ := Orbit.exists_iterate_eq hT hper.symm hyT
    exact ⟨n, mem_filter.2 ⟨mem_range.2 (hper ▸ hn), hp⟩, rfl⟩

/-- One point out of all. -/
theorem card_filter_erase {α : Type*} [Fintype α] [DecidableEq α] (p : α → Prop) [DecidablePred p] (z : α) :
    ((univ.erase z).filter p).card + (if p z then 1 else 0) = (univ.filter p).card := by
  rw [filter_erase]
  split
  · rename_i hp
    exact card_erase_add_one (mem_filter.2 ⟨mem_univ z, hp⟩)
  · rename_i hp
    rw [erase_eq_of_notMem fun h => hp (mem_filter.1 h).2, Nat.add_zero]

/-- Along an orbit that misses the one point `z` only, a property holds as often as it does for the other points. -/
theorem card_filter_range_ne {α : Type*} [Fintype α] [DecidableEq α] {f : α → α} {x z : α} {N : ℕ}
    (hz : ∀ n, f^[n] x ≠ z) (hper : minimalPeriod f x = N) (hcard : Fintype.card α = N + 1) (p : α → Prop)
    [DecidablePred p] :
    ((range N).filter fun n => p (f^[n] x)).card + (if p z then 1 else 0) = (univ.filter p).card := by
  have hT : (univ.erase z).card = N := by rw [card_erase_of_mem (mem_univ z), card_univ, hcard, Nat.add_sub_cancel]
  have hround :=
    card_filter_orbit (T := univ.erase z) (fun n => mem_erase.2 ⟨hz n, mem_univ _⟩) (hper.trans hT.symm) p 0
  rw [hT, Nat.zero_add, ← range_eq_Ico] at hround
  rw [hround, card_filter_erase]

/-- Two orbits of coprime lengths, side by side, go through all pairs. -/
theorem card_filter_coprime {α β : Type*} {f : α → α} {g : β → β} {x : α} {y : β} {T : Finset α} {U : Finset β}
    (hT : ∀ n, f^[n] x ∈ T) (hU : ∀ n, g^[n] y ∈ U) (hf : minimalPeriod f x = T.card) (hg : minimalPeriod g y = U.card)
    (hcop : T.card.Coprime U.card) (p : α × β → Prop) [DecidablePred p] (m : ℕ) :
    ((Ico m (m + T.card * U.card)).filter fun n => p (f^[n] x, g^[n] y)).card = ((T ×ˢ U).filter p).card := by
  have hiter : ∀ n, (Prod.map f g)^[n] (x, y) = (f^[n] x, g^[n] y) := fun n => by rw [Prod.map_iterate]; rfl
  have hper : minimalPeriod (Prod.map f g) (x, y) = (T ×ˢ U).card := by
    rw [minimalPeriod_prodMap, hf, hg, hcop.lcm_eq_mul, card_product]
  have hround := card_filter_orbit (fun n => hiter n ▸ mem_product.2 ⟨hT n, hU n⟩) hper p m
  rw [card_product] at hround
  simpa only [hiter] using hround

/-- Counting pairs point by point. -/
theorem card_filter_product {α β : Type*} (S : Finset α) (T : Finset β) (p : α → β → Prop)
    [∀ a b, Decidable (p a b)] :
    ((S ×ˢ T).filter fun q => p q.1 q.2).card = ∑ a ∈ S, (T.filter (p a)).card := by
  simp only [card_filter, sum_product]

/-- The values of two generators xored, where the second one is never `z`: as often as for all pairs, less the pairs
    with `z`. -/
theorem card_filter_xor {α β γ : Type*} [Fintype α] [Fintype β] [DecidableEq β] [DecidableEq γ] [XorOp γ] [Zero γ]
    [LawfulXor γ] (P : α → γ) {J : β → γ} {z : β} (hz : J z = 0) {c : ℕ}
    (hJ : ∀ v, (univ.filter fun b => J b = v).card = c) (w : γ) :
    ((univ ×ˢ univ.erase z).filter fun q : α × β => J q.2 ^^^ P q.1 = w).card =
      Fintype.card α * c - (univ.filter fun a => P a = w).card := by
  have hpartner : ∀ a b, J b ^^^ P a = w ↔ J b = w ^^^ P a := by
    intro a b
    constructor
    · rintro rfl
      rw [xor_assoc, LawfulXor.xor_self, xor_zero]
    · intro h
      rw [h, xor_assoc, LawfulXor.xor_self, xor_zero]
  have hpoint : ∀ a, ((univ.erase z).filter fun b => J b ^^^ P a = w).card + (if P a = w then 1 else 0) = c := by
    intro a
    have herase := card_filter_erase (fun b => J b ^^^ P a = w) z
    simp only [hz, zero_xor] at herase
    rw [herase]
    simp only [hpartner, hJ]
  have hsum := Finset.sum_congr rfl fun a (_ : a ∈ (univ : Finset α)) => hpoint a
  rw [sum_add_distrib, sum_const, card_univ, smul_eq_mul, ← card_filter] at hsum
  rw [card_filter_product univ (univ.erase z) fun a b => J b ^^^ P a = w]
  exact Nat.eq_sub_of_add_eq hsum

/-- Two generators of coprime periods xored: `f` goes through all states, `g` through all but `z`. -/
theorem card_filter_two {α β γ : Type*} [Fintype α] [Fintype β] [DecidableEq β] [DecidableEq γ] [XorOp γ] [Zero γ]
    [LawfulXor γ] {f : α → α} {g : β → β} {x : α} {y z : β} {N : ℕ} (hf : minimalPeriod f x = Fintype.card α)
    (hy : ∀ n, g^[n] y ≠ z) (hg : minimalPeriod g y = N) (hcard : Fintype.card β = N + 1)
    (hcop : (Fintype.card α).Coprime N) (P : α → γ) {J : β → γ} (hz : J z = 0) {c : ℕ}
    (hJ : ∀ v, (univ.filter fun b => J b = v).card = c) (w : γ) (m : ℕ) :
    ((Ico m (m + Fintype.card α * N)).filter fun n => J (g^[n] y) ^^^ P (f^[n] x) = w).card =
      Fintype.card α * c - (univ.filter fun a => P a = w).card := by
  have hU : (univ.erase z).card = N := by rw [card_erase_of_mem (mem_univ z), card_univ, hcard, Nat.add_sub_cancel]
  have hpairs := card_filter_coprime (f := f) (g := g) (x := x) (y := y) (T := univ) (U := univ.erase z)
    (fun _ => mem_univ _) (fun n => mem_erase.2 ⟨hy n, mem_univ _⟩) (by rw [hf, card_univ]) (by rw [hg, hU])
    (by rwa [card_univ, hU]) (fun q => J q.2 ^^^ P q.1 = w) m
  rw [card_univ, hU] at hpairs
  exact hpairs.trans (card_filter_xor P hz hJ w)

end Counting
