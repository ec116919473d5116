import Mathlib.Data.Int.CardIntervalMod
import ThundeRiNG.Host.LcgJumpAhead
import ThundeRiNG.Lib.Generator
import ThundeRiNG.Rng.Equidistribution

/-!
# Seeding and bounded draws (`test/pcg_basic/pcg_basic.c`)

`pcg32_boundedrand_r` draws until the word is at least `2^32 % bound`, so that the words it keeps are a multiple of
`bound`. Here that argument is carried through for the generator as it is: `inc` "must *always* be odd", then the
state runs through all `2^64` values, every word comes `2^32` times, and over that round the calls return each number
below the bound equally often. The loop, which "uniformity guarantees" to end, is given fuel; one round is enough.
-/

namespace ThundeRiNG.Lcg

open Finset

/-- The seeding leaves nothing of the generator's former state. -/
def pcg32SrandomR (initstate initseq : BitVec 64) : Pcg32Random :=
  let rng : Pcg32Random := ⟨0, (initseq <<< 1) ||| 1⟩
  let rng := (pcg32RandomR rng).2
  let rng := { rng with state := rng.state + initstate }
  (pcg32RandomR rng).2

def PCG32_INITIALIZER : Pcg32Random := ⟨0x853c49e6748fea9b, 0xda3e39cb94b95bdb⟩

/-- `-bound % bound`, in 32 bits. -/
def threshold (bound : Rng32) : Rng32 := -bound % bound

/-- `bound = 0` divides by zero. -/
def pcg32BoundedrandR (fuel : ℕ) (bound : Rng32) (rng : Pcg32Random) : Option (Rng32 × Pcg32Random) :=
  Generator.draw pcg32RandomR (threshold bound ≤ ·) (· % bound) fuel rng

/-- What `pcg_basic.h` asks of `inc`. -/
def Pcg32Random.Valid (rng : Pcg32Random) : Prop := rng.inc.toNat % 2 = 1

instance (rng : Pcg32Random) : Decidable rng.Valid := inferInstanceAs (Decidable (_ = _))

theorem valid_initializer : PCG32_INITIALIZER.Valid := by decide

theorem inc_pcg32RandomR (rng : Pcg32Random) : (pcg32RandomR rng).2.inc = rng.inc := by
  obtain ⟨state, inc⟩ := rng
  exact show _ = inc from rfl

theorem valid_pcg32RandomR {rng : Pcg32Random} (h : rng.Valid) : (pcg32RandomR rng).2.Valid := by
  rwa [Pcg32Random.Valid, inc_pcg32RandomR]

theorem valid_pcg32SrandomR (initstate initseq : BitVec 64) : (pcg32SrandomR initstate initseq).Valid := by
  refine valid_pcg32RandomR ?_
  rw [Pcg32Random.Valid, inc_pcg32RandomR, BitVec.toNat_or, Nat.or_mod_two_eq_one]
  exact .inr rfl

/-! ## The generator's words over one round -/

theorem minimalPeriod_pcg {rng : Pcg32Random} (h : rng.Valid) (x : BitVec 64) :
    Function.minimalPeriod (Affine.step PCG_DEFAULT_MULTIPLIER_64 rng.inc) x = 2 ^ 64 :=
  Affine.minimalPeriod_step (by decide) (by decide) h x

/-- In `2^64` outputs every word occurs `2^32` times, so a set of words as often as it has members, `2^32` times. -/
theorem countP_outputs {rng : Pcg32Random} (h : rng.Valid) (P : Rng32 → Prop) [DecidablePred P] :
    (Generator.outputs pcg32RandomR (2 ^ 64) rng).countP (P ·) = 2 ^ 32 * (univ.filter P).card := by
  have hout : ∀ i, (pcg32RandomR (Generator.after pcg32RandomR i rng)).1 =
      outputFunction ((Affine.step PCG_DEFAULT_MULTIPLIER_64 rng.inc)^[i] rng.state) := fun i => by
    rw [show Generator.after pcg32RandomR i rng = _ from after_pcg32RandomR i rng]; rfl
  have hcycle := Counting.card_filter_range_cycle card_rngState (minimalPeriod_pcg h rng.state) fun x =>
    P (outputFunction x)
  have hfiber : ∀ w, (univ.filter fun x => outputFunction x = w).card = 2 ^ 32 := fun w => by
    rw [Counting.card_fiber outputFunction_rest_injective (by rw [card_rngState, card_rng32, ← pow_add]) w, card_rng32]
  rw [Generator.outputs_eq_map, List.countP_map]
  refine (Nat.count_eq_card_filter_range _ _).trans ?_
  simp only [hout]
  rw [hcycle, Counting.card_filter_preimage hfiber]

/-! ## The words that are kept -/

theorem card_filter_toNat {w : ℕ} (P : ℕ → Prop) [DecidablePred P] :
    (univ.filter fun r : BitVec w => P r.toNat).card = Nat.count P (2 ^ w) := by
  rw [Nat.count_eq_card_filter_range]
  refine card_bij (fun r _ => r.toNat) (fun r hr => by simpa [r.isLt] using hr) (fun a _ b _ h => BitVec.eq_of_toNat_eq h) ?_
  intro n hn
  obtain ⟨hlt, hP⟩ := mem_filter.1 hn
  have hto : (BitVec.ofNat w n).toNat = n := by rw [BitVec.toNat_ofNat, Nat.mod_eq_of_lt (mem_range.1 hlt)]
  exact ⟨BitVec.ofNat w n, by simpa [hto] using hP, hto⟩

theorem toNat_threshold {bound : Rng32} (hb : bound ≠ 0) : (threshold bound).toNat = 2 ^ 32 % bound.toNat := by
  have hpos : bound.toNat ≠ 0 := fun h => hb (BitVec.eq_of_toNat_eq h)
  have hlt := bound.isLt
  have hneg : (-bound).toNat = 2 ^ 32 - bound.toNat := by rw [BitVec.toNat_neg]; omega
  rw [threshold, BitVec.toNat_umod, hneg]
  exact (Nat.mod_eq_sub_mod hlt.le).symm

/-- From `t = N % b` on, `N` leaves every residue the same room. -/
theorem count_residue {b N v : ℕ} (hv : v < b) :
    Nat.count (fun n => N % b ≤ n ∧ n % b = v) N = N / b := by
  have hb : 0 < b := by omega
  have hmod : ∀ n, n ≡ v [MOD b] ↔ n % b = v := fun n => by rw [Nat.ModEq, Nat.mod_eq_of_lt hv]
  have hall : ∀ n, Nat.count (fun n => n % b = v) n = n / b + if v < n % b then 1 else 0 := fun n => by
    have h := Nat.count_modEq_card n hb v
    simp only [hmod, Nat.mod_eq_of_lt hv] at h
    exact h
  have hsplit : N = N % b + b * (N / b) := (Nat.mod_add_div N b).symm
  have hlow : Nat.count (fun n => N % b ≤ n ∧ n % b = v) (N % b) = 0 := by
    rw [Nat.count_eq_card_filter_range, card_eq_zero, filter_eq_empty_iff]
    intro n hn h
    exact absurd h.1 (not_le.2 (mem_range.1 hn))
  have hN := hall N
  have ht := hall (N % b)
  have hthrough := Nat.count_add (fun n => n % b = v) (N % b) (b * (N / b))
  have hkept := Nat.count_add (fun n => N % b ≤ n ∧ n % b = v) (N % b) (b * (N / b))
  rw [← hsplit] at hthrough hkept
  rw [Nat.mod_mod, Nat.div_eq_of_lt (Nat.mod_lt N hb)] at ht
  simp only [Nat.le_add_right, true_and] at hkept
  omega

/-- Above the threshold every number below the bound is the residue of equally many words. -/
theorem card_kept_residue {bound : Rng32} (hb : bound ≠ 0) (v : Rng32) :
    (univ.filter fun r : Rng32 => r % bound = v ∧ threshold bound ≤ r).card =
      if v < bound then 2 ^ 32 / bound.toNat else 0 := by
  split
  · rename_i hv
    rw [← count_residue (N := 2 ^ 32) (show v.toNat < bound.toNat from hv), ← toNat_threshold hb, ← card_filter_toNat]
    refine congrArg card (filter_congr fun r _ => ?_)
    rw [and_comm, ← BitVec.toNat_inj, BitVec.toNat_umod]; rfl
  · rename_i hv
    rw [card_eq_zero, filter_eq_empty_iff]
    rintro r - ⟨rfl, -⟩
    exact hv (Nat.mod_lt _ (Nat.pos_of_ne_zero fun h => hb (BitVec.eq_of_toNat_eq h)))

theorem card_kept {bound : Rng32} (hb : bound ≠ 0) :
    (univ.filter fun r : Rng32 => threshold bound ≤ r).card = bound.toNat * (2 ^ 32 / bound.toNat) := by
  have hcount : (univ.filter fun r : Rng32 => (threshold bound).toNat ≤ r.toNat).card = _ :=
    card_filter_toNat ((threshold bound).toNat ≤ ·)
  refine hcount.trans ?_
  rw [Nat.count_eq_card_filter_range, toNat_threshold hb]
  have hico : (range (2 ^ 32)).filter (2 ^ 32 % bound.toNat ≤ ·) = Ico (2 ^ 32 % bound.toNat) (2 ^ 32) := by
    ext n; simp [and_comm]
  have hdiv := Nat.mod_add_div (2 ^ 32) bound.toNat
  rw [hico, Nat.card_Ico]
  omega

/-! ## The calls -/

/-- Within one round some word is kept. -/
theorem exists_kept {rng : Pcg32Random} (h : rng.Valid) {bound : Rng32} (hb : bound ≠ 0) :
    ∃ n < 2 ^ 64, threshold bound ≤ (pcg32RandomR (Generator.after pcg32RandomR n rng)).1 := by
  have hpos : 0 < (Generator.outputs pcg32RandomR (2 ^ 64) rng).countP (threshold bound ≤ ·) := by
    rw [countP_outputs h, card_kept hb]
    have hb0 : 0 < bound.toNat := Nat.pos_of_ne_zero fun h => hb (BitVec.eq_of_toNat_eq h)
    have := Nat.div_pos bound.isLt.le hb0
    positivity
  obtain ⟨r, hr, hkept⟩ := List.countP_pos_iff.1 hpos
  rw [Generator.outputs_eq_map] at hr
  obtain ⟨n, hn, rfl⟩ := List.mem_map.1 hr
  exact ⟨n, List.mem_range.1 hn, of_decide_eq_true hkept⟩

/-- **Bounded draws are unbiased**: from any valid state every call returns, and in a round of calls each number below
    the bound is returned equally often, and no other. -/
theorem boundedrand_uniform {rng : Pcg32Random} (h : rng.Valid) {bound : Rng32} (hb : bound ≠ 0) {fuel : ℕ}
    (hf : 2 ^ 64 ≤ fuel) :
    ∃ rs rng', Generator.calls (pcg32BoundedrandR fuel bound) (2 ^ 32 * (bound.toNat * (2 ^ 32 / bound.toNat))) rng =
        some (rs, rng') ∧
      ∀ r, rs.count r = if r < bound then 2 ^ 32 * (2 ^ 32 / bound.toNat) else 0 := by
  have hnear : ∀ s : Pcg32Random, s.Valid →
      ∃ n < fuel, threshold bound ≤ (pcg32RandomR (Generator.after pcg32RandomR n s)).1 :=
    fun s hs => (exists_kept hs hb).imp fun n hn => ⟨hn.1.trans_le hf, hn.2⟩
  obtain ⟨⟨rs, rng'⟩, hcalls⟩ := Generator.exists_calls pcg32RandomR (threshold bound ≤ ·) (· % bound)
    Pcg32Random.Valid (fun _ => valid_pcg32RandomR) hnear (2 ^ 32 * (bound.toNat * (2 ^ 32 / bound.toNat))) h
  refine ⟨rs, rng', hcalls, fun r => ?_⟩
  have hround := Generator.calls_eq_of_length hcalls (N := 2 ^ 64) (by
    rw [← List.countP_eq_length_filter, countP_outputs h, card_kept hb])
  have hP := countP_outputs h fun w => w % bound = r ∧ threshold bound ≤ w
  rw [hround, List.count, List.countP_map, List.countP_filter]
  calc _ = _ := List.countP_congr fun w _ => by simp
    _ = 2 ^ 32 * if r < bound then 2 ^ 32 / bound.toNat else 0 := hP.trans (by rw [card_kept_residue hb])
    _ = _ := by split <;> simp

/-- The dice of a generator seeded with 42 and 54. -/
theorem boundedrand_uniform_dice :
    ∃ rs rng', Generator.calls (pcg32BoundedrandR (2 ^ 64) 6) (2 ^ 32 * (6 * (2 ^ 32 / 6))) (pcg32SrandomR 42 54) =
        some (rs, rng') ∧
      ∀ r, rs.count r = if r < 6 then 2 ^ 32 * (2 ^ 32 / 6) else 0 :=
  boundedrand_uniform (valid_pcg32SrandomR 42 54) (by decide) le_rfl

end ThundeRiNG.Lcg
