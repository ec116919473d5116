import Mathlib.Data.BitVec
import Mathlib.Data.Finset.Fold
import Mathlib.Data.Fintype.Fin
import ThundeRiNG.Lib.Affine
import ThundeRiNG.Lib.ShiftChain

/-!
# The LUT-SR generator (`test/rngs/rng.hpp`, `test/rngs/lut_sr.h`)

`n` registers hold one `int` each; the first `r` are the heads of FIFOs that a small LCG grows at construction. In RNG
mode a register becomes the xor of its taps, in load mode the FIFOs form a chain along `cycle` that is fed at `seedTap`
and read at `cycle[seedTap]`.

`cycle` is one cycle through all registers, since every new position is swapped into the cycle so far
(`Fifos.extend_cyclesOn`). So it does not matter for loading which register becomes `seedTap`.

Positions are drawn again while their FIFO is full (`drawBit`), and this may go on for ever: the loop has fuel, with
which the constructor is `some` exactly when the FIFOs the LCG can reach have room for all registers
(`rng_terminates_iff`).

| here | there |
| --- | --- |
| `Params`, `Rng`                           | `struct rng`: the arguments (`rng.hpp:8-9`), the rest (`:10-13`) |
| `lcg`, `permute`                          | `LCG`, `Permute` (`:2-6`) |
| `fifos₀`                                  | loop 1 (`:22-23`) |
| `drawBit`, `Fifos.extend`, `extendTo`     | loop 2 (`:25-29`) |
| `Fifos.wiring`                            | loop 3 (`:31-32`) |
| `Wiring.addTap`, `Wiring.connect`         | loop 4 (`:34-40`) |
| `Params.rng`, by `Fifos.rng`              | `rng::rng` (`:15-43`) |
| `Rng.step`                                | `Step` (`:63-82`) |
| `lutSrInit`, `lutSr`                      | `lut_sr_init`, and the tuple of `g` (`lut_sr.h:16-32`) |
-/

namespace ThundeRiNG.LutSr

open Function ShiftChain

/-- The tuple of a generator. With these bounds no loop leaves its vector. -/
structure Params where
  n : ℕ
  r : ℕ
  t : ℤ
  maxk : ℤ
  s : BitVec 32
  r_pos : 0 < r
  r_le : r ≤ n

namespace Params

variable (p : Params)

/-- `x % r` as an index of `perm`, `outputs` and `len`. -/
def bit (x : ℕ) : Fin p.r := ⟨x % p.r, Nat.mod_lt x p.r_pos⟩

/-- The first `r` registers. -/
def reg (i : Fin p.r) : Fin p.n := i.castLE p.r_le

def zero : Fin p.n := ⟨0, p.r_pos.trans_le p.r_le⟩

@[simp] theorem val_bit (x : ℕ) : (p.bit x : ℕ) = x % p.r := rfl

@[simp] theorem val_reg (i : Fin p.r) : (p.reg i : ℕ) = i := rfl

end Params

/-! ## The random choices of the constructor -/

/-- The new `s`: a product and a sum of `unsigned long`s, of which 32 bits are kept. -/
def lcgNext (s : BitVec 32) : BitVec 32 := (1664525#64 * s.setWidth 64 + 1013904223#64).setWidth 32

/-- The value of a call, and what it leaves in `s`. -/
def lcg (s : BitVec 32) : ℕ × BitVec 32 := ((lcgNext s >>> 16).toNat, lcgNext s)

/-- `swap(f[i], f[j])` -/
def swapAt {ι α : Type*} [DecidableEq ι] (f : ι → α) (i j : ι) : ι → α := f ∘ Equiv.swap i j

/-- The loop of `Permute` from `j` on. -/
def permuteFrom {m : ℕ} {α : Type*} : (j : ℕ) → j ≤ m → BitVec 32 → (Fin m → α) → BitVec 32 × (Fin m → α)
  | 0, _, s, f => (s, f)
  | 1, _, s, f => (s, f)
  | j + 2, hj, s, f =>
    let k : Fin m := ⟨(lcg s).1 % (j + 2), (Nat.mod_lt _ (by omega)).trans_le hj⟩
    permuteFrom (j + 1) (by omega) (lcg s).2 (swapAt f ⟨j + 1, hj⟩ k)

def permute {m : ℕ} {α : Type*} (s : BitVec 32) (f : Fin m → α) : BitVec 32 × (Fin m → α) :=
  permuteFrom m le_rfl s f

/-- What loop 2 works on. -/
structure Fifos (p : Params) where
  cycle : Fin p.n → Fin p.n
  outputs : Fin p.r → Fin p.n
  len : Fin p.r → ℕ
  s : BitVec 32

section
variable (p : Params)

/-- `do { bit = LCG(_s) % r; } while (len[bit] >= maxk);` -/
def drawBit (len : Fin p.r → ℕ) : ℕ → BitVec 32 → Option (Fin p.r × BitVec 32)
  | 0, _ => none
  | fuel + 1, s =>
    let bit := p.bit (lcg s).1
    if p.maxk ≤ len bit then drawBit len fuel (lcg s).2 else some (bit, (lcg s).2)

/-- `perm[i]` before loop 5, which is also the first `cycle[i]` and `outputs[i]`. -/
def perm₀ (i : Fin p.r) : Fin p.r := p.bit (i + 1)

def fifos₀ : Fifos p where
  cycle i := if h : (i : ℕ) < p.r then p.reg (perm₀ p ⟨i, h⟩) else p.zero
  outputs i := p.reg (perm₀ p i)
  len _ := 0
  s := p.s

end

section
variable {p : Params}

def Fifos.extend (fuel : ℕ) (i : Fin p.n) (b : Fifos p) : Option (Fifos p) :=
  (drawBit p b.len fuel b.s).map fun (bit, s) =>
    { cycle := swapAt (update b.cycle i i) i (p.reg bit)
      outputs := update b.outputs bit i
      len := update b.len bit (b.len bit + 1)
      s := s }

/-- The first `k` rounds of loop 2. -/
def extendTo (p : Params) (fuel : ℕ) : (k : ℕ) → p.r + k ≤ p.n → Option (Fifos p)
  | 0, _ => some (fifos₀ p)
  | k + 1, h => (extendTo p fuel k (by omega)).bind (Fifos.extend fuel ⟨p.r + k, h⟩)

/-- What loop 4 works on. -/
structure Wiring (p : Params) where
  taps : Fin p.n → Finset (Fin p.n)
  seedTap : Fin p.n
  outputs : Fin p.r → Fin p.n
  s : BitVec 32

def Wiring.addTap (w : Wiring p) (i : Fin p.r) : Wiring p :=
  let taps := update w.taps (p.reg i) (insert (w.outputs i) (w.taps (p.reg i)))
  { w with
    taps := taps
    seedTap := if (taps (p.reg i)).card < (taps w.seedTap).card then p.reg i else w.seedTap }

/-- One round of loop 4. -/
def Wiring.connect (w : Wiring p) : Wiring p :=
  let c := permute w.s w.outputs
  (List.finRange p.r).foldl Wiring.addTap { w with outputs := c.2, s := c.1 }

/-- Loop 3, before any round of loop 4. -/
def Fifos.wiring (b : Fifos p) : Wiring p where
  taps i := {b.cycle i}
  seedTap := p.zero
  outputs := b.outputs
  s := b.s

structure Rng (p : Params) where
  taps : Fin p.n → Finset (Fin p.n)
  cycle : Fin p.n → Fin p.n
  perm : Fin p.r → Fin p.r
  seedTap : Fin p.n

/-- From loop 3 on. Loop 4 runs for `j` from 1 to `t - 1`. -/
def Fifos.rng (b : Fifos p) : Rng p :=
  let w := Wiring.connect^[(p.t - 1).toNat] b.wiring
  { taps := w.taps
    cycle := b.cycle
    perm := (permute w.s (perm₀ p)).2
    seedTap := w.seedTap }

end

/-- The constructor. -/
def Params.rng (p : Params) (fuel : ℕ) : Option (Rng p) :=
  (extendTo p fuel (p.n - p.r) (by have := p.r_le; omega)).map Fifos.rng

/-! ## Running it -/

/-- The vector `cs`. -/
abbrev State (p : Params) := Fin p.n → BitVec 32

/-- What `Step` returns; the new `cs` is passed back by reference. -/
structure Out (p : Params) where
  ro : Fin p.r → BitVec 32
  s_out : BitVec 32

section
variable {p : Params} (g : Rng p)

@[inline] def Rng.step (cs : State p) (m : ℤ) (s_in : BitVec 32) : State p × Out p :=
  let ns : State p := fun i =>
    if m = 0 then (g.taps i).fold (· ^^^ ·) 0 cs
    else if i = g.seedTap then s_in else cs (g.cycle i)
  (ns, { ro := fun i => ns (p.reg (g.perm i)), s_out := cs (g.cycle g.seedTap) })

/-- The state after `k` calls, of which number `t` is `Step(cs, (calls t).1, (calls t).2)`. -/
def Rng.run (cs : State p) (calls : ℕ → ℤ × BitVec 32) : ℕ → State p
  | 0 => cs
  | k + 1 => (g.step (Rng.run cs calls k) (calls k).1 (calls k).2).1

/-- The new `g_state`, where `rand t` is what call `t` of `rand` returns. -/
def lutSrInit (rand : ℕ → ℕ) : State p :=
  g.run (fun _ => 1) (fun t => (1, BitVec.ofNat 32 (rand t % 2))) p.n

end

def lutSr : Params where
  n := 19937
  r := 624
  t := 5
  maxk := 32
  s := 0x2fffb
  r_pos := by decide
  r_le := by decide

/-! ## The draws -/

theorem lcg_lt (s : BitVec 32) : (lcg s).1 < 65536 := by
  have hs : (lcgNext s).toNat < 2 ^ 32 := (lcgNext s).isLt
  rw [lcg, BitVec.toNat_ushiftRight, Nat.shiftRight_eq_div_pow]
  omega

theorem lcgNext_eq (s : BitVec 32) : lcgNext s = Affine.step 1664525#32 1013904223#32 s := by
  have hs : (s.setWidth 64).setWidth 32 = s := by simp
  rw [lcgNext, Affine.step, BitVec.setWidth_add _ _ (by decide), BitVec.setWidth_mul _ _ (by decide), hs]
  rfl

/-- The LCG has full period, so every 32-bit word comes up. -/
theorem exists_lcgNext_iterate (s y : BitVec 32) : ∃ k < 2 ^ 32, lcgNext^[k] s = y := by
  have hfun : lcgNext = Affine.step 1664525#32 1013904223#32 := funext lcgNext_eq
  rw [hfun]
  exact Affine.exists_iterate_step_eq (by decide) (by decide) (by decide) s y

section
variable {p : Params} {len : Fin p.r → ℕ} {fuel : ℕ} {s : BitVec 32}

/-- A drawn FIFO has room. -/
theorem drawBit_ok {c : Fin p.r × BitVec 32} (h : drawBit p len fuel s = some c) :
    (len c.1 : ℤ) < p.maxk ∧ (c.1 : ℕ) < 65536 := by
  induction fuel generalizing s with
  | zero => cases h
  | succ fuel ih =>
    rw [drawBit] at h
    split at h
    case isTrue => exact ih h
    case isFalse hroom =>
      obtain rfl := Option.some.inj h
      exact ⟨not_le.1 hroom, (Nat.mod_le _ _).trans_lt (lcg_lt s)⟩

theorem drawBit_eq_none_iff :
    drawBit p len fuel s = none ↔ ∀ k < fuel, p.maxk ≤ len (p.bit (lcg (lcgNext^[k] s)).1) := by
  induction fuel generalizing s with
  | zero => simp [drawBit]
  | succ fuel ih =>
    have hnext : ∀ k, lcgNext^[k + 1] s = lcgNext^[k] (lcg s).2 := fun k => iterate_succ_apply lcgNext k s
    simp only [drawBit, Nat.forall_lt_succ_left, hnext, iterate_zero_apply]
    split
    case isTrue hfull => simp only [ih, hfull, true_and]
    case isFalse hroom => simp only [hroom, false_and, reduceCtorEq]

/-- Any FIFO with room that the LCG can reach is reached in the end. -/
theorem exists_drawBit {bit : Fin p.r} (hbit : (bit : ℕ) < 65536) (hroom : (len bit : ℤ) < p.maxk)
    (hfuel : 2 ^ 32 ≤ fuel) : ∃ c, drawBit p len fuel s = some c := by
  rw [← Option.ne_none_iff_exists', ne_eq, drawBit_eq_none_iff]
  intro hfull
  obtain ⟨k, hk, hy⟩ := exists_lcgNext_iterate (lcgNext s) (BitVec.ofNat 32 (bit * 65536))
  have hval : (lcg (lcgNext^[k] s)).1 = bit := by
    rw [lcg, ← iterate_succ_apply' lcgNext, iterate_succ_apply, hy, BitVec.toNat_ushiftRight, BitVec.toNat_ofNat,
      Nat.shiftRight_eq_div_pow]
    omega
  have hidx : p.bit (lcg (lcgNext^[k] s)).1 = bit := by
    rw [hval]
    exact Fin.ext (Nat.mod_eq_of_lt bit.2)
  have hfullk : p.maxk ≤ len bit := hidx ▸ hfull k (hk.trans_le hfuel)
  exact absurd hroom hfullk.not_gt

theorem drawBit_mono {fuel' : ℕ} (hle : fuel ≤ fuel') {c : Fin p.r × BitVec 32} (h : drawBit p len fuel s = some c) :
    drawBit p len fuel' s = some c := by
  induction fuel generalizing s fuel' with
  | zero => cases h
  | succ fuel ih =>
    obtain ⟨fuel', rfl⟩ : ∃ m, fuel' = m + 1 := ⟨fuel' - 1, by omega⟩
    rw [drawBit] at h ⊢
    split at h
    case isTrue hfull => rw [if_pos hfull]; exact ih (by omega) h
    case isFalse hroom => rw [if_neg hroom]; exact h

end

/-! ## Swaps -/

section
variable {ι α : Type*} [DecidableEq ι] (f : ι → α) {i j x : ι}

theorem swapAt_left : swapAt f i j i = f j := congrArg f (Equiv.swap_apply_left i j)

theorem swapAt_right : swapAt f i j j = f i := congrArg f (Equiv.swap_apply_right i j)

theorem swapAt_of_ne_of_ne (hi : x ≠ i) (hj : x ≠ j) : swapAt f i j x = f x :=
  congrArg f (Equiv.swap_apply_of_ne_of_ne hi hj)

end

theorem permuteFrom_eq {m : ℕ} {α : Type*} (j : ℕ) (hj : j ≤ m) (s : BitVec 32) (f : Fin m → α) :
    ∃ σ : Equiv.Perm (Fin m), (permuteFrom j hj s f).2 = f ∘ σ := by
  induction j using Nat.twoStepInduction generalizing s f with
  | zero => exact ⟨1, rfl⟩
  | one => exact ⟨1, rfl⟩
  | more j _ ih =>
    rw [permuteFrom]
    obtain ⟨σ, hσ⟩ := ih (by omega) (lcg s).2 (swapAt f ⟨j + 1, hj⟩ ⟨(lcg s).1 % (j + 2), _⟩)
    exact ⟨σ.trans (Equiv.swap _ _), hσ⟩

/-- `Permute` only reorders. -/
theorem permute_eq {m : ℕ} {α : Type*} (s : BitVec 32) (f : Fin m → α) :
    ∃ σ : Equiv.Perm (Fin m), (permute s f).2 = f ∘ σ := permuteFrom_eq m le_rfl s f

theorem permute_bijective {m : ℕ} {α : Type*} (s : BitVec 32) {f : Fin m → α} (hf : Bijective f) :
    Bijective (permute s f).2 := by
  obtain ⟨σ, hσ⟩ := permute_eq s f
  rw [hσ]
  exact hf.comp σ.bijective

/-! ## Growing the cycle -/

section
variable {p : Params}

theorem perm₀_injective : Injective (perm₀ p) := by
  intro i j hij
  have hmod : (i + 1 : ℕ) % p.r = (j + 1) % p.r := congrArg Fin.val hij
  have hmod' : (i : ℕ) % p.r = j % p.r := Nat.ModEq.add_right_cancel' 1 hmod
  rw [Nat.mod_eq_of_lt i.2, Nat.mod_eq_of_lt j.2] at hmod'
  exact Fin.ext hmod'

theorem fifos₀_cycle_reg (i : Fin p.r) : (fifos₀ p).cycle (p.reg i) = p.reg (p.bit (i + 1)) := dif_pos i.2

/-- Loop 1 makes one cycle of the heads. -/
theorem fifos₀_cycle_iterate (k : ℕ) (i : Fin p.r) : (fifos₀ p).cycle^[k] (p.reg i) = p.reg (p.bit (i + k)) := by
  induction k with
  | zero => exact congrArg p.reg (Fin.ext (Nat.mod_eq_of_lt i.2).symm)
  | succ k ih =>
    rw [iterate_succ_apply', ih, fifos₀_cycle_reg]
    exact congrArg p.reg (Fin.ext (by simp [Nat.add_assoc]))

theorem fifos₀_cyclesOn : CyclesOn (fifos₀ p).cycle {i | (i : ℕ) < p.r + 0} := by
  have hreg : ∀ x : Fin p.n, (x : ℕ) < p.r + 0 → ∃ i : Fin p.r, p.reg i = x := fun x hx => ⟨⟨x, hx⟩, rfl⟩
  constructor
  · intro x hx
    obtain ⟨i, rfl⟩ := hreg x hx
    rw [fifos₀_cycle_reg]
    exact (p.bit (i + 1)).2
  · intro x hx y hy
    obtain ⟨i, rfl⟩ := hreg x hx
    obtain ⟨j, rfl⟩ := hreg y hy
    refine ⟨p.r - i + j, ?_⟩
    have hround : (i + (p.r - i + j) : ℕ) = j + p.r := by omega
    rw [fifos₀_cycle_iterate, hround]
    exact congrArg p.reg (Fin.ext (by simp [Nat.mod_eq_of_lt j.2]))

/-- What a round of loop 2 does. -/
theorem Fifos.extend_ok {fuel : ℕ} {i : Fin p.n} {b b' : Fifos p} (h : b.extend fuel i = some b') :
    ∃ bit, (b.len bit : ℤ) < p.maxk ∧ (bit : ℕ) < 65536 ∧
      b'.cycle = swapAt (update b.cycle i i) i (p.reg bit) ∧ b'.len = update b.len bit (b.len bit + 1) := by
  rw [Fifos.extend, Option.map_eq_some_iff] at h
  obtain ⟨⟨bit, s⟩, hdraw, rfl⟩ := h
  obtain ⟨hroom, hbit⟩ := drawBit_ok hdraw
  exact ⟨bit, hroom, hbit, rfl, rfl⟩

/-- The new position goes into the cycle of all positions before it. -/
theorem Fifos.extend_cyclesOn {fuel : ℕ} {i : Fin p.n} {b b' : Fifos p} (h : b.extend fuel i = some b')
    (hi : p.r ≤ i) (hc : CyclesOn b.cycle {j | (j : ℕ) < i}) : CyclesOn b'.cycle {j | (j : ℕ) < i + 1} := by
  obtain ⟨bit, -, -, hcycle, -⟩ := Fifos.extend_ok h
  have hbit : (p.reg bit : ℕ) < i := bit.2.trans_le hi
  have hne : p.reg bit ≠ i := fun he => hbit.ne (congrArg Fin.val he)
  have hset : {j : Fin p.n | (j : ℕ) < i + 1} = insert i {j : Fin p.n | (j : ℕ) < i} := by
    ext j
    simp only [Set.mem_ofPred_eq, Set.mem_insert_iff, Fin.ext_iff]
    omega
  rw [hset]
  refine hc.extend (a := p.reg bit) hbit ?_ ?_ ?_
  · rw [hcycle, swapAt_right, update_self]
  · rw [hcycle, swapAt_left, update_of_ne hne]
  · intro x hx hxa
    have hxi : x ≠ i := fun he => (Nat.lt_irrefl _ (he ▸ hx : (i : ℕ) < i))
    rw [hcycle, swapAt_of_ne_of_ne _ hxi hxa, update_of_ne hxi]

/-- What loop 2 keeps: after `k` rounds `k` positions are in the FIFOs, and those lie within the LCG's reach. -/
structure Fifos.Ok (b : Fifos p) (k : ℕ) : Prop where
  cyclesOn : CyclesOn b.cycle {i | (i : ℕ) < p.r + k}
  sum_len : ∑ j, b.len j = k
  len_le : ∀ j, b.len j ≤ p.maxk.toNat
  len_far : ∀ j : Fin p.r, 65536 ≤ (j : ℕ) → b.len j = 0

theorem fifos₀_ok : (fifos₀ p).Ok 0 where
  cyclesOn := fifos₀_cyclesOn
  sum_len := Finset.sum_const_zero
  len_le _ := Nat.zero_le _
  len_far _ _ := rfl

theorem Fifos.Ok.extend {fuel k : ℕ} {b b' : Fifos p} (hb : b.Ok k) (hk : p.r + k < p.n)
    (h : b.extend fuel ⟨p.r + k, hk⟩ = some b') : b'.Ok (k + 1) := by
  obtain ⟨bit, hroom, hbit, -, hlen⟩ := Fifos.extend_ok h
  refine ⟨Fifos.extend_cyclesOn h (Nat.le_add_right _ _) hb.cyclesOn, ?_, ?_, ?_⟩
  · rw [hlen, Finset.sum_update_of_mem (Finset.mem_univ bit), ← hb.sum_len,
      Finset.sum_eq_add_sum_sdiff_singleton_of_mem (Finset.mem_univ bit) b.len]
    omega
  · intro j
    rw [hlen, update_apply]
    split
    · omega
    · exact hb.len_le j
  · intro j hj
    have hne : j ≠ bit := by rintro rfl; omega
    rw [hlen, update_of_ne hne]
    exact hb.len_far j hj

theorem extendTo_succ_eq_some_iff {fuel k : ℕ} {h : p.r + (k + 1) ≤ p.n} {b' : Fifos p} :
    extendTo p fuel (k + 1) h = some b' ↔
      ∃ b, extendTo p fuel k (by omega) = some b ∧ b.extend fuel ⟨p.r + k, h⟩ = some b' := Option.bind_eq_some_iff

theorem extendTo_ok {fuel k : ℕ} {h : p.r + k ≤ p.n} {b : Fifos p} (hb : extendTo p fuel k h = some b) : b.Ok k := by
  induction k generalizing b with
  | zero =>
    obtain rfl := Option.some.inj hb
    exact fifos₀_ok
  | succ k ih =>
    obtain ⟨b₀, hb₀, hext⟩ := extendTo_succ_eq_some_iff.1 hb
    exact (ih hb₀).extend h hext

/-! ## When the constructor returns -/

/-- The FIFOs whose index is the low part of some value of the LCG. -/
def near (p : Params) : Finset (Fin p.r) := {j | (j : ℕ) < 65536}

theorem mem_near {j : Fin p.r} : j ∈ near p ↔ (j : ℕ) < 65536 := by simp [near]

theorem card_near : (near p).card = min p.r 65536 := Fin.card_filter_val_lt

theorem Fifos.Ok.sum_near {b : Fifos p} {k : ℕ} (hb : b.Ok k) : ∑ j ∈ near p, b.len j = k := by
  rw [← hb.sum_len]
  refine Finset.sum_subset (Finset.subset_univ _) fun j _ hj => hb.len_far j ?_
  exact not_lt.1 fun hlt => hj (mem_near.2 hlt)

theorem Fifos.Ok.le {b : Fifos p} {k : ℕ} (hb : b.Ok k) : k ≤ min p.r 65536 * p.maxk.toNat := by
  rw [← card_near, ← hb.sum_near, ← smul_eq_mul]
  exact Finset.sum_le_card_nsmul _ _ _ fun j _ => hb.len_le j

/-- As long as not all are full, one of them has room. -/
theorem Fifos.Ok.exists_room {b : Fifos p} {k : ℕ} (hb : b.Ok k) (hk : k < min p.r 65536 * p.maxk.toNat) :
    ∃ bit : Fin p.r, (bit : ℕ) < 65536 ∧ (b.len bit : ℤ) < p.maxk := by
  by_contra hfull
  have hge : ∀ j ∈ near p, p.maxk.toNat ≤ b.len j := by
    intro j hj
    refine not_lt.1 fun hlt => hfull ⟨j, mem_near.1 hj, ?_⟩
    omega
  have hsum := Finset.card_nsmul_le_sum _ _ _ hge
  rw [hb.sum_near, card_near, smul_eq_mul] at hsum
  exact absurd hk hsum.not_gt

theorem exists_extendTo {fuel k : ℕ} (hfuel : 2 ^ 32 ≤ fuel) (h : p.r + k ≤ p.n)
    (hk : k ≤ min p.r 65536 * p.maxk.toNat) : ∃ b, extendTo p fuel k h = some b := by
  induction k with
  | zero => exact ⟨fifos₀ p, rfl⟩
  | succ k ih =>
    obtain ⟨b, hb⟩ := ih (by omega) (by omega)
    obtain ⟨bit, hbit, hroom⟩ := (extendTo_ok hb).exists_room hk
    obtain ⟨c, hc⟩ := exists_drawBit (s := b.s) hbit hroom hfuel
    obtain ⟨b', hext⟩ : ∃ b', b.extend fuel ⟨p.r + k, h⟩ = some b' := by
      rw [Fifos.extend, hc]
      exact ⟨_, rfl⟩
    exact ⟨b', extendTo_succ_eq_some_iff.2 ⟨b, hb, hext⟩⟩

theorem extendTo_mono {fuel fuel' k : ℕ} (hle : fuel ≤ fuel') {h : p.r + k ≤ p.n} {b : Fifos p}
    (hb : extendTo p fuel k h = some b) : extendTo p fuel' k h = some b := by
  induction k generalizing b with
  | zero => exact hb
  | succ k ih =>
    obtain ⟨b₀, hb₀, hext⟩ := extendTo_succ_eq_some_iff.1 hb
    refine extendTo_succ_eq_some_iff.2 ⟨b₀, ih hb₀, ?_⟩
    obtain ⟨c, hdraw, hc⟩ := Option.map_eq_some_iff.1 hext
    exact Option.map_eq_some_iff.2 ⟨c, drawBit_mono hle hdraw, hc⟩

/-- What the constructor guarantees. -/
theorem rng_ok {fuel : ℕ} {g : Rng p} (h : p.rng fuel = some g) :
    p.n ≤ p.r + min p.r 65536 * p.maxk.toNat ∧ CyclesOn g.cycle Set.univ ∧ Bijective g.perm := by
  obtain ⟨b, hb, rfl⟩ := Option.map_eq_some_iff.1 h
  have hok := extendTo_ok hb
  have hall : {i : Fin p.n | (i : ℕ) < p.r + (p.n - p.r)} = Set.univ :=
    Set.eq_univ_of_forall fun i => (by have := i.2; omega : (i : ℕ) < p.r + (p.n - p.r))
  refine ⟨by have := hok.le; omega, hall ▸ hok.cyclesOn, permute_bijective _ ?_⟩
  exact Finite.injective_iff_bijective.1 perm₀_injective

/-- The constructor returns iff the FIFOs within reach have room for all registers. -/
theorem rng_terminates_iff : (∃ fuel g, p.rng fuel = some g) ↔ p.n ≤ p.r + min p.r 65536 * p.maxk.toNat := by
  constructor
  · rintro ⟨fuel, g, h⟩
    exact (rng_ok h).1
  · intro hroom
    have hle := p.r_le
    obtain ⟨b, hb⟩ := exists_extendTo (p := p) (le_refl (2 ^ 32)) (k := p.n - p.r) (by omega) (by omega)
    exact ⟨2 ^ 32, b.rng, Option.map_eq_some_iff.2 ⟨b, hb, rfl⟩⟩

/-- More fuel does not change the generator. -/
theorem rng_mono {fuel fuel' : ℕ} (hle : fuel ≤ fuel') {g : Rng p} (h : p.rng fuel = some g) :
    p.rng fuel' = some g := by
  obtain ⟨b, hb, hg⟩ := Option.map_eq_some_iff.1 h
  exact Option.map_eq_some_iff.2 ⟨b, extendTo_mono hle hb, hg⟩

/-! ## Loading -/

variable (g : Rng p)

theorem Rng.step_load {m : ℤ} (hm : m ≠ 0) (cs : State p) (s_in : BitVec 32) :
    (g.step cs m s_in).1 = load g.cycle g.seedTap s_in cs := by
  funext i
  exact if_neg hm

theorem Rng.run_load {calls : ℕ → ℤ × BitVec 32} (hm : ∀ t, (calls t).1 ≠ 0) (cs : State p) (k : ℕ) :
    g.run cs calls k = loads g.cycle g.seedTap (fun t => (calls t).2) cs k := by
  induction k with
  | zero => rfl
  | succ k ih =>
    rw [Rng.run, Rng.step_load g (hm k), ih]
    rfl

variable {fuel : ℕ} {g}

/-- **Seed loading**: `cycle` is a single cycle through all registers. So `n` load calls leave a permutation of their
inputs, which depends on the generator only, and the next `n` load calls return these inputs in order. What
`lut_sr_init` starts from does not matter. -/
theorem Rng.loads_state (hg : p.rng fuel = some g) :
    (∃ c : Equiv.Perm (Fin p.n), ⇑c = g.cycle ∧ c.IsCycleOn Set.univ) ∧
    (∃ σ : Equiv.Perm (Fin p.n), ∀ (cs : State p) (x : ℕ → BitVec 32),
      g.run cs (fun t => (1, x t)) p.n = (fun i => x (σ i)) ∧
      ∀ calls : ℕ → ℤ × BitVec 32, (∀ t, (calls t).1 ≠ 0) → ∀ k < p.n,
        (g.step (g.run (g.run cs (fun t => (1, x t)) p.n) calls k) (calls k).1 (calls k).2).2.s_out = x k) ∧
    ∀ (rand : ℕ → ℕ) (cs : State p),
      lutSrInit g rand = g.run cs (fun t => (1, BitVec.ofNat 32 (rand t % 2))) p.n := by
  have hc : CyclesOn g.cycle Set.univ := (rng_ok hg).2.1
  have hN : Fintype.card (Fin p.n) = p.n := Fintype.card_fin p.n
  have hrun : ∀ (cs : State p) (x : ℕ → BitVec 32) k,
      g.run cs (fun t => (1, x t)) k = loads g.cycle g.seedTap x cs k :=
    fun cs x k => g.run_load (fun _ => one_ne_zero) cs k
  obtain ⟨σ, hσ⟩ : ∃ σ : Equiv.Perm (Fin p.n), ∀ (v : ℕ → BitVec 32) st,
      loads g.cycle g.seedTap v st p.n = fun i => v (σ i) := hc.exists_equiv hN g.seedTap
  refine ⟨hc.isCycleOn, ⟨σ, fun cs x => ⟨?_, fun calls hm k hk => ?_⟩⟩, fun rand cs => ?_⟩
  · rw [hrun, hσ]
  · rw [hrun, g.run_load hm]
    exact hc.loads_out hN g.seedTap hk x _ cs
  · rw [lutSrInit, hrun, hrun, hσ, hσ]

theorem loads_state_lutSr : ∃ fuel, ∃ g : Rng lutSr, lutSr.rng fuel = some g ∧
    ∃ σ : Equiv.Perm (Fin lutSr.n), ∀ cs (x : ℕ → BitVec 32),
      g.run cs (fun t => (1, x t)) lutSr.n = fun i => x (σ i) := by
  obtain ⟨fuel, g, hg⟩ := (rng_terminates_iff (p := lutSr)).2 (by decide)
  obtain ⟨σ, hσ⟩ := (Rng.loads_state hg).2.1
  exact ⟨fuel, g, hg, σ, fun cs x => (hσ cs x).1⟩

end

end ThundeRiNG.LutSr
