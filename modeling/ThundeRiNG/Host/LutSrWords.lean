import Mathlib.Data.List.OfFn
import ThundeRiNG.Host.LutSr

/-!
# The words of the LUT-SR generator (`test/rngs/lut_sr.h:35-64`)

`lut_sr_srng` makes a word of the first 32 output bits of a step. `lut_sr_mrng` makes one step for each round of
`CO_NUM` calls, keeps the `r` output bits, and makes a word of 32 of them in each call. So it has bits for its streams
exactly if `32 * CO_NUM` is at most `r` (`lutSrMrng_words`); with more streams it reads behind the vector, in the first
round already.

| here | there |
| --- | --- |
| `shiftIn`, `lutSrWord`   | the loop over `out.first` (`:40-42`, `:60-62`), which has no value behind its end |
| `lutSrSrng`, `lutSrMrng` | `lut_sr_srng`, `lut_sr_mrng` |
| `Mrng`                   | `counter`, the first component of `out`, and `g_state` |
-/

namespace ThundeRiNG.LutSr

variable {p : Params} (g : Rng p)

/-- `rng_value = ((rng_value << 1) | (out.first[j] & 0x01))` -/
def shiftIn (first : List (BitVec 32)) (rng_value : BitVec 32) (j : ℕ) : Option (BitVec 32) :=
  (first[j]?).map fun b => (rng_value <<< 1) ||| (b &&& 1)

def lutSrWord (first : List (BitVec 32)) (start : ℕ) : Option (BitVec 32) :=
  (List.range' start 32).foldlM (shiftIn first) 0

def lutSrSrng (g_state : State p) : Option (BitVec 32) × State p :=
  let out := g.step g_state 0 0
  (lutSrWord (List.ofFn out.2.ro) 0, out.1)

structure Mrng (p : Params) where
  counter : BitVec 64
  out : List (BitVec 32)
  g_state : State p

def lutSrMrng (CO_NUM : ℕ) (s : Mrng p) : Option (BitVec 32 × Mrng p) :=
  let current_rng := s.counter.toNat % CO_NUM
  let s : Mrng p :=
    if current_rng = 0 then
      let out := g.step s.g_state 0 0
      { s with out := List.ofFn out.2.ro, g_state := out.1 }
    else s
  (lutSrWord s.out (current_rng * 32)).map fun rng_value => (rng_value, { s with counter := s.counter + 1 })

/-- After `c` calls, the first one on `cs`. -/
def mrngAfter (CO_NUM : ℕ) (cs : State p) : ℕ → Option (Mrng p)
  | 0 => some ⟨0, [], cs⟩
  | c + 1 => (mrngAfter CO_NUM cs c).bind fun s => (lutSrMrng g CO_NUM s).map Prod.snd

/-! ## One word -/

/-- `m` bits shifted in from the right. -/
theorem foldlM_shiftIn {first : List (BitVec 32)} {start m : ℕ} (h : start + m ≤ first.length) (v : BitVec 32) :
    ∃ v', (List.range' start m).foldlM (shiftIn first) v = some v' ∧
      ∀ i < 32, v'.getLsbD i = if i < m then (first.getD (start + (m - 1 - i)) 0).getLsbD 0 else v.getLsbD (i - m) := by
  induction m with
  | zero => exact ⟨v, rfl, fun i _ => by simp⟩
  | succ m ih =>
    obtain ⟨v', hv', hbits⟩ := ih (by omega)
    have hlt : start + m < first.length := by omega
    refine ⟨(v' <<< 1) ||| (first[start + m] &&& 1), ?_, fun i hi => ?_⟩
    · rw [List.range'_1_concat, List.foldlM_append, hv']
      simp [shiftIn, List.getElem?_eq_getElem hlt]
    · rcases i with _ | i
      · simp [List.getElem?_eq_getElem hlt, BitVec.getLsbD_eq_getElem]
      · have hone : (1 : BitVec 32).getLsbD (i + 1) = false := by simp
        have hbit : ((v' <<< 1) ||| (first[start + m] &&& 1)).getLsbD (i + 1) = v'.getLsbD i := by
          rw [BitVec.getLsbD_or, BitVec.getLsbD_and, hone, Bool.and_false, Bool.or_false]
          simp [hi, BitVec.getLsbD_eq_getElem (show i < 32 by omega)]
        have hpos : m + 1 - 1 - (i + 1) = m - 1 - i := by omega
        rw [hbit, hbits i (by omega), hpos]
        simp only [Nat.add_lt_add_iff_right, Nat.add_sub_add_right]

theorem lutSrWord_ofFn {r : ℕ} (ro : Fin r → BitVec 32) {start : ℕ} (h : start + 32 ≤ r) :
    ∃ w, lutSrWord (List.ofFn ro) start = some w ∧
      ∀ b (hb : b < 32), w.getLsbD (31 - b) = (ro ⟨start + b, by omega⟩).getLsbD 0 := by
  have hlen : start + 32 ≤ (List.ofFn ro).length := by rwa [List.length_ofFn]
  obtain ⟨w, hw, hbits⟩ := foldlM_shiftIn hlen 0
  refine ⟨w, hw, fun b hb => ?_⟩
  have hpos : start + (32 - 1 - (31 - b)) = start + b := by omega
  have hlt : start + b < r := by omega
  rw [hbits _ (by omega), if_pos (by omega), hpos]
  simp [List.getD_eq_getElem?_getD, hlt]

theorem lutSrWord_eq_none {first : List (BitVec 32)} {start : ℕ} (h : first.length < start + 32) :
    lutSrWord first start = none := by
  have hlast : first[start + 31]? = none := List.getElem?_eq_none (by omega)
  have hsplit : List.range' start 32 = List.range' start 31 ++ [start + 31] := List.range'_1_concat
  rw [lutSrWord, hsplit, List.foldlM_append]
  cases (List.range' start 31).foldlM (shiftIn first) 0 <;> simp [shiftIn, hlast]

/-! ## The run -/

section
variable (cs : State p)

/-- The state after `n` steps, and the output bits of the step that follows. -/
def states (n : ℕ) : State p := g.run cs (fun _ => (0, 0)) n

def roAt (n : ℕ) : Fin p.r → BitVec 32 := (g.step (states g cs n) 0 0).2.ro

/-- **Invariant** when `k` streams of round `n` are served. -/
structure MrngAt (CO_NUM n k : ℕ) (s : Mrng p) : Prop where
  counter : s.counter = BitVec.ofNat 64 (n * CO_NUM + k)
  g_state : s.g_state = states g cs (if k = 0 then n else n + 1)
  out : 0 < k → s.out = List.ofFn (roAt g cs n)

variable {g cs} {CO_NUM n k : ℕ} {s : Mrng p}

theorem mrngAt_start : MrngAt g cs CO_NUM 0 0 ⟨0, [], cs⟩ where
  counter := by rw [Nat.zero_mul]; rfl
  g_state := rfl
  out h := absurd h (Nat.lt_irrefl 0)

/-- A call makes a word of the bits of its round. -/
theorem MrngAt.call_eq (h : MrngAt g cs CO_NUM n k s) (hk : k < CO_NUM) (hc : n * CO_NUM + k < 2 ^ 64) :
    lutSrMrng g CO_NUM s = (lutSrWord (List.ofFn (roAt g cs n)) (k * 32)).map fun rng_value =>
      (rng_value, ⟨s.counter + 1, List.ofFn (roAt g cs n), states g cs (n + 1)⟩) := by
  have hmod : s.counter.toNat % CO_NUM = k := by
    rw [h.counter, BitVec.toNat_ofNat, Nat.mod_eq_of_lt hc, Nat.mul_comm, Nat.mul_add_mod, Nat.mod_eq_of_lt hk]
  have hstate := h.g_state
  unfold lutSrMrng
  rw [hmod]
  rcases Nat.eq_zero_or_pos k with rfl | hpos
  · rw [if_pos rfl] at hstate
    simp only [if_pos, hstate]
    rfl
  · rw [if_neg hpos.ne'] at hstate
    simp only [if_neg hpos.ne', h.out hpos, hstate]

/-- **Step**: with bits enough for its stream, a call serves the stream. -/
theorem MrngAt.call (h : MrngAt g cs CO_NUM n k s) (hk : k < CO_NUM) (hc : n * CO_NUM + k < 2 ^ 64)
    (hr : k * 32 + 32 ≤ p.r) :
    ∃ w s', lutSrMrng g CO_NUM s = some (w, s') ∧ MrngAt g cs CO_NUM n (k + 1) s' ∧
      lutSrWord (List.ofFn (roAt g cs n)) (k * 32) = some w := by
  obtain ⟨w, hw, -⟩ := lutSrWord_ofFn (roAt g cs n) hr
  refine ⟨w, _, by rw [h.call_eq hk hc, hw]; rfl, ⟨?_, by simp, fun _ => rfl⟩, hw⟩
  rw [h.counter]
  exact (BitVec.ofNat_add (n * CO_NUM + k) 1).symm

theorem MrngAt.call_eq_none (h : MrngAt g cs CO_NUM n k s) (hk : k < CO_NUM) (hc : n * CO_NUM + k < 2 ^ 64)
    (hr : p.r < k * 32 + 32) : lutSrMrng g CO_NUM s = none := by
  rw [h.call_eq hk hc, lutSrWord_eq_none (by rwa [List.length_ofFn])]
  rfl

/-- After the last stream of a round comes the first of the next. -/
theorem MrngAt.round (h : MrngAt g cs CO_NUM n CO_NUM s) (hCO : 0 < CO_NUM) : MrngAt g cs CO_NUM (n + 1) 0 s where
  counter := by
    rw [h.counter]
    congr 1
    ring
  g_state := by rw [h.g_state, if_neg hCO.ne', if_pos rfl]
  out hk := absurd hk (Nat.lt_irrefl 0)

/-- Within a round. -/
theorem exists_mrngAt_add {c : ℕ} (h : ∃ s, mrngAfter g CO_NUM cs c = some s ∧ MrngAt g cs CO_NUM n 0 s) (k : ℕ)
    (hk : k ≤ CO_NUM) (hc : n * CO_NUM + k ≤ 2 ^ 64) (hr : k * 32 ≤ p.r) :
    ∃ s, mrngAfter g CO_NUM cs (c + k) = some s ∧ MrngAt g cs CO_NUM n k s := by
  induction k with
  | zero => exact h
  | succ k ih =>
    obtain ⟨s, hs, hat⟩ := ih (by omega) (by omega) (by omega)
    obtain ⟨w, s', hcall, hat', -⟩ := hat.call (by omega) (by omega) (by omega)
    exact ⟨s', by rw [← Nat.add_assoc, mrngAfter, hs, Option.bind_some, hcall]; rfl, hat'⟩

/-- **Run**: with bits enough for all streams. -/
theorem exists_mrngAt (hCO : 0 < CO_NUM) (hr : 32 * CO_NUM ≤ p.r) (n k : ℕ) (hk : k ≤ CO_NUM)
    (hc : n * CO_NUM + k ≤ 2 ^ 64) :
    ∃ s, mrngAfter g CO_NUM cs (n * CO_NUM + k) = some s ∧ MrngAt g cs CO_NUM n k s := by
  refine exists_mrngAt_add ?_ k hk hc (by omega)
  induction n with
  | zero =>
    rw [Nat.zero_mul]
    exact ⟨_, rfl, mrngAt_start⟩
  | succ n ih =>
    have hsum : (n + 1) * CO_NUM = n * CO_NUM + CO_NUM := by ring
    obtain ⟨s, hs, hat⟩ := exists_mrngAt_add (ih (by omega)) CO_NUM le_rfl (by omega) (by omega)
    exact ⟨s, by rw [hsum, hs], hat.round hCO⟩

end

/-- **Bits enough**: no call of `lut_sr_mrng` reads behind `out.first` exactly if `32 * CO_NUM` is at most `r`. Then
    call `n * CO_NUM + k` returns the output bits from `32 * k` on of step `n`, the first of them on top, which for
    stream 0 is what `lut_sr_srng` returns. -/
theorem lutSrMrng_words (cs : State p) {CO_NUM : ℕ} (hCO : 0 < CO_NUM) (hint : CO_NUM ≤ 2 ^ 31) :
    ((∀ c ≤ 2 ^ 64, (mrngAfter g CO_NUM cs c).isSome) ↔ 32 * CO_NUM ≤ p.r) ∧
    ∀ (hr : 32 * CO_NUM ≤ p.r) (n : ℕ) (k : Fin CO_NUM), n * CO_NUM + k < 2 ^ 64 →
      ∃ s w s', mrngAfter g CO_NUM cs (n * CO_NUM + k) = some s ∧ lutSrMrng g CO_NUM s = some (w, s') ∧
        (∀ b (hb : b < 32), w.getLsbD (31 - b) =
          (roAt g cs n ⟨k * 32 + b, by have := k.isLt; omega⟩).getLsbD 0) ∧
        ((k : ℕ) = 0 → (lutSrSrng g (states g cs n)).1 = some w) := by
  refine ⟨⟨fun h => ?_, fun hr c hc => ?_⟩, fun hr n k hc => ?_⟩
  · by_contra hr
    -- the first stream whose bits are not all there
    have hstart : ∃ s, mrngAfter g CO_NUM cs 0 = some s ∧ MrngAt g cs CO_NUM 0 0 s := ⟨_, rfl, mrngAt_start⟩
    obtain ⟨s, hs, hat⟩ := exists_mrngAt_add hstart (p.r / 32) (by omega) (by omega) (by omega)
    have hnone := hat.call_eq_none (by omega) (by omega) (by omega)
    have hsome := h (0 + p.r / 32 + 1) (by omega)
    rw [mrngAfter, hs, Option.bind_some, hnone] at hsome
    simp at hsome
  · obtain ⟨s, hs, -⟩ := @exists_mrngAt p g cs CO_NUM hCO hr (c / CO_NUM) (c % CO_NUM) (Nat.mod_lt c hCO).le
      (by rwa [Nat.div_add_mod'])
    rw [Nat.div_add_mod'] at hs
    rw [hs]
    rfl
  · have hk := k.isLt
    obtain ⟨s, hs, hat⟩ := @exists_mrngAt p g cs CO_NUM hCO hr n k hk.le hc.le
    obtain ⟨w, s', hcall, -, hw⟩ := hat.call hk hc (by omega)
    obtain ⟨w', hw', hbits⟩ := lutSrWord_ofFn (roAt g cs n) (show (k : ℕ) * 32 + 32 ≤ p.r by omega)
    obtain rfl : w = w' := Option.some.inj (hw.symm.trans hw')
    refine ⟨s, w, s', hs, hcall, hbits, fun h0 => ?_⟩
    rw [h0] at hw
    exact hw

/-- Two streams of a generator with 64 heads and no more registers. -/
theorem lutSrMrng_words_two :
    let p : Params := ⟨64, 64, 5, 32, 0x2fffb, by decide, le_rfl⟩
    ∀ c ≤ 2 ^ 64, (mrngAfter (fifos₀ p).rng 2 (fun _ => 1) c).isSome := by
  intro p
  exact (lutSrMrng_words (fifos₀ p).rng (fun _ => 1) two_pos (by decide)).1.2 (by decide)

end ThundeRiNG.LutSr
