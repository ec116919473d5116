import Mathlib.Data.FinEnum
import ThundeRiNG.Lib.Counting
import ThundeRiNG.Rng.JointPeriod

/-!
# Both output permutations are exactly equidistributed (`sou_function.h:5-24`, `mpcg.h:20-41`)

Each output function xors the state with a shift of itself, cuts a 32-bit window out of the result at a
position that may depend on the top bits, and (`output_function`) rotates the window by the top bits. The
32 state bits outside the window (`rest`) and the output word determine the state, since the window can be
undone from the top down (`eq_of_window`). So every word has exactly `2^32` preimages, and the root LCG runs
through all states.
-/

namespace ThundeRiNG

open Finset Function

/-! ## Undoing the xor with a shift of oneself -/

/-- Two states that agree outside a window, and agree on the window after `x ^ (x >> s)`, are equal. -/
theorem eq_of_window {s lo : ℕ} (hs : 0 < s) {x y : RngState}
    (hout : ∀ b < 64, b < lo ∨ lo + 32 ≤ b → x.getLsbD b = y.getLsbD b)
    (hwin : ∀ b, lo ≤ b → b < lo + 32 → (x.getLsbD (b + s) ^^ x.getLsbD b) = (y.getLsbD (b + s) ^^ y.getLsbD b)) :
    x = y := by
  -- induction from the top bit down: the bit `b + s` is already known to agree
  have key : ∀ d b, 64 - b ≤ d → x.getLsbD b = y.getLsbD b := by
    intro d
    induction d with
    | zero => intro b hb; rw [BitVec.getLsbD_of_ge x b (by omega), BitVec.getLsbD_of_ge y b (by omega)]
    | succ d ih =>
      intro b hb
      by_cases hb64 : 64 ≤ b
      · rw [BitVec.getLsbD_of_ge x b hb64, BitVec.getLsbD_of_ge y b hb64]
      · by_cases hw : lo ≤ b ∧ b < lo + 32
        · have h := hwin b hw.1 hw.2
          rw [ih (b + s) (by omega)] at h
          exact Bool.xor_right_inj.1 h
        · exact hout b (by omega) (by omega)
  exact BitVec.eq_of_getLsbD_eq fun b _ => key 64 b (by omega)

/-- The 32 bits of a state outside the window `[lo, lo + 32)`, packed into a word. -/
def rest (lo : ℕ) (x : RngState) : Rng32 :=
  (((x >>> (32 + lo)) <<< lo) ||| ((x <<< (64 - lo)) >>> (64 - lo))).setWidth 32

theorem getLsbD_rest {lo : ℕ} (hlo : lo ≤ 32) (x : RngState) {i : ℕ} (hi : i < 32) :
    (rest lo x).getLsbD i = if i < lo then x.getLsbD i else x.getLsbD (i + 32) := by
  unfold rest
  by_cases h : i < lo
  · simp [h, hi, show 64 - lo + i < 64 by omega]
    exact (BitVec.getLsbD_eq_getElem _).symm
  · simp [h, hi, show ¬ 64 - lo + i < 64 by omega, show i < 64 by omega, show 32 + lo + (i - lo) = i + 32 by omega]

/-- Equal rests agree outside the window. -/
theorem getLsbD_eq_of_rest_eq {lo : ℕ} (hlo : lo ≤ 32) {x y : RngState} (h : rest lo x = rest lo y) :
    ∀ b < 64, b < lo ∨ lo + 32 ≤ b → x.getLsbD b = y.getLsbD b := by
  rintro b hb (hlt | hge)
  · have := congrArg (·.getLsbD b) h
    simpa only [getLsbD_rest hlo _ (show b < 32 by omega), if_pos hlt] using this
  · have := congrArg (·.getLsbD (b - 32)) h
    simpa only [getLsbD_rest hlo _ (show b - 32 < 32 by omega), if_neg (show ¬ b - 32 < lo by omega),
      Nat.sub_add_cancel (show 32 ≤ b by omega)] using this

/-- …and in particular on every shift that keeps only bits above the window. -/
theorem ushiftRight_eq_of_rest_eq {lo k : ℕ} (hk : lo + 32 ≤ k) {x y : RngState}
    (h : ∀ b < 64, b < lo ∨ lo + 32 ≤ b → x.getLsbD b = y.getLsbD b) : x >>> k = y >>> k := by
  apply BitVec.eq_of_getLsbD_eq
  intro b _
  simp only [BitVec.getLsbD_ushiftRight]
  by_cases hb : k + b < 64
  · exact h _ hb (by omega)
  · rw [BitVec.getLsbD_of_ge x _ (by omega), BitVec.getLsbD_of_ge y _ (by omega)]

/-! ## The two output functions -/

theorem shiftRight_or_shiftLeft_eq_rotateRight (x rot : Rng32) (h : rot.toNat < 32) :
    (x >>> rot) ||| (x <<< ((-rot) &&& 31)) = x.rotateRight rot.toNat := by
  have h31 : ((-rot) &&& (31 : Rng32)).toNat = (2 ^ 32 - rot.toNat) % 2 ^ 5 := by
    have h := Nat.and_two_pow_sub_one_eq_mod (-rot).toNat 5
    rw [BitVec.toNat_and, BitVec.toNat_neg]
    rw [BitVec.toNat_neg] at h
    rw [show (31 : Rng32).toNat = 2 ^ 5 - 1 from rfl, h]; omega
  rw [BitVec.ushiftRight_eq', BitVec.shiftLeft_eq', h31, BitVec.rotateRight_def, Nat.mod_eq_of_lt h]
  by_cases h0 : rot.toNat = 0
  · simp [h0]
  · rw [show (2 ^ 32 - rot.toNat) % 2 ^ 5 = 32 - rot.toNat by omega]

/-- The xorshifted word of `output_function`. -/
def xorshifted (x : RngState) : Rng32 := (((x >>> 18) ^^^ x) >>> 27).setWidth 32

theorem getLsbD_xorshifted (x : RngState) {j : ℕ} (hj : j < 32) :
    (xorshifted x).getLsbD j = (x.getLsbD (27 + j + 18) ^^ x.getLsbD (27 + j)) := by
  simp [xorshifted, hj, Nat.add_comm]

theorem outputFunction_eq_rotateRight (x : RngState) :
    outputFunction x = (xorshifted x).rotateRight (x >>> 59).toNat := by
  have hlt : (x >>> 59).toNat < 32 := by
    rw [BitVec.toNat_ushiftRight, Nat.shiftRight_eq_div_pow]; have := x.isLt; omega
  have hrot : ((x >>> 59).setWidth 32 : Rng32).toNat = (x >>> 59).toNat := by
    rw [BitVec.toNat_setWidth, Nat.mod_eq_of_lt (by omega)]
  rw [← hrot]
  exact shiftRight_or_shiftLeft_eq_rotateRight _ _ (by omega)

theorem rotateRight_injective {r : ℕ} (hr : r < 32) {x y : Rng32} (h : x.rotateRight r = y.rotateRight r) : x = y := by
  apply BitVec.eq_of_getLsbD_eq
  intro j hj
  by_cases hjr : r ≤ j
  · have h' := congrArg (·.getLsbD (j - r)) h
    simpa [Nat.mod_eq_of_lt hr, show j - r < 32 - r by omega, show r + (j - r) = j by omega] using h'
  · have h' := congrArg (·.getLsbD (j + 32 - r)) h
    rw [BitVec.getLsbD_eq_getElem hj, BitVec.getLsbD_eq_getElem hj]
    simpa [Nat.mod_eq_of_lt hr, show ¬ j + 32 - r < 32 - r by omega, show j + 32 - r - (32 - r) = j by omega,
      show j + 32 - r < 32 by omega] using h'

theorem outputFunction_rest_injective : Injective fun x : RngState => (rest 27 x, outputFunction x) := by
  intro x y h
  obtain ⟨hrest, hout⟩ := Prod.mk.inj h
  have hb := getLsbD_eq_of_rest_eq (by omega) hrest
  rw [outputFunction_eq_rotateRight, outputFunction_eq_rotateRight,
    ushiftRight_eq_of_rest_eq (by omega) hb] at hout
  have hlt : (y >>> 59).toNat < 32 := by
    rw [BitVec.toNat_ushiftRight, Nat.shiftRight_eq_div_pow]; have := y.isLt; omega
  have hxs := rotateRight_injective hlt hout
  apply eq_of_window (s := 18) (by omega) hb
  intro b h1 h2
  have h' := congrArg (·.getLsbD (b - 27)) hxs
  simpa only [getLsbD_xorshifted _ (show b - 27 < 32 by omega), show 27 + (b - 27) = b by omega] using h'

/-- Where `pcg_output_xsh_rs_64_32` cuts its window: bit `22` plus the top three bits of the state. -/
def rsWindow (x : RngState) : ℕ := (x >>> 61).toNat + 22

theorem rsWindow_le (x : RngState) : rsWindow x ≤ 29 := by
  unfold rsWindow
  rw [BitVec.toNat_ushiftRight, Nat.shiftRight_eq_div_pow]; have := x.isLt; omega

theorem getLsbD_pcgOutputXshRs6432 (x : RngState) {j : ℕ} (hj : j < 32) :
    (pcgOutputXshRs6432 x).getLsbD j = (x.getLsbD (rsWindow x + j + 22) ^^ x.getLsbD (rsWindow x + j)) := by
  have hamount : ((x >>> 61) + 22 : RngState).toNat = rsWindow x := by
    have := rsWindow_le x
    unfold rsWindow at this ⊢
    rw [BitVec.toNat_add, show (22 : RngState).toNat = 22 from rfl]; omega
  rw [pcgOutputXshRs6432, BitVec.ushiftRight_eq', hamount]
  simp [hj, Nat.add_comm]

theorem pcgOutputXshRs6432_rest_injective :
    Injective fun x : RngState => (rest (rsWindow x) x, pcgOutputXshRs6432 x) := by
  intro x y h
  obtain ⟨hrest, hout⟩ := Prod.mk.inj h
  have hx := rsWindow_le x
  have hy := rsWindow_le y
  -- bits 29, 30, 31 of the rest are the top three bits of the state, whatever the window is
  have htop : x >>> 61 = y >>> 61 := by
    apply BitVec.eq_of_getLsbD_eq
    intro b _
    simp only [BitVec.getLsbD_ushiftRight]
    by_cases hb : b < 3
    · have h' := congrArg (·.getLsbD (b + 29)) hrest
      have hxb : ¬ b + 29 < rsWindow x := by omega
      have hyb : ¬ b + 29 < rsWindow y := by omega
      simpa only [getLsbD_rest (show rsWindow x ≤ 32 by omega) _ (show b + 29 < 32 by omega),
        getLsbD_rest (show rsWindow y ≤ 32 by omega) _ (show b + 29 < 32 by omega), if_neg hxb, if_neg hyb,
        show b + 29 + 32 = 61 + b by omega] using h'
    · rw [BitVec.getLsbD_of_ge x _ (by omega), BitVec.getLsbD_of_ge y _ (by omega)]
  have hwin : rsWindow x = rsWindow y := by unfold rsWindow; rw [htop]
  rw [← hwin] at hrest
  apply eq_of_window (s := 22) (by omega) (getLsbD_eq_of_rest_eq (by omega) hrest)
  intro b h1 h2
  have h' := congrArg (·.getLsbD (b - rsWindow x)) hout
  simp only [getLsbD_pcgOutputXshRs6432 _ (show b - rsWindow x < 32 by omega), ← hwin] at h'
  simpa only [show rsWindow x + (b - rsWindow x) = b by omega] using h'

/-! ## Counting -/

theorem card_rng32 : Fintype.card Rng32 = 2 ^ 32 := by
  rw [← FinEnum.card_eq_fintypeCard, FinEnum.card_bitVec]

theorem card_rngState : Fintype.card RngState = 2 ^ 64 := by
  rw [← FinEnum.card_eq_fintypeCard, FinEnum.card_bitVec]

/-- An output function that with 32 further bits determines the state takes every word `2^32` times, along any
    `2^64` consecutive root states and at any offset added to them. -/
theorem card_outputs {out : RngState → Rng32} {r : RngState → Rng32} (hinj : Injective fun x => (r x, out x))
    (s off : RngState) (m : ℕ) (w : Rng32) :
    ((Ico m (m + 2 ^ 64)).filter fun n => out (rootState s n + off) = w).card = 2 ^ 32 := by
  have hcycle := Counting.card_filter_cycle (f := stateTransitionFunciton) (x := s) (m := m)
    (by rw [rootPeriod, card_rngState]) (fun x => out (x + off) = w)
  rw [card_rngState] at hcycle
  have hfiber := Counting.card_fiber hinj (by rw [card_rngState, card_rng32, ← pow_add]) w
  have hoff := Counting.card_filter_comp (e := fun x : RngState => x + off) (add_left_injective off)
    (fun x => out x = w)
  rw [card_rng32] at hfiber
  exact hcycle.trans (hoff.trans hfiber)

/-- **Equidistribution**: among any `2^64` consecutive root states, every stream gives every word exactly `2^32`
    times, under either output function. -/
theorem equidistributed (s seq : RngState) (m : ℕ) (w : Rng32) :
    ((Ico m (m + 2 ^ 64)).filter fun n => outputFunction (multiStream (rootState s n) seq) = w).card = 2 ^ 32 ∧
    ((Ico m (m + 2 ^ 64)).filter fun n => pcgOutputXshRs6432 (multiStream (rootState s n) seq) = w).card = 2 ^ 32 :=
  ⟨card_outputs outputFunction_rest_injective s _ m w, card_outputs pcgOutputXshRs6432_rest_injective s _ m w⟩

/-- The same for the host's `multi_stream`, whatever its `int` argument. -/
theorem Mpcg.equidistributed_multiStream (s : RngState) (seq : BitVec 32) (m : ℕ) (w : Rng32) :
    ((Ico m (m + 2 ^ 64)).filter fun n => outputFunction (Mpcg.multiStream (rootState s n) seq) = w).card = 2 ^ 32 :=
  card_outputs outputFunction_rest_injective s _ m w

end ThundeRiNG
