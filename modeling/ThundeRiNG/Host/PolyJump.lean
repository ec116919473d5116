import ThundeRiNG.Lib.Gf2Poly

/-!
# Jumping by a polynomial (`test/rngs/xorshift128p.h`, `test/rngs/sota1.h`)

Two generators on two 64-bit words. `xor128jump` and `sota1_jump` are one loop over the 128 bits of a constant
`JUMP`, with the generator's own step inside; the bits are the coefficients of `X^(2^64)` modulo the
characteristic polynomial of that step.

| here | there |
| --- | --- |
| `State128`                                            | `uint64_t *s`, read at `s[0]` and `s[1]` |
| `xor128next`, `xor128jump`, `xor128pSInit`            | `xorshift128p.h:9-51` |
| `rotl`, `sota1Next`, `sota1Init`, `sota1Jump`, `sota1SInit` | `sota1.h:24-92` |
| `jump`                                                | the loop of both jumps, `xorshift128p.h:28-39` |

`index` is an `int`; where the loop bound is `index * 2` that has to be an `int` as well.
-/

namespace ThundeRiNG.PolyJump

open Function

abbrev State128 := BitVec 64 × BitVec 64

/-! ## `xorshift128p.h` -/

/-- The result and the state left behind. -/
def xor128next (s : State128) : BitVec 64 × State128 :=
  let s1 := s.1
  let s0 := s.2
  let result := s0 + s1
  let s1 := s1 ^^^ (s1 <<< 23)
  (result, (s0, s1 ^^^ s0 ^^^ (s1 >>> 18) ^^^ (s0 >>> 5)))

def jump (next : State128 → State128) (JUMP : List (BitVec 64)) (s : State128) : State128 :=
  (JUMP.foldl (fun p word => (List.range 64).foldl (fun p b =>
    (if word &&& ((1 : BitVec 64) <<< b) ≠ 0 then p.1 ^^^ p.2 else p.1, next p.2)) p) ((0, 0), s)).1

def XOR128_JUMP : List (BitVec 64) := [0x8a5cd789635d2dff, 0x121fd2155c472f96]

def xor128jump (s : State128) : State128 := jump (fun s => (xor128next s).2) XOR128_JUMP s

def XOR128P_SEED : State128 := (0x5c472f121fd215, 0x121fd2155c472f)

def xor128pSInit {CO_NUM : ℕ} (index : Fin CO_NUM) (xor128p_s : Fin CO_NUM → State128) : Fin CO_NUM → State128 :=
  update xor128p_s index ((List.range (index * 2)).foldl (fun s _ => xor128jump s) XOR128P_SEED)

/-! ## `sota1.h` -/

def rotl (x : BitVec 64) (k : ℕ) : BitVec 64 := (x <<< k) ||| (x >>> (64 - k))

def sota1Next (s : State128) : BitVec 64 × State128 :=
  let s0 := s.1
  let s1 := s.2
  let result := rotl (s0 * 5) 7 * 9
  let s1 := s1 ^^^ s0
  (result, (rotl s0 24 ^^^ s1 ^^^ (s1 <<< 16), rotl s1 37))

def sota1Init : State128 := (123456789 * 362436069, 521288629 * 88675123)

def SOTA1_JUMP : List (BitVec 64) := [0xdf900294d8f554a5, 0x170865df4b3201fc]

def sota1Jump (s : State128) : State128 := jump (fun s => (sota1Next s).2) SOTA1_JUMP s

def sota1SInit {CO_NUM : ℕ} (index : Fin CO_NUM) (xor128p_sota_s : Fin CO_NUM → State128) : Fin CO_NUM → State128 :=
  update xor128p_sota_s index ((List.range index).foldl (fun s _ => sota1Jump s) sota1Init)

/-! ## The steps are linear -/

def xor128step (s : State128) : State128 := (xor128next s).2
def sota1Step (s : State128) : State128 := (sota1Next s).2

theorem xorLinear_xor128step : Gf2.XorLinear xor128step := by
  have h23 : Gf2.XorLinear fun x : BitVec 64 => x ^^^ (x <<< 23) := .xor .id (Gf2.xorLinear_shiftLeft 23)
  have h18 : Gf2.XorLinear fun x : BitVec 64 => x >>> 18 := Gf2.xorLinear_ushiftRight 18
  have h5 : Gf2.XorLinear fun x : BitVec 64 => x >>> 5 := Gf2.xorLinear_ushiftRight 5
  have hfst : Gf2.XorLinear (Prod.fst : State128 → BitVec 64) := Gf2.xorLinear_fst
  have hsnd : Gf2.XorLinear (Prod.snd : State128 → BitVec 64) := Gf2.xorLinear_snd
  exact hsnd.prodMk ((((h23.comp hfst).xor hsnd).xor (h18.comp (h23.comp hfst))).xor (h5.comp hsnd))

/-- The two halves of a rotation do not overlap, so `|` is `^`. -/
theorem rotl_eq_xor {k : ℕ} (hk : k ≤ 64) (x : BitVec 64) : rotl x k = (x <<< k) ^^^ (x >>> (64 - k)) := by
  ext i hi
  simp only [rotl, BitVec.getElem_or, BitVec.getElem_xor, BitVec.getElem_shiftLeft, BitVec.getElem_ushiftRight]
  by_cases hik : i < k
  · simp [hik]
  · have hout : 64 ≤ 64 - k + i := by omega
    simp [hik, BitVec.getLsbD_of_ge x _ hout]

theorem xorLinear_rotl {k : ℕ} (hk : k ≤ 64) : Gf2.XorLinear fun x => rotl x k := by
  have hxor : (fun x => rotl x k) = fun x : BitVec 64 => (x <<< k) ^^^ (x >>> (64 - k)) :=
    funext (rotl_eq_xor hk)
  rw [hxor]
  exact .xor (Gf2.xorLinear_shiftLeft k) (Gf2.xorLinear_ushiftRight (64 - k))

theorem xorLinear_sota1Step : Gf2.XorLinear sota1Step := by
  have hfst : Gf2.XorLinear (Prod.fst : State128 → BitVec 64) := Gf2.xorLinear_fst
  have hsnd : Gf2.XorLinear (Prod.snd : State128 → BitVec 64) := Gf2.xorLinear_snd
  have h16 : Gf2.XorLinear fun x : BitVec 64 => x <<< 16 := Gf2.xorLinear_shiftLeft 16
  have hs1 : Gf2.XorLinear fun s : State128 => s.2 ^^^ s.1 := hsnd.xor hfst
  have h24 := (xorLinear_rotl (k := 24) (by omega)).comp hfst
  have h37 := (xorLinear_rotl (k := 37) (by omega)).comp hs1
  exact ((h24.xor hs1).xor (h16.comp hs1)).prodMk h37

/-! ## The jumps -/

/-- The loop of the source is the library's. -/
theorem jump_eq (next : State128 → State128) (JUMP : List (BitVec 64)) (s : State128) :
    jump next JUMP s = (Gf2.jumpWords next JUMP ((0, 0), s)).1 := by
  simp only [jump, Gf2.jumpWords, Gf2.and_one_shiftLeft_ne_zero]; rfl

/-- The characteristic polynomials of the two steps, coded as bits. -/
def xor128Poly : ℕ := 0x12844c5d42caf7db0024f06fae9e61daf
def sota1Poly : ℕ := 0x10008828e513b43d5095b8f76579aa001

/-- `xor128Poly` annihilates the step, and `XOR128_JUMP` is `X^(2^64)` modulo it. -/
theorem xor128Poly_spec : (∀ s, Gf2.apply xor128step xor128Poly s = 0) ∧
    Gf2.powMod xor128Poly 128 (2 ^ 64) = Gf2.ofWords XOR128_JUMP := by
  constructor
  · apply (Gf2.xorLinear_apply xorLinear_xor128step _).eq_zero_of_twoPow_prod
    · decide +kernel
    · decide +kernel
  · decide +kernel

theorem sota1Poly_spec : (∀ s, Gf2.apply sota1Step sota1Poly s = 0) ∧
    Gf2.powMod sota1Poly 128 (2 ^ 64) = Gf2.ofWords SOTA1_JUMP := by
  constructor
  · apply (Gf2.xorLinear_apply xorLinear_sota1Step _).eq_zero_of_twoPow_prod
    · decide +kernel
    · decide +kernel
  · decide +kernel

theorem xor128jump_eq (s : State128) : xor128jump s = xor128step^[2 ^ 64] s :=
  (jump_eq _ _ s).trans (Gf2.jumpWords_of_powMod xorLinear_xor128step xor128Poly_spec.1 xor128Poly_spec.2 s)

theorem sota1Jump_eq (s : State128) : sota1Jump s = sota1Step^[2 ^ 64] s :=
  (jump_eq _ _ s).trans (Gf2.jumpWords_of_powMod xorLinear_sota1Step sota1Poly_spec.1 sota1Poly_spec.2 s)

/-- A fold that only applies one map. -/
theorem foldl_jump {jmp step : State128 → State128} {n : ℕ} (hjmp : ∀ s, jmp s = step^[n] s) (m : ℕ) (s : State128) :
    (List.range m).foldl (fun s _ => jmp s) s = step^[m * n] s := by
  induction m with
  | zero => simp
  | succ m ih =>
    have hsucc : (m + 1) * n = n + m * n := by ring
    rw [List.range_succ, List.foldl_append, ih, List.foldl_cons, List.foldl_nil, hjmp, hsucc, iterate_add_apply]

/-- **Polynomial jumps**: each jump is `2^64` calls of its generator, so index `i` starts `i * 2^65`, respectively
    `i * 2^64`, steps after the common seed. -/
theorem polynomialJumps :
    (∀ s, xor128jump s = (fun s => (xor128next s).2)^[2 ^ 64] s) ∧
    (∀ s, sota1Jump s = (fun s => (sota1Next s).2)^[2 ^ 64] s) ∧
    (∀ (CO_NUM : ℕ) (index : Fin CO_NUM) (xor128p_s : Fin CO_NUM → State128), 2 * (index : ℕ) < 2 ^ 31 →
      xor128pSInit index xor128p_s =
        update xor128p_s index ((fun s => (xor128next s).2)^[index * 2 ^ 65] XOR128P_SEED)) ∧
    (∀ (CO_NUM : ℕ) (index : Fin CO_NUM) (xor128p_sota_s : Fin CO_NUM → State128),
      sota1SInit index xor128p_sota_s =
        update xor128p_sota_s index ((fun s => (sota1Next s).2)^[index * 2 ^ 64] sota1Init)) := by
  refine ⟨xor128jump_eq, sota1Jump_eq, ?_, ?_⟩
  · intro CO_NUM index xor128p_s _
    have hsteps : (index : ℕ) * 2 * 2 ^ 64 = index * 2 ^ 65 := by omega
    rw [xor128pSInit, foldl_jump xor128jump_eq, hsteps]; rfl
  · intro CO_NUM index xor128p_sota_s
    rw [sota1SInit, foldl_jump sota1Jump_eq]; rfl

theorem polynomialJumps_second :
    xor128pSInit (1 : Fin 2) (fun _ => (0, 0)) =
      update (fun _ => (0, 0)) 1 ((fun s => (xor128next s).2)^[((1 : Fin 2) : ℕ) * 2 ^ 65] XOR128P_SEED) :=
  polynomialJumps.2.2.1 2 1 (fun _ => (0, 0)) (by decide)

end ThundeRiNG.PolyJump
