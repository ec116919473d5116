import ThundeRiNG.Host.PolyJump
import ThundeRiNG.Host.Xorshift128Period
import ThundeRiNG.Lib.Turns
import ThundeRiNG.Rng.Equidistribution

/-!
# Whole rounds of the jumping generators (`test/rngs/xorshift128p.h`, `test/rngs/sota1.h`)

Both steps have the exact period `2^128 - 1`, by the certificate of `Xorshift128Period`. So the subsequences that the
jumps cut off do not overlap, as the comments over the jumps say (`substreams_disjoint`), and `sota1` returns words of
one cycle from places `2^64` apart (`sota1_words`).

Over a whole round the words are as even as they can be with the zero state missing. A result of `xor128next` is a sum
of the two words of the state. Two results of `sota1_next` in a row determine the state, so here even the pairs are
evenly spread (`words_spread`).

| here | there |
| --- | --- |
| `Sota1`, `sota1`    | `xor128p_sota_s` and the `counter` of `sota1`; `sota1.h:53`, `:95-104` |
| `xor128pWord`       | `a` of `mxor128p_pcg_rr`, `xorshift128p.h:69` |
-/

namespace ThundeRiNG.PolyJump

open Function

/-! ## The exact periods -/

/-- The primes of `2^128 - 1`. -/
def ORDER_PRIMES : List ℕ := [3, 5, 17, 257, 641, 65537, 274177, 6700417, 67280421310721]

theorem prime_of_mem {q : ℕ} (h : q ∈ ORDER_PRIMES) : q.Prime := by
  simp only [ORDER_PRIMES, List.mem_cons, List.not_mem_nil, or_false] at h
  rcases h with rfl | rfl | rfl | rfl | rfl | rfl | rfl | rfl | rfl
  case inr.inr.inr.inr.inr.inr.inr.inr => exact Xorshift128.prime_67280421310721
  all_goals norm_num

/-- The primes, each with an inverse of `X ^ ((2^128 - 1) / q) - 1` modulo `xor128Poly`. -/
def xor128Certificate : List (ℕ × ℕ) := ORDER_PRIMES.zip
  [0x77497e24078ea653674b661defae65f7, 0x556864141afc7df41b042dd398106d68, 0x70b3fbca377e711544cf6a365902a35c,
   0x269935b1f2b18aa9e8bbd1aa85a79afa, 0x27575cb6ae66c22007246189e7d91e9, 0x799c348f222013dd1689919b68fa9982,
   0x2a9eeb1e8d0ee0f28600eb08bd0b93b1, 0xfec9a6dd2e30447a7f145c5b33bfb41d, 0xc57939fb3ca919e245a7015824e23d2e]

def sota1Certificate : List (ℕ × ℕ) := ORDER_PRIMES.zip
  [0x28ad2cf3e09d85f0dc40f461d2c2c7d8, 0xbe5308ec69514dc2ca8939e8bb7cc7f3, 0xb033aadb8e620d5380760c3edaa7db8,
   0x30e5aaf1d16d836bb08347f6b98df9d6, 0x6ec2b2abc5012855a81493c7e42b2476, 0x3c13da96bdf060b8b178dd43e7c56a9e,
   0x37430ca27c542004fe3ea4c3ea9f5ebc, 0xfbf5d1e791cb791fc6077daa37669ed5, 0x55db575fb05489582681f5f2a0a72912]

theorem xor128Certificate_spec : Gf2.powMod xor128Poly 128 (2 ^ 128 - 1) = 1 ∧
    ∀ q ∈ xor128Certificate,
      Gf2.mulMod xor128Poly 128 q.2 (Gf2.powMod xor128Poly 128 ((2 ^ 128 - 1) / q.1) ^^^ 1) = 1 := by
  refine ⟨by decide +kernel, ?_⟩
  unfold xor128Certificate ORDER_PRIMES
  iterate 9 refine List.forall_mem_cons.2 ⟨by decide +kernel, ?_⟩
  exact fun q hq => absurd hq List.not_mem_nil

theorem sota1Certificate_spec : Gf2.powMod sota1Poly 128 (2 ^ 128 - 1) = 1 ∧
    ∀ q ∈ sota1Certificate,
      Gf2.mulMod sota1Poly 128 q.2 (Gf2.powMod sota1Poly 128 ((2 ^ 128 - 1) / q.1) ^^^ 1) = 1 := by
  refine ⟨by decide +kernel, ?_⟩
  unfold sota1Certificate ORDER_PRIMES
  iterate 9 refine List.forall_mem_cons.2 ⟨by decide +kernel, ?_⟩
  exact fun q hq => absurd hq List.not_mem_nil

theorem prod_ORDER_PRIMES : ORDER_PRIMES.prod = 2 ^ 128 - 1 := by
  simp [ORDER_PRIMES]

theorem minimalPeriod_xor128step {s : State128} (hs : s ≠ 0) : minimalPeriod xor128step s = 2 ^ 128 - 1 := by
  refine Gf2.minimalPeriod_of_certificate xorLinear_xor128step xor128Poly_spec.1 (n := 128) (c := xor128Certificate)
    ?_ ?_ xor128Certificate_spec.1 xor128Certificate_spec.2 hs
  · rw [xor128Certificate, List.map_fst_zip (by decide), prod_ORDER_PRIMES]
  · rw [xor128Certificate, List.map_fst_zip (by decide)]
    exact fun q => prime_of_mem

theorem minimalPeriod_sota1Step {s : State128} (hs : s ≠ 0) : minimalPeriod sota1Step s = 2 ^ 128 - 1 := by
  refine Gf2.minimalPeriod_of_certificate xorLinear_sota1Step sota1Poly_spec.1 (n := 128) (c := sota1Certificate)
    ?_ ?_ sota1Certificate_spec.1 sota1Certificate_spec.2 hs
  · rw [sota1Certificate, List.map_fst_zip (by decide), prod_ORDER_PRIMES]
  · rw [sota1Certificate, List.map_fst_zip (by decide)]
    exact fun q => prime_of_mem

/-! ## Substreams -/

theorem xor128pSInit_self {CO_NUM : ℕ} (index : Fin CO_NUM) (xor128p_s : Fin CO_NUM → State128) :
    xor128pSInit index xor128p_s index = xor128step^[index * 2 ^ 65] XOR128P_SEED := by
  have hsteps : (index : ℕ) * 2 * 2 ^ 64 = index * 2 ^ 65 := by omega
  rw [xor128pSInit, update_self, foldl_jump xor128jump_eq, hsteps]

theorem sota1SInit_self {CO_NUM : ℕ} (index : Fin CO_NUM) (xor128p_sota_s : Fin CO_NUM → State128) :
    sota1SInit index xor128p_sota_s index = sota1Step^[index * 2 ^ 64] sota1Init := by
  rw [sota1SInit, update_self, foldl_jump sota1Jump_eq]

theorem minimalPeriod_XOR128P_SEED : minimalPeriod xor128step XOR128P_SEED = 2 ^ 128 - 1 :=
  minimalPeriod_xor128step (by decide)

theorem minimalPeriod_sota1Init : minimalPeriod sota1Step sota1Init = 2 ^ 128 - 1 :=
  minimalPeriod_sota1Step (by decide)

/-- **The subsequences do not overlap**: two states within `2^65` calls of `xor128next` after `xor128p_s_init`, or
    within `2^64` calls of `sota1_next` after `sota1_s_init`, are equal only if index and position are. -/
theorem substreams_disjoint :
    (∀ (CO_NUM : ℕ) (j k : Fin CO_NUM) (xor128p_s xor128p_s' : Fin CO_NUM → State128),
      2 * (j : ℕ) < 2 ^ 31 → 2 * (k : ℕ) < 2 ^ 31 → ∀ a < 2 ^ 65, ∀ b < 2 ^ 65,
        (fun s => (xor128next s).2)^[a] (xor128pSInit j xor128p_s j) =
          (fun s => (xor128next s).2)^[b] (xor128pSInit k xor128p_s' k) → j = k ∧ a = b) ∧
    (∀ (CO_NUM : ℕ) (j k : Fin CO_NUM) (xor128p_sota_s xor128p_sota_s' : Fin CO_NUM → State128),
      (j : ℕ) < 2 ^ 31 → (k : ℕ) < 2 ^ 31 → ∀ a < 2 ^ 64, ∀ b < 2 ^ 64,
        (fun s => (sota1Next s).2)^[a] (sota1SInit j xor128p_sota_s j) =
          (fun s => (sota1Next s).2)^[b] (sota1SInit k xor128p_sota_s' k) → j = k ∧ a = b) := by
  constructor
  · intro CO_NUM j k t t' hj hk a ha b hb heq
    rw [xor128pSInit_self, xor128pSInit_self] at heq
    obtain ⟨hjk, hab⟩ := Orbit.iterate_block_inj (K := 2 ^ 30) minimalPeriod_XOR128P_SEED (by norm_num)
      (by omega) (by omega) ha hb heq
    exact ⟨Fin.ext hjk, hab⟩
  · intro CO_NUM j k t t' hj hk a ha b hb heq
    rw [sota1SInit_self, sota1SInit_self] at heq
    obtain ⟨hjk, hab⟩ := Orbit.iterate_block_inj (K := 2 ^ 31) minimalPeriod_sota1Init (by norm_num) hj hk ha hb heq
    exact ⟨Fin.ext hjk, hab⟩

/-- Two indices, the later one first. -/
theorem substreams_disjoint_two :
    (fun s => (sota1Next s).2)^[7] (sota1SInit (1 : Fin 2) (fun _ => 0) 1) ≠
      (fun s => (sota1Next s).2)^[9] (sota1SInit (0 : Fin 2) (fun _ => 0) 0) := fun h =>
  absurd (substreams_disjoint.2 2 1 0 _ _ (by decide) (by decide) 7 (by decide) 9 (by decide) h).1 (by decide)

/-! ## `sota1` -/

abbrev Sota1 (CO_NUM : ℕ) := Turns 64 State128 CO_NUM

/-- What `sota1` keeps of a result. -/
def sota1Word (s : State128) : Rng32 := (sota1Next s).1.setWidth 32

def sota1 {CO_NUM : ℕ} (hCO : 0 < CO_NUM) : Sota1 CO_NUM → Rng32 × Sota1 CO_NUM :=
  Turns.call (fun s => (sota1Word s, (sota1Next s).2)) hCO

/-- After `sota1_s_init` for every index. -/
def Sota1.start (CO_NUM : ℕ) : Sota1 CO_NUM := Turns.start fun index => sota1SInit index (fun _ => (0, 0)) index

/-- Where on the cycle call `c` finds its state. -/
def sota1Place (CO_NUM c : ℕ) : ℕ := c % CO_NUM * 2 ^ 64 + c / CO_NUM

/-- **No state serves twice**: until `counter` wraps, call `c` of `sota1` returns the word of the state `sota1Place`
    steps after the common seed, and the states of two calls are different. -/
theorem sota1_words {CO_NUM : ℕ} (hCO : 0 < CO_NUM) (hint : CO_NUM ≤ 2 ^ 31) :
    (∀ c < 2 ^ 64, (sota1 hCO (Generator.after (sota1 hCO) c (Sota1.start CO_NUM))).1 =
      sota1Word (sota1Step^[sota1Place CO_NUM c] sota1Init)) ∧
    Set.InjOn (fun c => sota1Step^[sota1Place CO_NUM c] sota1Init) (Set.Iio (2 ^ 64)) := by
  have hplace : ∀ c, sota1Step^[sota1Place CO_NUM c] sota1Init =
      sota1Step^[c / CO_NUM] (sota1Step^[c % CO_NUM * 2 ^ 64] sota1Init) := fun c => by
    rw [sota1Place, Nat.add_comm, iterate_add_apply]
  have hdivlt : ∀ c < 2 ^ 64, c / CO_NUM < 2 ^ 64 := fun c hc => (Nat.div_le_self c CO_NUM).trans_lt hc
  refine ⟨fun c hc => ?_, fun c hc c' hc' heq => ?_⟩
  · have hsum : c / CO_NUM * CO_NUM + ((⟨c % CO_NUM, Nat.mod_lt c hCO⟩ : Fin CO_NUM) : ℕ) = c :=
      Nat.div_add_mod' c CO_NUM
    have hword := @Turns.word_call 64 CO_NUM _ _ (fun s => (sota1Word s, (sota1Next s).2)) hCO
      (fun index => sota1SInit index (fun _ => (0, 0)) index) _ _ (hsum.trans_lt hc)
    rw [hsum, sota1SInit_self] at hword
    exact hword.trans (congrArg sota1Word (hplace c).symm)
  · rw [Set.mem_Iio] at hc hc'
    have hmod : ∀ c, c % CO_NUM < 2 ^ 31 := fun c => (Nat.mod_lt c hCO).trans_le hint
    simp only [hplace] at heq
    obtain ⟨hmodeq, hdiveq⟩ := Orbit.iterate_block_inj (K := 2 ^ 31) minimalPeriod_sota1Init (by norm_num) (hmod c)
      (hmod c') (hdivlt c hc) (hdivlt c' hc') heq
    rw [← Nat.div_add_mod c CO_NUM, ← Nat.div_add_mod c' CO_NUM, hmodeq, hdiveq]

theorem sota1_words_two :
    (∀ c < 2 ^ 64, (sota1 two_pos (Generator.after (sota1 two_pos) c (Sota1.start 2))).1 =
      sota1Word (sota1Step^[sota1Place 2 c] sota1Init)) ∧
    Set.InjOn (fun c => sota1Step^[sota1Place 2 c] sota1Init) (Set.Iio (2 ^ 64)) :=
  sota1_words two_pos (by decide)

/-! ## Two results determine the state -/

theorem rotl_injective {k : ℕ} (hk : k ≤ 64) : Injective fun x => rotl x k := by
  refine (xorLinear_rotl hk).injective fun x (hx : (x <<< k) ||| (x >>> (64 - k)) = 0) => ?_
  obtain ⟨hleft, hright⟩ := BitVec.or_eq_zero_iff.1 hx
  apply BitVec.eq_of_getLsbD_eq
  intro i hi
  change x.getLsbD i = (0#64).getLsbD i
  rw [BitVec.getLsbD_zero]
  by_cases hik : i + k < 64
  · have hbit := congrArg (·.getLsbD (i + k)) hleft
    simpa [hik, hi] using hbit
  · have hbit := congrArg (·.getLsbD (i + k - 64)) hright
    simpa [show 64 - k + (i + k - 64) = i by omega] using hbit

/-- The result of `sota1_next`, from the first word of the state. -/
def sota1Result (s0 : BitVec 64) : BitVec 64 := rotl (s0 * 5) 7 * 9

theorem sota1Next_fst (s : State128) : (sota1Next s).1 = sota1Result s.1 := rfl

theorem sota1Step_fst (s : State128) :
    (sota1Step s).1 = rotl s.1 24 ^^^ ((s.2 ^^^ s.1) ^^^ ((s.2 ^^^ s.1) <<< 16)) := BitVec.xor_assoc _ _ _

theorem sota1Result_injective : Injective sota1Result := by
  have hmul : ∀ {c d : BitVec 64}, c * d = 1 → Injective fun x : BitVec 64 => x * c := by
    intro c d hcd x y hxy
    have h : x * c * d = y * c * d := congrArg (· * d) hxy
    simpa [mul_assoc, hcd] using h
  exact (hmul (d := 0x8E38E38E38E38E39) (by decide)).comp
    ((rotl_injective (by omega)).comp (hmul (d := 0xCCCCCCCCCCCCCCCD) (by decide)))

/-- Two results in a row determine the state. -/
theorem sota1Results_injective : Injective fun s => ((sota1Next s).1, (sota1Next (sota1Step s)).1) := by
  intro s s' h
  simp only [sota1Next_fst, Prod.mk.injEq] at h
  have hfst : s.1 = s'.1 := sota1Result_injective h.1
  have hnext := sota1Result_injective h.2
  rw [sota1Step_fst, sota1Step_fst, hfst, BitVec.xor_right_inj] at hnext
  have hsnd := Gf2.xor_shiftLeft_injective (k := 16) (by omega) hnext
  exact Prod.ext hfst ((BitVec.xor_left_inj _).1 hsnd)

/-- A word of 64 bits is its lower and its upper half. -/
theorem halves_injective : Injective fun x : BitVec 64 => ((x >>> 32).setWidth 32, (x.setWidth 32 : BitVec 32)) := by
  intro x y h
  obtain ⟨hhi, hlo⟩ := Prod.mk.inj h
  rw [← BitVec.toNat_inj] at hhi hlo ⊢
  simp only [BitVec.toNat_setWidth, BitVec.toNat_ushiftRight, Nat.shiftRight_eq_div_pow] at hhi hlo
  omega

/-! ## The words of a whole round -/

theorem card_bitVec64 : Fintype.card (BitVec 64) = 2 ^ 64 := card_rngState

theorem card_state128 : Fintype.card State128 = 2 ^ 128 := by
  rw [Fintype.card_prod, card_bitVec64, ← pow_add]

/-- In a round from a nonzero state, a property of states holds as often as it does for all states but zero. -/
theorem card_round {step : State128 → State128} (hstep : Gf2.XorLinear step)
    (hperiod : ∀ {s : State128}, s ≠ 0 → minimalPeriod step s = 2 ^ 128 - 1) {s : State128} (hs : s ≠ 0)
    {p : State128 → Prop} [DecidablePred p] {k : ℕ} (hk : (Finset.univ.filter p).card = k) :
    ((Finset.range (2 ^ 128 - 1)).filter fun n => p (step^[n] s)).card = k - if p 0 then 1 else 0 := by
  have hcount := Counting.card_filter_range_ne (Gf2.iterate_ne_zero hstep hs (by norm_num) (hperiod hs)) (hperiod hs)
    (by rw [card_state128]; norm_num) p
  rw [← hk, ← hcount, Nat.add_sub_cancel]

/-- How many states have a given pair of results, and how many a given pair of words. -/
theorem card_sota1Results (a b : BitVec 64) :
    (Finset.univ.filter fun s : State128 => (sota1Next s).1 = a ∧ (sota1Next (sota1Step s)).1 = b).card = 1 := by
  have hfiber := Counting.card_fiber (f := fun _ : State128 => ())
    (g := fun s => ((sota1Next s).1, (sota1Next (sota1Step s)).1))
    (fun s s' h => sota1Results_injective (Prod.mk.inj h).2)
    (by rw [Fintype.card_prod, Fintype.card_unit, Nat.one_mul]) (a, b)
  simpa only [Prod.mk.injEq, Fintype.card_unit] using hfiber

theorem card_sota1Words (u v : Rng32) :
    (Finset.univ.filter fun s => sota1Word s = u ∧ sota1Word (sota1Step s) = v).card = 2 ^ 64 := by
  have hfiber := Counting.card_fiber (g := fun s => (sota1Word s, sota1Word (sota1Step s)))
    (f := fun s => ((((sota1Next s).1 >>> 32).setWidth 32 : Rng32),
      (((sota1Next (sota1Step s)).1 >>> 32).setWidth 32 : Rng32)))
    (fun s s' h => by
      simp only [Prod.mk.injEq] at h
      obtain ⟨⟨hhi, hhi'⟩, hlo, hlo'⟩ := h
      have hfst := halves_injective (Prod.ext hhi hlo)
      have hsnd := halves_injective (Prod.ext hhi' hlo')
      exact sota1Results_injective (Prod.ext hfst hsnd))
    (by rw [card_state128, Fintype.card_prod, card_rng32]; norm_num) (u, v)
  simpa only [Prod.mk.injEq, Fintype.card_prod, card_rng32, ← pow_add] using hfiber

/-- What `mxor128p_pcg_rr` keeps of a result. -/
def xor128pWord (s : State128) : Rng32 := ((xor128next s).1 >>> 32).setWidth 32

theorem card_xor128pWords (u : Rng32) : (Finset.univ.filter fun s => xor128pWord s = u).card = 2 ^ 96 := by
  have hfiber := Counting.card_fiber (g := xor128pWord)
    (f := fun s => (s.1, ((xor128next s).1.setWidth 32 : Rng32)))
    (fun s s' h => by
      simp only [Prod.mk.injEq] at h
      obtain ⟨⟨hfst, hlo⟩, hhi⟩ := h
      have hsum : s.2 + s.1 = s'.2 + s'.1 := halves_injective (Prod.ext hhi hlo)
      rw [hfst] at hsum
      exact Prod.ext hfst (add_right_cancel hsum))
    (by rw [card_state128, Fintype.card_prod, card_bitVec64, card_rng32]; norm_num) u
  rw [hfiber, Fintype.card_prod, card_bitVec64, card_rng32, ← pow_add]

/-- **The words are spread evenly**: over the `2^128 - 1` calls of a round, from any nonzero state, every word of
    `xor128next` comes equally often, and so does every pair of words in a row of `sota1_next`; every pair of its
    results comes once. Only zero, or two zeros in a row, come once less. -/
theorem words_spread {s : State128} (hs : s ≠ 0) :
    (∀ u, ((Finset.range (2 ^ 128 - 1)).filter fun n => xor128pWord (xor128step^[n] s) = u).card =
      2 ^ 96 - if u = 0 then 1 else 0) ∧
    (∀ u v, ((Finset.range (2 ^ 128 - 1)).filter fun n =>
        sota1Word (sota1Step^[n] s) = u ∧ sota1Word (sota1Step^[n + 1] s) = v).card =
      2 ^ 64 - if u = 0 ∧ v = 0 then 1 else 0) ∧
    ∀ a b, ((Finset.range (2 ^ 128 - 1)).filter fun n =>
        (sota1Next (sota1Step^[n] s)).1 = a ∧ (sota1Next (sota1Step^[n + 1] s)).1 = b).card =
      1 - if a = 0 ∧ b = 0 then 1 else 0 := by
  refine ⟨fun u => ?_, fun u v => ?_, fun a b => ?_⟩
  · rw [card_round xorLinear_xor128step minimalPeriod_xor128step hs (card_xor128pWords u)]
    simp only [show xor128pWord 0 = 0 by decide, eq_comm]
  · simp only [iterate_succ_apply']
    rw [card_round xorLinear_sota1Step minimalPeriod_sota1Step hs (card_sota1Words u v)]
    simp only [show sota1Step 0 = 0 by decide, show sota1Word 0 = 0 by decide, eq_comm]
  · simp only [iterate_succ_apply']
    rw [card_round xorLinear_sota1Step minimalPeriod_sota1Step hs (card_sota1Results a b)]
    simp only [show sota1Step 0 = 0 by decide, show (sota1Next 0).1 = 0 by decide, eq_comm]

/-- From the common seed of `sota1_s_init`. -/
theorem words_spread_sota1Init :
    (∀ u, ((Finset.range (2 ^ 128 - 1)).filter fun n => xor128pWord (xor128step^[n] sota1Init) = u).card =
      2 ^ 96 - if u = 0 then 1 else 0) ∧
    (∀ u v, ((Finset.range (2 ^ 128 - 1)).filter fun n =>
        sota1Word (sota1Step^[n] sota1Init) = u ∧ sota1Word (sota1Step^[n + 1] sota1Init) = v).card =
      2 ^ 64 - if u = 0 ∧ v = 0 then 1 else 0) ∧
    ∀ a b, ((Finset.range (2 ^ 128 - 1)).filter fun n =>
        (sota1Next (sota1Step^[n] sota1Init)).1 = a ∧ (sota1Next (sota1Step^[n + 1] sota1Init)).1 = b).card =
      1 - if a = 0 ∧ b = 0 then 1 else 0 :=
  words_spread (by decide)

end ThundeRiNG.PolyJump
