import ThundeRiNG.Rng.Equidistribution
import ThundeRiNG.Rng.SeedTable
import ThundeRiNG.Rng.SouOutput

/-!
# How the words are spread over the joint period

Root and decorrelator have coprime periods, so in `2^64 * N` words each root state meets each nonzero decorrelator
state once (`Decorrelator`). If each word has as many root states as any other, each comes equally often
(`Decorrelator.even`); and else it comes too seldom by the number of its root states (`Decorrelator.card_words`).

* `instanceWords_spread` — the words one instance adds are exactly even.
* `mergedWords_spread` — at `rng_main` the decorrelators act as one, because `xorshiftjump` is linear: its seed is the
  xor of theirs, which is zero for no number of compute units (`seedSum_ne_zero`).
-/

namespace ThundeRiNG

open Finset Function Gf2

/-- A generator of words that goes through all states but `z`, its words even over the states. -/
structure Decorrelator {D : Type} [Fintype D] (next : D → D) (word : D → Rng32) (z : D) (N c : ℕ) : Prop where
  card : Fintype.card D = N + 1
  card_eq : N + 1 = 2 ^ 32 * c
  coprime : (2 ^ 64).Coprime N
  period : ∀ d ≠ z, minimalPeriod next d = N
  ne : ∀ d ≠ z, ∀ n, next^[n] d ≠ z
  word_eq_zero : word z = 0
  fiber : ∀ v, (univ.filter fun d => word d = v).card = c

section
variable {D : Type} [Fintype D] [DecidableEq D] {next : D → D} {word : D → Rng32} {z : D} {N c : ℕ}

theorem Decorrelator.card_words (hD : Decorrelator next word z N c) (P : RngState → Rng32) (w : Rng32) (s : RngState)
    {d : D} (hd : d ≠ z) (m : ℕ) :
    ((Ico m (m + 2 ^ 64 * N)).filter fun n => word (next^[n] d) ^^^ P (rootState s n) = w).card =
      2 ^ 64 * c - (univ.filter fun t => P t = w).card := by
  have h := Counting.card_filter_two (f := stateTransitionFunciton) (x := s) (by rw [rootPeriod, card_rngState])
    (hD.ne d hd) (hD.period d hd) hD.card (by rw [card_rngState]; exact hD.coprime) P hD.word_eq_zero hD.fiber w m
  rwa [card_rngState] at h

/-- Over an output function that is even itself. -/
theorem Decorrelator.even (hD : Decorrelator next word z N c) {P : RngState → Rng32}
    (hP : ∀ w, (univ.filter fun t => P t = w).card = 2 ^ 32) (w : Rng32) (s : RngState) {d : D} (hd : d ≠ z) (m : ℕ) :
    ((Ico m (m + 2 ^ 64 * N)).filter fun n => word (next^[n] d) ^^^ P (rootState s n) = w).card = 2 ^ 32 * N := by
  have hcard := hD.card_eq
  rw [hD.card_words P w s hd m, hP]
  omega

end

/-- The output functions at any offset. -/
theorem card_output_add {out : RngState → Rng32} {r : RngState → Rng32} (hinj : Injective fun x => (r x, out x))
    (off : RngState) (w : Rng32) : (univ.filter fun t => out (t + off) = w).card = 2 ^ 32 := by
  have hfiber := Counting.card_fiber hinj (by rw [card_rngState, card_rng32, ← pow_add]) w
  rw [card_rng32] at hfiber
  exact (Counting.card_filter_comp (e := fun t : RngState => t + off) (add_left_injective off)
    fun t => out t = w).trans hfiber

theorem xorshiftjump_injective : Injective xorshiftjump :=
  xorLinear_xorshiftjump.injective fun x hx => by
    by_contra hne
    exact xorshiftjump_ne_zero hne 1 hx

theorem decorrelator_xorshiftjump : Decorrelator xorshiftjump xorshiftjump 0 (2 ^ 32 - 1) 1 where
  card := by rw [card_rng32]; norm_num
  card_eq := by norm_num
  coprime := by decide
  period _ hx := xorshiftjumpPeriod hx
  ne _ hx n := xorshiftjump_ne_zero hx n
  word_eq_zero := by decide
  fiber v := by
    rw [Counting.card_filter_comp xorshiftjump_injective fun x => x = v, filter_eq' univ v, if_pos (mem_univ v),
      card_singleton]

namespace Sou

variable {CUs : ℕ}

/-! ## One instance -/

/-- **One instance**: in `2^64 * (2^32 - 1)` words in a row, any decorrelator with any leaf stream gives each word
    exactly `2^32 * (2^32 - 1)` times. -/
theorem instanceWords_spread (s : RngState) {id : ℕ} (hid : id < 4096) (id' m : ℕ) (w : Rng32) :
    ((Ico m (m + 2 ^ 64 * (2 ^ 32 - 1))).filter fun n =>
      sgState id (n + 1) ^^^ leafWord (rootState s) id' n = w).card = 2 ^ 32 * (2 ^ 32 - 1) := by
  have heven := decorrelator_xorshiftjump.even (card_output_add outputFunction_rest_injective
    ((RNG_A * (BitVec.ofNat 64 (54 + id') <<< 1)) ||| 1)) w s (seedTable_disjoint.1 id hid) m
  simp only [← iterate_succ_apply' xorshiftjump] at heven
  exact heven

theorem instanceWords_spread_first :
    ((Ico 0 (0 + 2 ^ 64 * (2 ^ 32 - 1))).filter fun n =>
      sgState 7 (n + 1) ^^^ leafWord (rootState (INIT_STATE 0)) 14 n = 0).card = 2 ^ 32 * (2 ^ 32 - 1) :=
  instanceWords_spread (INIT_STATE 0) (by decide) 14 0 0

/-! ## All of them at `rng_main` -/

/-- The seeds of all decorrelators as one. -/
def seedSum (CUs : ℕ) : Rng32 := xorSum (List.range' 7 (8 * CUs)) fun id => tmpXor32S.getD id 0

/-- The leaf words that one root state gives, as one. -/
def leafSum (CUs : ℕ) (t : RngState) : Rng32 :=
  xorSum (List.range' 7 (8 * CUs)) fun id => outputFunction (multiStream t (BitVec.ofNat 64 (54 + id)))

theorem contributions_eq (s : RngState) (n : ℕ) :
    xorSum (List.range' 7 (8 * CUs)) (contribution (rootState s) n) =
      xorshiftjump^[n + 1] (seedSum CUs) ^^^ leafSum CUs (rootState s n) := by
  rw [seedSum, (xorLinear_xorshiftjump.iterate (n + 1)).map_xorSum, leafSum, ← xorSum_xor]
  rfl

/-- Adding up the list from `v` on, no sum is zero. -/
def neverZero : Rng32 → List Rng32 → Bool
  | _, [] => true
  | v, a :: l => (v ^^^ a) != 0 && neverZero (v ^^^ a) l

theorem foldl_ne_zero {v : Rng32} {l : List Rng32} (h : neverZero v l = true) {k : ℕ} (hk : 0 < k)
    (hkl : k ≤ l.length) : (l.take k).foldl (· ^^^ ·) v ≠ 0 := by
  induction l generalizing v k with
  | nil => simp at hkl; omega
  | cons a l ih =>
    obtain ⟨k, rfl⟩ := Nat.exists_eq_succ_of_ne_zero hk.ne'
    rw [neverZero, Bool.and_eq_true] at h
    rw [List.take_succ_cons, List.foldl_cons]
    rcases Nat.eq_zero_or_pos k with rfl | hpos
    · simpa using h.1
    · exact ih h.2 hpos (by simpa using hkl)

set_option maxRecDepth 100000 in
theorem neverZero_rows : neverZero 0 (tmpXor32S.drop 7) = true := by decide +kernel

theorem xorSum_rows {k : ℕ} (hk : 7 + k ≤ 4096) :
    xorSum (List.range' 7 k) (fun id => tmpXor32S.getD id 0) = ((tmpXor32S.drop 7).take k).foldl (· ^^^ ·) 0 := by
  have hrows : (List.range' 7 k).map (fun id => tmpXor32S.getD id 0) = (tmpXor32S.drop 7).take k := by
    apply List.ext_getElem
    · simp [length_tmpXor32S]
      omega
    · intro i hi _
      have hlen : 7 + i < tmpXor32S.length := by
        rw [length_tmpXor32S]
        simp at hi
        omega
      simp [List.getElem?_eq_getElem hlen]
  rw [← hrows, List.foldl_map]
  rfl

theorem seedSum_ne_zero (hC : 1 ≤ CUs) (hC' : CUs ≤ 511) : seedSum CUs ≠ 0 := by
  have hlen : 8 * CUs ≤ (tmpXor32S.drop 7).length := by
    rw [List.length_drop, length_tmpXor32S]
    omega
  rw [seedSum, xorSum_rows (by omega)]
  exact foldl_ne_zero neverZero_rows (by omega) hlen

/-- **All instances**: in every run in which the polls find their words, in `2^64 * (2^32 - 1)` words in a row at
    `rng_main` each word comes `2^64` times, less the number of root states whose leaf words alone make it. -/
theorem mergedWords_spread (axiDepth : ℕ) (s : RngState) (hC : 1 ≤ CUs) (hC' : CUs ≤ 511) (sched : List (Proc CUs))
    (hfound : ∀ k i, ∀ b ∈ ((network CUs axiDepth (rootState s) fun _ => 0).run sched).polls (.instanceStream k i),
      b = true)
    (m : ℕ) (w : Rng32) :
    let words := ((network CUs axiDepth (rootState s) fun _ => 0).run sched).hist (.oLink (linkStart CUs .rngMainRng))
    m + 2 ^ 64 * (2 ^ 32 - 1) ≤ words.length →
      ((words.drop m).take (2 ^ 64 * (2 ^ 32 - 1))).count w =
        2 ^ 64 - (univ.filter fun t => leafSum CUs t = w).card := by
  intro words hlen
  have hwords : words = (List.range words.length).map fun n =>
      xorshiftjump^[n + 1] (seedSum CUs) ^^^ leafSum CUs (rootState s n) := by
    simp only [← contributions_eq]
    exact (souOutput axiDepth (rootState s) hC hC' sched hfound).1
  rw [hwords, Counting.count_window _ hlen]
  simpa only [← iterate_succ_apply' xorshiftjump, Nat.mul_one] using
    decorrelator_xorshiftjump.card_words (leafSum CUs) w s (seedSum_ne_zero hC hC') m

theorem mergedWords_spread_one_kernel : ∃ sched,
    let words := ((network 1 2 (rootState (INIT_STATE 0)) fun _ => 0).run sched).hist (.oLink (linkStart 1 .rngMainRng))
    ((words.drop 0).take (2 ^ 64 * (2 ^ 32 - 1))).count 7 = 2 ^ 64 - (univ.filter fun t => leafSum 1 t = 7).card := by
  obtain ⟨sched, hpolls, hlen⟩ :=
    exists_souRun le_rfl Nat.two_pos (rootState (INIT_STATE 0)) (fun _ => 0) (2 ^ 64 * (2 ^ 32 - 1))
  refine ⟨sched, mergedWords_spread 2 (INIT_STATE 0) le_rfl (by decide) sched (fun k i => hpolls _) 0 7 ?_⟩
  rw [Nat.zero_add]
  exact hlen.ge

end Sou

end ThundeRiNG
