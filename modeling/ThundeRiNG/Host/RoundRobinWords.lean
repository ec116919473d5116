import ThundeRiNG.Host.Mixing
import ThundeRiNG.Host.PolyJumpPeriod
import ThundeRiNG.Host.RoundRobin
import ThundeRiNG.Lib.Writes
import ThundeRiNG.Rng.Spread

/-!
# The reference generators are even (`test/rngs/xorshift32.h`, `xorshift128p.h`, `xorshift128.h`)

The words of a stream are those of an output function over the root states, xored with those of the stream's own
decorrelator, whose period is coprime to that of the root. So when the tables have been initialised, each stream of
each reference generator has all words equally often in any joint period (`words_even`).

| here | there |
| --- | --- |
| `mxor128PcgRs`, `mxor128PcgRrNoMulti` | `xorshift128.h:469-490`, `:414-435` |
| `mxor32lcgs`                          | `xorshift32.h:85-106`, whose words are from the new state of the stream |
| `xor128pSAfter`                       | calls of `xor128p_s_init` (`xorshift128p.h:42-51`) |
-/

namespace ThundeRiNG.RoundRobin

open Finset Function

def mxor128PcgRs (mapping : ℕ → BitVec 32) : Member Xorshift128.State where
  multi tmp current_rng := Mpcg.multiStreamSeeked tmp (54 + mapping current_rng)
  output := pcgOutputXshRs6432
  jump s := ((Xorshift128.stepForward s).w, Xorshift128.stepForward s)

def mxor128PcgRrNoMulti : Member Xorshift128.State where
  multi tmp _ := tmp
  output := outputFunction
  jump s := ((Xorshift128.stepForward s).w, Xorshift128.stepForward s)

def mxor32lcgs {CO_NUM : ℕ} (hCO : 0 < CO_NUM) (g : Machine CO_NUM Rng32) : Rng32 × Machine CO_NUM Rng32 :=
  let oldstate := g.state
  let current_rng : Fin CO_NUM := ⟨g.counter.toNat % CO_NUM, Nat.mod_lt _ hCO⟩
  let state := if (current_rng : ℕ) = 0 then stateTransitionFunciton g.state else g.state
  let tmp := oldstate
  let tmp_update := Mpcg.multiStreamSeeked tmp (BitVec.ofNat 32 (54 + current_rng * 2 + 1))
  let rng : Rng32 := (tmp_update >>> 32).setWidth 32
  let a := xorshiftjump (g.jump_s current_rng)
  (rng ^^^ a,
    { counter := g.counter + 1
      state := state
      mxorpcg_last_s := update g.mxorpcg_last_s current_rng tmp_update
      jump_s := update g.jump_s current_rng a })

/-- The word that call number `c` of `mxor32lcgs` returns. -/
def lcgsWord {CO_NUM : ℕ} (hCO : 0 < CO_NUM) (g : Machine CO_NUM Rng32) (c : ℕ) : Rng32 :=
  (mxor32lcgs hCO ((fun g => (mxor32lcgs hCO g).2)^[c] g)).1

def xor128pSAfter {CO_NUM : ℕ} (inits : List (Fin CO_NUM)) : Fin CO_NUM → PolyJump.State128 :=
  inits.foldl (fun xor128p_s index => PolyJump.xor128pSInit index xor128p_s) fun _ => (0, 0)

/-- Round 0 apart, in any `2^64 * N` words in a row each word comes `2^32 * N` times. -/
def Even (N : ℕ) (word : ℕ → Rng32) : Prop :=
  ∀ m w, ((Ico m (m + 2 ^ 64 * N)).filter fun n => word (n + 1) = w).card = 2 ^ 32 * N

/-! ## Any member -/

section
variable {CO_NUM : ℕ} {D : Type} [Fintype D] [DecidableEq D] {z : D} {N c : ℕ}

theorem root_rootIndex (n i k : ℕ) : root (rootIndex (n + i) k) = rootState (root (rootIndex i k)) n := by
  have hadd : rootIndex (n + i) k = n + rootIndex i k := by
    unfold rootIndex
    split <;> omega
  rw [hadd, root, rootState, iterate_add_apply]
  rfl

/-- A member whose decorrelator and whose output function are even. -/
theorem Member.even {m : Member D} (hD : Decorrelator (fun d => (m.jump d).2) (fun d => (m.jump d).1) z N c)
    (hCO : 0 < CO_NUM) (hdvd : CO_NUM ∣ 2 ^ 64) (last : Fin CO_NUM → RngState) {seed : Fin CO_NUM → D} {k : Fin CO_NUM}
    (hout : ∀ w, (univ.filter fun t => m.output (m.multi t k) = w).card = 2 ^ 32) (hseed : seed k ≠ z) :
    Even N fun n => word m hCO (.start last seed) (n * CO_NUM + k) := by
  intro j w
  rw [← hD.even hout w (root (rootIndex 0 k)) (hD.ne _ hseed 1) j]
  congr 1
  refine filter_congr fun n _ => ?_
  have hword : word m hCO (.start last seed) ((n + 1) * CO_NUM + k) = _ := word_eq hCO last n k (.inr hdvd)
  rw [← Nat.add_zero n, root_rootIndex, Nat.add_zero, BitVec.xor_comm] at hword
  exact hword ▸ Iff.rfl

end

/-! ## The output functions -/

theorem card_seeked {out : RngState → Rng32} {r : RngState → Rng32} (hinj : Injective fun x => (r x, out x))
    (seq : BitVec 32) (w : Rng32) : (univ.filter fun t => out (Mpcg.multiStreamSeeked t seq) = w).card = 2 ^ 32 :=
  card_output_add hinj (seekedOffset seq) w

theorem upper_injective : Injective fun x : RngState => ((x.setWidth 32 : Rng32), ((x >>> 32).setWidth 32 : Rng32)) :=
  fun _ _ h => PolyJump.halves_injective (Prod.ext (Prod.mk.inj h).2 (Prod.mk.inj h).1)

/-! ## The decorrelators -/

theorem decorrelator_xor128step :
    Decorrelator PolyJump.xor128step PolyJump.xor128pWord 0 (2 ^ 128 - 1) (2 ^ 96) where
  card := by rw [PolyJump.card_state128]; norm_num
  card_eq := by norm_num
  coprime := by decide
  period _ hs := PolyJump.minimalPeriod_xor128step hs
  ne _ hs n :=
    Gf2.iterate_ne_zero PolyJump.xorLinear_xor128step hs (by norm_num) (PolyJump.minimalPeriod_xor128step hs) n
  word_eq_zero := by decide
  fiber := PolyJump.card_xor128pWords

theorem stepForward_injective : Injective Xorshift128.stepForward :=
  LeftInverse.injective Xorshift128.stepBackward_stepForward

theorem decorrelator_stepForward :
    Decorrelator Xorshift128.stepForward (fun s => (Xorshift128.stepForward s).w) 0 (2 ^ 128 - 1) (2 ^ 96) where
  card := by rw [Xorshift128.card_state]; norm_num
  card_eq := by norm_num
  coprime := by decide
  period _ hs := Xorshift128.minimalPeriod_stepForward hs
  ne _ hs n := Xorshift128.iterate_stepForward_ne_zero hs n
  word_eq_zero := by decide
  fiber v := by
    have hfiber := Counting.card_fiber (f := fun s : Xorshift128.State => (s.x, s.y, s.z)) (g := fun s => s.w)
      (fun s s' h => by cases s; cases s'; simp_all)
      (by rw [Xorshift128.card_state, Fintype.card_prod, Fintype.card_prod, card_rng32]; norm_num) v
    rw [Counting.card_filter_comp stepForward_injective fun s => s.w = v, hfiber, Fintype.card_prod, Fintype.card_prod,
      card_rng32]
    norm_num

/-! ## The tables -/

section
variable {CO_NUM : ℕ} {inits : List (Fin CO_NUM)} {k : Fin CO_NUM}

theorem xor32SAfter_ne_zero (hk : k ∈ inits) : xor32SAfter inits k ≠ 0 := by
  have hrow : 4096 / CO_NUM * k < 4096 := by
    rcases Nat.eq_zero_or_pos (4096 / CO_NUM) with h | h
    · rw [h, Nat.zero_mul]
      norm_num
    · exact (Nat.mul_lt_mul_of_pos_left k.isLt h).trans_le (Nat.div_mul_le_self 4096 CO_NUM)
  have hseed : xor32SAfter inits k = tmpXor32S.getD (4096 / CO_NUM * k) 0 := Writes.foldl_update hk _
  rw [hseed]
  exact seedTable_disjoint.1 _ hrow

theorem xor128pSAfter_ne_zero (hk : k ∈ inits) : xor128pSAfter inits k ≠ 0 := by
  have hinit := PolyJump.xor128pSInit_self k fun _ => 0
  have hseed : xor128pSAfter inits k = PolyJump.xor128pSInit k (fun _ => 0) k :=
    (Writes.foldl_update hk _).trans (by rw [PolyJump.xor128pSInit, update_self])
  rw [hseed, hinit]
  exact decorrelator_xor128step.ne _ (by decide) _

end

/-! ## `mxor32lcgs` -/

section
variable {CO_NUM : ℕ} (hCO : 0 < CO_NUM) (last : Fin CO_NUM → RngState) (seed : Fin CO_NUM → Rng32)

/-- It leaves behind what `mxor32pcg` does. -/
theorem mxor32lcgs_snd (g : Machine CO_NUM Rng32) : (mxor32lcgs hCO g).2 = (call mxor32pcg hCO g).2 := rfl

theorem lcgsWord_eq (n : ℕ) (k : Fin CO_NUM) (hwrap : n * CO_NUM + k < 2 ^ 64 ∨ CO_NUM ∣ 2 ^ 64) :
    lcgsWord hCO (.start last seed) (n * CO_NUM + k) =
      ((Mpcg.multiStreamSeeked (root (rootIndex n k)) (BitVec.ofNat 32 (54 + k * 2 + 1))) >>> 32).setWidth 32 ^^^
        xorshiftjump (xorshiftjump^[n] (seed k)) := by
  have hat : At mxor32pcg seed n k (after mxor32pcg hCO (.start last seed) (n * CO_NUM + k)) :=
    at_after hCO last n k k.isLt.le (hwrap.imp_left le_of_lt)
  have hmod := counter_mod hat k.isLt hwrap
  have hdrawn : drawn n k k = n := by simp [drawn]
  have hstep : (fun d => (mxor32pcg.jump d).2) = xorshiftjump := rfl
  simp only [lcgsWord, mxor32lcgs_snd]
  rw [← after, mxor32lcgs]
  simp only [hmod, Fin.eta]
  rw [hat.state, hat.jump_s, hdrawn, hstep]

theorem even_mxor32lcgs (hdvd : CO_NUM ∣ 2 ^ 64) {k : Fin CO_NUM} (hseed : seed k ≠ 0) :
    Even (2 ^ 32 - 1) fun n => lcgsWord hCO (.start last seed) (n * CO_NUM + k) := by
  intro j w
  have heven := decorrelator_xorshiftjump.even (card_seeked upper_injective (BitVec.ofNat 32 (54 + k * 2 + 1))) w
    (root (rootIndex 1 k)) (xorshiftjump_ne_zero hseed 1) j
  refine Eq.trans (congrArg Finset.card ?_) heven
  refine filter_congr fun n _ => ?_
  have hword := lcgsWord_eq hCO last seed (n + 1) k (.inr hdvd)
  rw [root_rootIndex, BitVec.xor_comm] at hword
  exact hword ▸ Iff.rfl

end

/-! ## All of them -/

/-- **The reference generators are even**: when `CO_NUM` is a power of two (so that the wrapping counter keeps in step)
    and the tables have been initialised, every stream of every reference generator has all words equally often in any
    joint period of its root and its decorrelator. -/
theorem words_even {CO_NUM : ℕ} (hCO : 0 < CO_NUM) (hdvd : CO_NUM ∣ 2 ^ 64) (last : Fin CO_NUM → RngState)
    (mapping : ℕ → BitVec 32) (k : Fin CO_NUM) :
    (∀ inits, k ∈ inits →
      (∀ m ∈ [mxor32pcg, mxor32pcgRs],
        Even (2 ^ 32 - 1) fun n => word m hCO (.start last (xor32SAfter inits)) (n * CO_NUM + k)) ∧
      Even (2 ^ 32 - 1) fun n => lcgsWord hCO (.start last (xor32SAfter inits)) (n * CO_NUM + k)) ∧
    (∀ inits, k ∈ inits → 2 * CO_NUM ≤ 2 ^ 31 →
      Even (2 ^ 128 - 1) fun n => word mxor128pPcgRr hCO (.start last (xor128pSAfter inits)) (n * CO_NUM + k)) ∧
    ∀ calls, k ∈ calls.map Prod.fst → 3 * CO_NUM ≤ 2 ^ 31 →
      ∀ m ∈ [mxor128PcgRr mapping, mxor128PcgRs mapping, mxor128PcgRrNoMulti],
        Even (2 ^ 128 - 1) fun n =>
          word m hCO (.start last (Xorshift128.globalsAfter calls).xor128_s) (n * CO_NUM + k) := by
  refine ⟨fun inits hk => ⟨?_, even_mxor32lcgs hCO last _ hdvd (xor32SAfter_ne_zero hk)⟩, fun inits hk _ => ?_,
    fun calls hk _ => ?_⟩
  · simp only [List.forall_mem_cons, List.not_mem_nil, false_implies, implies_true, and_true]
    exact ⟨Member.even decorrelator_xorshiftjump hCO hdvd last (card_seeked outputFunction_rest_injective _)
        (xor32SAfter_ne_zero hk),
      Member.even decorrelator_xorshiftjump hCO hdvd last (card_seeked pcgOutputXshRs6432_rest_injective _)
        (xor32SAfter_ne_zero hk)⟩
  · exact Member.even decorrelator_xor128step hCO hdvd last (card_output_add outputFunction_rest_injective _)
      (xor128pSAfter_ne_zero hk)
  · have hseed := (Xorshift128.fullPeriod.2.2.2 CO_NUM calls k hk).1
    simp only [List.forall_mem_cons, List.not_mem_nil, false_implies, implies_true, and_true]
    refine ⟨Member.even decorrelator_stepForward hCO hdvd last (card_seeked outputFunction_rest_injective _) hseed,
      Member.even decorrelator_stepForward hCO hdvd last (card_seeked pcgOutputXshRs6432_rest_injective _) hseed,
      Member.even decorrelator_stepForward hCO hdvd last (fun w => ?_) hseed⟩
    have h := card_output_add outputFunction_rest_injective 0 w
    simp only [add_zero] at h
    exact h

/-- The last of four streams. -/
theorem words_even_four :
    Even (2 ^ 32 - 1) (fun n => word mxor32pcgRs four_pos (.start (fun _ => 0) (xor32SAfter (List.finRange 4)))
      (n * 4 + ((3 : Fin 4) : ℕ))) ∧
    Even (2 ^ 128 - 1) (fun n => word mxor128pPcgRr four_pos (.start (fun _ => 0) (xor128pSAfter (List.finRange 4)))
      (n * 4 + ((3 : Fin 4) : ℕ))) ∧
    Even (2 ^ 128 - 1) fun n => word mxor128PcgRrNoMulti four_pos
      (.start (fun _ => 0) (Xorshift128.globalsAfter [((3 : Fin 4), fun _ => Xorshift128.T)]).xor128_s)
      (n * 4 + ((3 : Fin 4) : ℕ)) := by
  obtain ⟨h32, h128p, h128⟩ := words_even four_pos (by decide : 4 ∣ 2 ^ 64) (fun _ => 0) (fun _ => 0) 3
  exact ⟨(h32 (List.finRange 4) (by decide)).1 _ (by simp), h128p (List.finRange 4) (by decide) (by decide),
    h128 [(3, fun _ => Xorshift128.T)] (by simp) (by decide) _ (by simp)⟩

end ThundeRiNG.RoundRobin
