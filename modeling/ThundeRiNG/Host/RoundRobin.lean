import ThundeRiNG.Host.PolyJump
import ThundeRiNG.Host.Seeds
import ThundeRiNG.Rng.StateSharing
import ThundeRiNG.Rng.Xor32s

/-!
# The host's reference generators (`test/rngs/xorshift32.h`, `xorshift128p.h`, `xorshift128.h`)

Each call serves one of `CO_NUM` streams, in turn. A word is output from the state the stream was given one round
earlier, xored with the stream's own decorrelator; the shared root state makes one step per round. The four
functions are one text up to three expressions (`Member`).

The root is copied before the call for stream 0 steps it, so in one round stream 0 is derived from the root before
the step and all others from the root after it (`rootIndex`).

| here | there |
| --- | --- |
| `call`                            | the body of `mxor32pcg` (`xorshift32.h:38-58`) and its siblings |
| `mxor32pcg`, `mxor32pcgRs`        | `xorshift32.h:38-81` |
| `mxor128pPcgRr`                   | `xorshift128p.h:53-73` |
| `mxor128PcgRr`                    | `xorshift128.h:390-411` |
| `xor32SInit`                      | `xorshift32.h:31-36` |
| `Machine`                         | the two `static`s of the function, and the two global arrays |

`CO_NUM` is a constant of the build, and streams are numbered by an `int`.
-/

namespace ThundeRiNG.RoundRobin

open Function

/-- What the siblings differ in: the call of `multi_stream…`, the output function, the decorrelator's step. -/
structure Member (D : Type) where
  multi : RngState → ℕ → RngState
  output : RngState → Rng32
  jump : D → Rng32 × D

structure Machine (CO_NUM : ℕ) (D : Type) where
  counter : BitVec 64
  state : RngState
  mxorpcg_last_s : Fin CO_NUM → RngState
  jump_s : Fin CO_NUM → D

section
variable {CO_NUM : ℕ} {D : Type}

def call (m : Member D) (hCO : 0 < CO_NUM) (g : Machine CO_NUM D) : Rng32 × Machine CO_NUM D :=
  let oldstate := g.state
  let current_rng : Fin CO_NUM := ⟨g.counter.toNat % CO_NUM, Nat.mod_lt _ hCO⟩
  let state := if (current_rng : ℕ) = 0 then stateTransitionFunciton g.state else g.state
  let tmp := oldstate
  let tmp_update := m.multi tmp current_rng
  let rng := m.output (g.mxorpcg_last_s current_rng)
  let a := m.jump (g.jump_s current_rng)
  (rng ^^^ a.1,
    { counter := g.counter + 1
      state := state
      mxorpcg_last_s := update g.mxorpcg_last_s current_rng tmp_update
      jump_s := update g.jump_s current_rng a.2 })

/-- Before the first call. `mxorpcg_last_s` is shared by the family, so what it holds is left open. -/
def Machine.start (mxorpcg_last_s : Fin CO_NUM → RngState) (jump_s : Fin CO_NUM → D) : Machine CO_NUM D :=
  ⟨0, Mpcg.RNG_INIT_STATE, mxorpcg_last_s, jump_s⟩

/-- After `c` calls, and the word that call number `c` returns (calls from 0). -/
def after (m : Member D) (hCO : 0 < CO_NUM) (g : Machine CO_NUM D) (c : ℕ) : Machine CO_NUM D :=
  (fun g => (call m hCO g).2)^[c] g

def word (m : Member D) (hCO : 0 < CO_NUM) (g : Machine CO_NUM D) (c : ℕ) : Rng32 :=
  (call m hCO (after m hCO g c)).1

end

/-! ## The members -/

def mxor32pcg : Member Rng32 where
  multi tmp current_rng := Mpcg.multiStreamSeeked tmp (BitVec.ofNat 32 (54 + current_rng * 2 + 1))
  output := outputFunction
  jump s := (xorshiftjump s, xorshiftjump s)

def mxor32pcgRs : Member Rng32 where
  multi tmp current_rng := Mpcg.multiStreamSeeked tmp (BitVec.ofNat 32 (54 + current_rng * 2 + 1))
  output := pcgOutputXshRs6432
  jump s := (xorshiftjump s, xorshiftjump s)

def mxor128pPcgRr : Member PolyJump.State128 where
  multi tmp current_rng := Mpcg.multiStream tmp (BitVec.ofNat 32 (54 + current_rng))
  output := outputFunction
  jump s := (((PolyJump.xor128next s).1 >>> 32).setWidth 32, (PolyJump.xor128next s).2)

/-- `mapping` is filled by `main` (`rng_test.cpp:34-37`). -/
def mxor128PcgRr (mapping : ℕ → BitVec 32) : Member Xorshift128.State where
  multi tmp current_rng := Mpcg.multiStreamSeeked tmp (54 + mapping current_rng)
  output := outputFunction
  jump s := ((Xorshift128.stepForward s).w, Xorshift128.stepForward s)

def xor32SInit {CO_NUM : ℕ} (index : Fin CO_NUM) (xor32_s : Fin CO_NUM → Rng32) : Fin CO_NUM → Rng32 :=
  let index_jump := 4096 / CO_NUM
  update xor32_s index (tmpXor32S.getD (index_jump * index) 0)

/-- The array after calls of `xor32_s_init` for the given indices, in that order. -/
def xor32SAfter {CO_NUM : ℕ} (inits : List (Fin CO_NUM)) : Fin CO_NUM → Rng32 :=
  inits.foldl (fun xor32_s index => xor32SInit index xor32_s) fun _ => 0

/-! ## Rounds -/

/-- The root states of the host. -/
def root (n : ℕ) : RngState := rootState Mpcg.RNG_INIT_STATE n

/-- The index of the root that stream `k` reads in round `n`. -/
def rootIndex (n k : ℕ) : ℕ := if k = 0 then n else n + 1

/-- How many words stream `j` has had when `k` streams of round `n` are served. -/
def drawn (n k j : ℕ) : ℕ := if j < k then n + 1 else n

section
variable {CO_NUM : ℕ} {D : Type} (m : Member D) (seed : Fin CO_NUM → D)

/-- **Invariant** when `k` streams of round `n` are served. -/
structure At (n k : ℕ) (g : Machine CO_NUM D) : Prop where
  counter : g.counter = BitVec.ofNat 64 (n * CO_NUM + k)
  state : g.state = root (rootIndex n k)
  jump_s : ∀ j : Fin CO_NUM, g.jump_s j = (fun d => (m.jump d).2)^[drawn n k j] (seed j)
  last : ∀ (j : Fin CO_NUM) (i : ℕ), drawn n k j = i + 1 → g.mxorpcg_last_s j = m.multi (root (rootIndex i j)) j

variable {m seed}

theorem at_start (last : Fin CO_NUM → RngState) : At m seed 0 0 (.start last seed) where
  counter := by rw [Nat.zero_mul]; rfl
  state := rfl
  jump_s _ := rfl
  last j i h := by simp [drawn] at h

/-- The counter finds the stream, unless it has wrapped at a `CO_NUM` that does not divide `2^64`. -/
theorem counter_mod {n k : ℕ} {g : Machine CO_NUM D} (h : At m seed n k g) (hk : k < CO_NUM)
    (hwrap : n * CO_NUM + k < 2 ^ 64 ∨ CO_NUM ∣ 2 ^ 64) : g.counter.toNat % CO_NUM = k := by
  have hmod : (n * CO_NUM + k) % CO_NUM = k := by
    rw [Nat.mul_comm, Nat.mul_add_mod, Nat.mod_eq_of_lt hk]
  rw [h.counter, BitVec.toNat_ofNat]
  rcases hwrap with hlt | hdvd
  · rw [Nat.mod_eq_of_lt hlt, hmod]
  · rw [Nat.mod_mod_of_dvd _ hdvd, hmod]

/-- **Step**: one call serves the next stream of the round. -/
theorem at_call (hCO : 0 < CO_NUM) {n k : ℕ} {g : Machine CO_NUM D} (h : At m seed n k g) (hk : k < CO_NUM)
    (hwrap : n * CO_NUM + k < 2 ^ 64 ∨ CO_NUM ∣ 2 ^ 64) : At m seed n (k + 1) (call m hCO g).2 := by
  have hcur : (⟨g.counter.toNat % CO_NUM, Nat.mod_lt _ hCO⟩ : Fin CO_NUM) = ⟨k, hk⟩ :=
    Fin.ext (counter_mod h hk hwrap)
  have hself : drawn n (k + 1) k = drawn n k k + 1 := by simp [drawn]
  have hother : ∀ j : Fin CO_NUM, j ≠ ⟨k, hk⟩ → drawn n (k + 1) j = drawn n k j := by
    intro j hj
    have hne : (j : ℕ) ≠ k := fun he => hj (Fin.ext he)
    simp only [drawn]
    congr 1
    rw [eq_iff_iff]; omega
  unfold call
  rw [hcur]
  constructor
  · simp only [h.counter]
    exact (BitVec.ofNat_add (n * CO_NUM + k) 1).symm
  · by_cases hk0 : k = 0
    · simp only [h.state, rootIndex, hk0]
      exact (rootState_succ _ n).symm
    · simp [h.state, rootIndex, hk0]
  · intro j
    by_cases hj : j = ⟨k, hk⟩
    · subst hj
      simp only [update_self]
      rw [hself, iterate_succ_apply', h.jump_s]
    · simp only [update_of_ne hj]
      rw [hother j hj, h.jump_s]
  · intro j i hi
    by_cases hj : j = ⟨k, hk⟩
    · subst hj
      have hin : i = n := by simp [drawn] at hi; omega
      simp only [update_self]
      rw [h.state, hin]
    · simp only [update_of_ne hj]
      rw [hother j hj] at hi
      exact h.last j i hi

/-- After the last stream of a round comes the first of the next. -/
theorem at_round (hCO : 0 < CO_NUM) {n : ℕ} {g : Machine CO_NUM D} (h : At m seed n CO_NUM g) :
    At m seed (n + 1) 0 g := by
  have hdrawn : ∀ j : Fin CO_NUM, drawn (n + 1) 0 j = drawn n CO_NUM j := by
    intro j
    simp [drawn]
  constructor
  · rw [h.counter]; congr 1; ring
  · rw [h.state, rootIndex, rootIndex, if_neg hCO.ne', if_pos rfl]
  · intro j
    rw [hdrawn j, h.jump_s]
  · intro j i hi
    exact h.last j i (hdrawn j ▸ hi)

/-- Within a round. -/
theorem at_after_round (hCO : 0 < CO_NUM) {g : Machine CO_NUM D} {n c : ℕ} (h : At m seed n 0 (after m hCO g c)) :
    ∀ k ≤ CO_NUM, n * CO_NUM + k ≤ 2 ^ 64 ∨ CO_NUM ∣ 2 ^ 64 → At m seed n k (after m hCO g (c + k))
  | 0, _, _ => h
  | k + 1, hk, hwrap => by
    have hprev := at_after_round hCO h k (by omega) (by omega)
    have hnext := at_call hCO hprev (by omega) (by omega)
    rwa [after, ← iterate_succ_apply' (fun g => (call m hCO g).2)] at hnext

/-- **Run**: the invariant after any number of calls. -/
theorem at_after (hCO : 0 < CO_NUM) (last : Fin CO_NUM → RngState) (n : ℕ) (k : ℕ) (hk : k ≤ CO_NUM)
    (hwrap : n * CO_NUM + k ≤ 2 ^ 64 ∨ CO_NUM ∣ 2 ^ 64) :
    At m seed n k (after m hCO (.start last seed) (n * CO_NUM + k)) := by
  refine at_after_round hCO ?_ k hk hwrap
  induction n with
  | zero => rw [Nat.zero_mul]; exact at_start last
  | succ n ih =>
    have hsum : (n + 1) * CO_NUM = n * CO_NUM + CO_NUM := by ring
    have hn := ih (by omega)
    rw [hsum] at hwrap ⊢
    exact at_round hCO (at_after_round hCO hn CO_NUM le_rfl (by omega))

/-- **Words**: in round `n + 1`, stream `k` outputs from what round `n` left, and steps its decorrelator. -/
theorem word_eq (hCO : 0 < CO_NUM) (last : Fin CO_NUM → RngState) (n : ℕ) (k : Fin CO_NUM)
    (hwrap : (n + 1) * CO_NUM + k < 2 ^ 64 ∨ CO_NUM ∣ 2 ^ 64) :
    word m hCO (.start last seed) ((n + 1) * CO_NUM + k) =
      m.output (m.multi (root (rootIndex n k)) k) ^^^
        (m.jump ((fun d => (m.jump d).2)^[n + 1] (seed k))).1 := by
  have hat : At m seed (n + 1) k (after m hCO (.start last seed) ((n + 1) * CO_NUM + k)) :=
    at_after hCO last (n + 1) k k.isLt.le (hwrap.imp_left le_of_lt)
  have hcur : ∀ h, (⟨_, h⟩ : Fin CO_NUM) = k := fun _ => Fin.ext (counter_mod hat k.isLt hwrap)
  have hdrawn : drawn (n + 1) k k = n + 1 := by simp [drawn]
  simp only [word, call, hcur]
  rw [hat.last k n hdrawn, hat.jump_s, hdrawn]

end

/-! ## One root state per round? -/

/-- What stream `k` of `mxor32pcg` outputs from root state `i`. -/
def streamOutput (i k : ℕ) : Rng32 :=
  outputFunction (Mpcg.multiStreamSeeked (root i) (BitVec.ofNat 32 (54 + 2 * k + 1)))

/-- Word `n` of stream `k`, were the root state a matter of the round only. -/
def sharedRootWord (n k : ℕ) (seed : Rng32) : Rng32 := streamOutput (n - 1) k ^^^ xorshiftjump^[n + 1] seed

section
variable {CO_NUM : ℕ} (hCO : 0 < CO_NUM) (last : Fin CO_NUM → RngState) (seed : Fin CO_NUM → Rng32)

/-- The words that `mxor32pcg` does return. -/
theorem word_mxor32pcg (n : ℕ) (k : Fin CO_NUM) (hwrap : (n + 1) * CO_NUM + k < 2 ^ 64 ∨ CO_NUM ∣ 2 ^ 64) :
    word mxor32pcg hCO (.start last seed) ((n + 1) * CO_NUM + k) =
      streamOutput (rootIndex n k) k ^^^ xorshiftjump^[n + 1 + 1] (seed k) := by
  rw [word_eq hCO last n k hwrap, iterate_succ_apply' xorshiftjump, streamOutput, Nat.mul_comm 2]; rfl

theorem word_eq_sharedRootWord_iff (n : ℕ) (k : Fin CO_NUM)
    (hwrap : (n + 1) * CO_NUM + k < 2 ^ 64 ∨ CO_NUM ∣ 2 ^ 64) :
    word mxor32pcg hCO (.start last seed) ((n + 1) * CO_NUM + k) = sharedRootWord (n + 1) k (seed k) ↔
      (k : ℕ) = 0 ∨ streamOutput (n + 1) k = streamOutput n k := by
  have hcancel : ∀ x y z : Rng32, x ^^^ z = y ^^^ z ↔ x = y := by
    intro x y z
    exact BitVec.xor_left_inj z
  rw [word_mxor32pcg hCO last seed n k hwrap, sharedRootWord, hcancel, rootIndex, Nat.add_sub_cancel]
  by_cases hk : (k : ℕ) = 0
  · simp [hk]
  · simp [hk]

end

/-- **Which words share the root**: in a run of `mxor32pcg` every stream of every round is derived from the root
    state of the round exactly if there is one stream. With more, it holds of the words of stream 0, and of those
    for which the next root state gives the same output. -/
theorem sharedRoot_iff (CO_NUM : ℕ) (hCO : 0 < CO_NUM) (hint : CO_NUM < 2 ^ 31) (inits : List (Fin CO_NUM))
    (last : Fin CO_NUM → RngState) :
    ((∀ (k : Fin CO_NUM) (n : ℕ), 1 ≤ n →
        word mxor32pcg hCO (.start last (xor32SAfter inits)) (n * CO_NUM + k) =
          sharedRootWord n k (xor32SAfter inits k)) ↔ CO_NUM = 1) ∧
    (∀ (k : Fin CO_NUM) (n : ℕ), 1 ≤ n → n * CO_NUM + k < 2 ^ 64 ∨ CO_NUM ∣ 2 ^ 64 →
      (word mxor32pcg hCO (.start last (xor32SAfter inits)) (n * CO_NUM + k) =
          sharedRootWord n k (xor32SAfter inits k) ↔
        (k : ℕ) = 0 ∨ streamOutput n k = streamOutput (n - 1) k)) := by
  have hword : ∀ (k : Fin CO_NUM) (n : ℕ), 1 ≤ n → n * CO_NUM + k < 2 ^ 64 ∨ CO_NUM ∣ 2 ^ 64 →
      (word mxor32pcg hCO (.start last (xor32SAfter inits)) (n * CO_NUM + k) =
          sharedRootWord n k (xor32SAfter inits k) ↔
        (k : ℕ) = 0 ∨ streamOutput n k = streamOutput (n - 1) k) := by
    intro k n hn hwrap
    obtain ⟨n, rfl⟩ := Nat.exists_eq_add_of_le' hn
    exact word_eq_sharedRootWord_iff hCO last (xor32SAfter inits) n k hwrap
  refine ⟨⟨?_, ?_⟩, hword⟩
  · -- stream 1 already goes wrong in round 1, at fixed root states
    intro h
    by_contra hne
    have hout : streamOutput 1 1 ≠ streamOutput 0 1 := by decide
    rcases (hword ⟨1, by omega⟩ 1 le_rfl (.inl (by simp only; omega))).1 (h _ 1 le_rfl) with h1 | h1
    · exact absurd h1 one_ne_zero
    · exact hout h1
  · rintro rfl k n hn
    exact (hword k n hn (.inr (one_dvd _))).2 (.inl (by omega))

/-- Stream 1 of two, in round 2: the next root state gives another output. -/
theorem sharedRoot_iff_two :
    word mxor32pcg Nat.two_pos (.start (fun _ => 0) (xor32SAfter [(0 : Fin 2), 1])) (2 * 2 + (1 : Fin 2)) ≠
      sharedRootWord 2 1 (xor32SAfter [(0 : Fin 2), 1] 1) := by
  intro h
  have hiff := (sharedRoot_iff 2 Nat.two_pos (by decide) [0, 1] fun _ => 0).2 1 2 (by decide) (.inl (by decide))
  exact absurd (hiff.1 h) (by decide)

/-- The first word that goes wrong: stream 1 of two, in round 1. -/
theorem not_sharedRoot :
    word mxor32pcg Nat.two_pos (.start (fun _ => 0) (xor32SAfter [(0 : Fin 2), 1])) (1 * 2 + (1 : Fin 2)) ≠
      sharedRootWord 1 1 (xor32SAfter [(0 : Fin 2), 1] 1) := by
  decide +kernel

end ThundeRiNG.RoundRobin
