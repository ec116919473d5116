import ThundeRiNG.Host.JumpAhead

/-!
# The seeds the program loads (`xorshift128.h:362-386`)

`xor128_s_init(index)` builds the matrix of `2^32` steps on its first call, applies it `3 * index` times to the
fixed seed of `init`, and stores the result in `xor128_s[index]`. `index` is an `int`, so the loop is read for
indices whose triple is an `int`; there it counts like a natural number.

| here | there |
| --- | --- |
| `Globals`     | `xor128_s`, `T_k`, `xor128_s_T_init_flag`, and the statics of `prepare_transition` |
| `xor128SInit` | `xor128_s_init` |
-/

namespace ThundeRiNG.Xorshift128

open Function

structure Globals (CO_NUM : ℕ) where
  xor128_s : Fin CO_NUM → State
  T_k : Tr
  xor128_s_T_init_flag : Bool
  statics : Statics

section
variable {CO_NUM : ℕ}

def Globals.zero : Globals CO_NUM := ⟨fun _ => 0, Statics.zero.invT, false, .zero⟩

def xor128SInit (junk : ℕ → Tr) (index : Fin CO_NUM) (g : Globals CO_NUM) : Globals CO_NUM :=
  let g :=
    if g.xor128_s_T_init_flag = false then
      let p := prepareTransition g.T_k ((1 : BitVec 64) <<< 32) .FWD junk g.statics
      { g with T_k := p.1, xor128_s_T_init_flag := true, statics := p.2 }
    else g
  let s_1 := (List.range (index * 3)).foldl (fun s _ => doTransition s g.T_k) init
  { g with xor128_s := Function.update g.xor128_s index s_1 }

/-- The globals after calls for the given indices, in that order. -/
def globalsAfter (calls : List (Fin CO_NUM × (ℕ → Tr))) : Globals CO_NUM :=
  calls.foldl (fun g c => xor128SInit c.2 c.1 g) .zero

/-- The seed of one index: `3 * index` jumps of `2^32` steps. -/
def seed (index : ℕ) : State := (stepForward^[2 ^ 32])^[index * 3] init

/-- Once the flag is set, `T_k` jumps `2^32` steps. -/
def Globals.Ok (g : Globals CO_NUM) : Prop := g.xor128_s_T_init_flag = true → toMat g.T_k = toMat T ^ 2 ^ 32

theorem foldl_doTransition {A : Tr} {n : ℕ} (h : toMat A = toMat T ^ n) (m : ℕ) (s : State) :
    (List.range m).foldl (fun s _ => doTransition s A) s = (stepForward^[n])^[m] s := by
  induction m with
  | zero => rfl
  | succ m ih =>
    rw [List.range_succ, List.foldl_append, ih, List.foldl_cons, List.foldl_nil, iterate_succ_apply',
      doTransition_of_toMat h]

theorem xor128SInit_spec {g : Globals CO_NUM} (h : g.Ok) (junk : ℕ → Tr) (index : Fin CO_NUM) :
    (xor128SInit junk index g).Ok ∧
      (xor128SInit junk index g).xor128_s = Function.update g.xor128_s index (seed index) := by
  have hstore : ∀ g' : Globals CO_NUM, toMat g'.T_k = toMat T ^ 2 ^ 32 →
      (List.range (index * 3)).foldl (fun s _ => doTransition s g'.T_k) init = seed index :=
    fun g' hg' => foldl_doTransition hg' _ _
  unfold xor128SInit Globals.Ok
  by_cases hf : g.xor128_s_T_init_flag = false
  · have hT := toMat_prepareTransition_fwd g.T_k ((1 : BitVec 64) <<< 32) junk g.statics
    have h32 : ((1 : BitVec 64) <<< 32).toNat = 2 ^ 32 := by decide
    rw [h32] at hT
    simp only [if_pos hf]
    exact ⟨fun _ => hT, by rw [foldl_doTransition hT]; rfl⟩
  · have hT : toMat g.T_k = toMat T ^ 2 ^ 32 := h (by simpa using hf)
    simp only [if_neg hf]
    exact ⟨fun _ => hT, by rw [hstore g hT]⟩

/-- Whatever the order of the calls, each stores the seed of its index. -/
theorem globalsAfter_spec (calls : List (Fin CO_NUM × (ℕ → Tr))) :
    (globalsAfter calls).Ok ∧
      ∀ i, (globalsAfter calls).xor128_s i = if i ∈ calls.map Prod.fst then seed i else 0 := by
  unfold globalsAfter
  induction calls using List.reverseRecOn with
  | nil => exact ⟨fun h => absurd h (by simp [Globals.zero]), fun i => rfl⟩
  | append_singleton calls c ih =>
    obtain ⟨hok, hseed⟩ := ih
    rw [List.foldl_append, List.foldl_cons, List.foldl_nil]
    obtain ⟨hok', hupd⟩ := xor128SInit_spec hok c.2 c.1
    refine ⟨hok', ?_⟩
    intro i
    rw [hupd]
    by_cases hi : i = c.1
    · subst hi; simp
    · have hmem : i ∈ (calls ++ [c]).map Prod.fst ↔ i ∈ calls.map Prod.fst := by
        rw [List.map_append, List.mem_append, List.map_singleton, List.mem_singleton]
        simp only [hi, or_false]
      rw [Function.update_of_ne hi, hseed i]
      exact if_congr hmem.symm rfl rfl

end

theorem init_ne_zero : init ≠ 0 := by decide

theorem seed_eq (index : ℕ) : seed index = stepForward^[2 ^ 32 * (index * 3)] init :=
  (congrFun (iterate_mul stepForward (2 ^ 32) (index * 3)) init).symm

/-- **Full period**: a nonzero state returns exactly at the multiples of `2^128 - 1`, only zero stays put, the
    nonzero states are one cycle, and every loaded seed is on it. -/
theorem fullPeriod :
    (∀ s : State, s ≠ 0 → ∀ k, stepForward^[k] s = s ↔ 2 ^ 128 - 1 ∣ k) ∧
    (∀ s : State, stepForward s = s ↔ s = 0) ∧
    (∀ s s' : State, s ≠ 0 → s' ≠ 0 → ∃ n < 2 ^ 128 - 1, stepForward^[n] s = s') ∧
    (∀ (CO_NUM : ℕ) (calls : List (Fin CO_NUM × (ℕ → Tr))), ∀ i ∈ calls.map Prod.fst,
      (globalsAfter calls).xor128_s i ≠ 0 ∧ ∃ n, (globalsAfter calls).xor128_s i = stepForward^[n] init) := by
  refine ⟨?_, stepForward_eq_self_iff, ?_, ?_⟩
  · intro s hs
    exact Orbit.iterate_eq_self_iff (minimalPeriod_stepForward hs)
  · intro s s' hs hs'
    exact exists_iterate_stepForward hs hs'
  · intro CO_NUM calls i hi
    rw [(globalsAfter_spec calls).2, if_pos hi, seed_eq]
    exact ⟨iterate_stepForward_ne_zero init_ne_zero _, _, rfl⟩

theorem fullPeriod_init : stepForward^[2 ^ 128 - 1] init = init :=
  (fullPeriod.1 init (by decide) _).2 dvd_rfl

/-! ## Disjoint substreams -/

theorem globalsAfter_seed {CO_NUM : ℕ} {calls : List (Fin CO_NUM × (ℕ → Tr))} {i : Fin CO_NUM}
    (hi : i ∈ calls.map Prod.fst) : (globalsAfter calls).xor128_s i = stepForward^[3 * i * 2 ^ 32] init := by
  rw [(globalsAfter_spec calls).2, if_pos hi, seed_eq, Nat.mul_comm, Nat.mul_comm (i : ℕ) 3]

/-- Positions within one period are different states. -/
theorem iterate_init_inj {m n : ℕ} (hm : m < 2 ^ 128 - 1) (hn : n < 2 ^ 128 - 1)
    (h : stepForward^[m] init = stepForward^[n] init) : m = n := by
  have hp : minimalPeriod stepForward init = 2 ^ 128 - 1 := minimalPeriod_stepForward init_ne_zero
  rw [← hp] at hm hn
  exact iterate_injOn_Iio_minimalPeriod hm hn h

/-- **Disjoint substreams**: whatever the order of the calls, index `i` starts `3 * i * 2^32` steps after the fixed
    seed, and two substreams do not meet within `3 * 2^32` outputs. -/
theorem disjointSubstreams (CO_NUM : ℕ) (calls : List (Fin CO_NUM × (ℕ → Tr))) :
    (∀ i ∈ calls.map Prod.fst, 3 * (i : ℕ) < 2 ^ 31 →
      (globalsAfter calls).xor128_s i = stepForward^[3 * i * 2 ^ 32] init) ∧
    (∀ i ∈ calls.map Prod.fst, ∀ j ∈ calls.map Prod.fst, i ≠ j → 3 * (i : ℕ) < 2 ^ 31 → 3 * (j : ℕ) < 2 ^ 31 →
      ∀ a < 3 * 2 ^ 32, ∀ b < 3 * 2 ^ 32,
        stepForward^[a] ((globalsAfter calls).xor128_s i) ≠ stepForward^[b] ((globalsAfter calls).xor128_s j)) := by
  constructor
  · intro i hi _
    exact globalsAfter_seed hi
  · intro i hi j hj hne hi31 hj31 a ha b hb h
    rw [globalsAfter_seed hi, globalsAfter_seed hj, ← iterate_add_apply, ← iterate_add_apply] at h
    have hpos := iterate_init_inj (by omega) (by omega) h
    have hidx : (i : ℕ) = j := by omega
    exact hne (Fin.ext hidx)

/-- Two indices, the later one first. -/
theorem disjointSubstreams_two :
    stepForward^[5] ((globalsAfter [((1 : Fin 2), fun _ => T), (0, fun _ => T)]).xor128_s 1) ≠
      stepForward^[7] ((globalsAfter [((1 : Fin 2), fun _ => T), (0, fun _ => T)]).xor128_s 0) :=
  (disjointSubstreams 2 _).2 1 (by simp) 0 (by simp) (by decide) (by decide) (by decide) 5 (by decide) 7 (by decide)

end ThundeRiNG.Xorshift128
