import ThundeRiNG.Lib.Kahn
import ThundeRiNG.Rng.StateSharing

/-!
# The root state generator unit: nine leapfrogging lanes and a merge (`fpga/rng/src/rsgu/`)

A lane steps nine root states at a time from its own start state, so that a multiplication may take nine cycles;
the merge interleaves the lanes back into the root sequence.

| here | there |
| --- | --- |
| `ssrngStateUpdate`  | `ssrng_state_update_0.cpp:14-26` … `ssrng_state_update_8.cpp:14-26`, one text up to `INIT_STATE_i` |
| `ssrngStateMerge`   | `ssrng_state_merge.cpp:12-47` |
| `consumer`          | whatever reads `out` (`gen_link.c:75` connects the first `rng_instance`) |
| `Chan`              | the AXI links `ssrng_state_update_i.output` → `in_i` (`gen_link.c:4-12`), and `out` |

A token is the `data` field of its packet, the only one these kernels read or set. Links may have any depth.
-/

namespace ThundeRiNG.Rsgu

open Kahn

inductive Chan where
  | input (i : Fin 9)
  | out
deriving DecidableEq, Repr

inductive Proc where
  | ssrngStateUpdate (i : Fin 9)
  | ssrngStateMerge
  | consumer
deriving DecidableEq, Repr

abbrev Token (_ : Chan) : Type := RngState

/-- The `static` a kernel keeps from pass to pass. -/
abbrev Static : Proc → Type
  | .ssrngStateUpdate _ => RngState
  | .ssrngStateMerge => Unit
  | .consumer => Unit

/-- One pass of the loop of `ssrng_state_update_i`. -/
def ssrngStateUpdate (output : RngState → Prog Token Unit) (state : RngState) : Prog Token RngState := do
  let oldstate := state
  let state := oldstate * RNG_A_SEEKED + RNG_INC_SEEKED
  output oldstate
  return state

def ssrngStateMerge (input : Fin 9 → Prog Token RngState) (out : RngState → Prog Token Unit) : Prog Token Unit := do
  let v0 ← input 0
  let v1 ← input 1
  let v2 ← input 2
  let v3 ← input 3
  let v4 ← input 4
  let v5 ← input 5
  let v6 ← input 6
  let v7 ← input 7
  let v8 ← input 8
  [v0, v1, v2, v3, v4, v5, v6, v7, v8].forM out

def network (depth : Chan → ℕ) : Network Token Proc where
  S := Static
  init
    | .ssrngStateUpdate i => INIT_STATE i
    | .ssrngStateMerge => ()
    | .consumer => ()
  body
    | .ssrngStateUpdate i => ssrngStateUpdate (Prog.put (V := Token) (Chan.input i))
    | .ssrngStateMerge => fun _ =>
      ssrngStateMerge (fun i => Prog.get (V := Token) (Chan.input i)) (Prog.put (V := Token) Chan.out)
    | .consumer => fun _ => do let _ ← Prog.get Chan.out
  depth := depth
  reader
    | .input _ => .ssrngStateMerge
    | .out => .consumer
  writer
    | .input i => .ssrngStateUpdate i
    | .out => .ssrngStateMerge

/-! ## Nine steps at once -/

theorem seeked_eq_iterate (s : RngState) : s * RNG_A_SEEKED + RNG_INC_SEEKED = rootState s 9 := by
  have ha : RNG_A ^ 9 = RNG_A_SEEKED := by decide
  have hc : (∑ i ∈ Finset.range 9, RNG_A ^ i) * RNG_INC = RNG_INC_SEEKED := by decide
  rw [rootState, stateTransitionFunciton_eq, Affine.iterate_step, ha, hc, mul_comm]

/-- The start states are the first nine root states. -/
theorem init_state_eq (i : Fin 9) : INIT_STATE i = rootState (INIT_STATE 0) i := by
  revert i; decide

/-! ## The streams -/

def stream : (c : Chan) → ℕ → RngState
  | .input i, n => rootState (INIT_STATE 0) (9 * n + i)
  | .out, n => rootState (INIT_STATE 0) n

/-- Before its pass `i`, a process has used each link once per token of a pass. -/
def Round : (p : Proc) → ℕ → Static p → Counts Chan → Prop
  | .ssrngStateUpdate l, i, s, n => s = stream (.input l) i ∧ n.wr (.input l) = i
  | .ssrngStateMerge, i, _, n => (∀ l, n.rd (.input l) = i) ∧ n.wr .out = 9 * i
  | .consumer, i, _, n => n.rd .out = i

section
variable (depth : Chan → ℕ) (orc : Proc → ℕ → Bool)

@[simp] theorem reader_input (l : Fin 9) : (network depth).reader (.input l) = .ssrngStateMerge := rfl
@[simp] theorem reader_out : (network depth).reader .out = .consumer := rfl
@[simp] theorem writer_input (l : Fin 9) : (network depth).writer (.input l) = .ssrngStateUpdate l := rfl
@[simp] theorem writer_out : (network depth).writer .out = .ssrngStateMerge := rfl

theorem conf_ssrngStateUpdate (l : Fin 9) {i : ℕ} {s : RngState} {n : Counts Chan}
    (h : Round (.ssrngStateUpdate l) i s n) :
    Conf (network depth) stream orc .free (.ssrngStateUpdate l)
      (ssrngStateUpdate (Prog.put (V := Token) (Chan.input l)) s) n (Round (.ssrngStateUpdate l) (i + 1)) := by
  obtain ⟨rfl, hn⟩ := h
  have hnext : stream (.input l) i * RNG_A_SEEKED + RNG_INC_SEEKED = stream (.input l) (i + 1) := by
    rw [seeked_eq_iterate, stream, ← rootState_add]
    congr 1; ring
  rw [ssrngStateUpdate, conf_bind, conf_put]
  refine ⟨rfl, trivial, by rw [hn], ?_⟩
  rw [conf_pure]
  exact ⟨hnext, by simp [hn]⟩

theorem conf_ssrngStateMerge {i : ℕ} {n : Counts Chan} (h : Round .ssrngStateMerge i () n) :
    Conf (network depth) stream orc .free .ssrngStateMerge
      (ssrngStateMerge (fun l => Prog.get (V := Token) (Chan.input l)) (Prog.put (V := Token) Chan.out)) n
      (Round .ssrngStateMerge (i + 1)) := by
  obtain ⟨hrd, hwr⟩ := h
  simp only [ssrngStateMerge, List.forM_eq_forM, List.forM_cons, List.forM_nil, conf_bind, conf_get, conf_put,
    conf_pure]
  have hall : ∀ l : Fin 9, ¬l = 8 → ¬l = 7 → ¬l = 6 → ¬l = 5 → ¬l = 4 → ¬l = 3 → ¬l = 2 → ¬l = 1 → l = 0 := by
    intro l; omega
  have hnine : 9 * i + 1 + 1 + 1 + 1 + 1 + 1 + 1 + 1 + 1 = 9 * (i + 1) := by omega
  simpa [Guard.free, hrd, hwr, Round, stream] using ⟨hall, hnine⟩

theorem conf_body (p : Proc) {i : ℕ} {s : Static p} {n : Counts Chan} (h : Round p i s n) :
    Conf (network depth) stream orc .free p ((network depth).body p s) n (Round p (i + 1)) := by
  cases p with
  | ssrngStateUpdate l => exact conf_ssrngStateUpdate depth orc l h
  | ssrngStateMerge => exact conf_ssrngStateMerge depth orc h
  | consumer =>
    have hend : Round .consumer (i + 1) () (n.addRd .out) := by simpa [Round] using h
    exact conf_bind.2 ⟨rfl, trivial, hend⟩

end

/-- **Leapfrogging refines the sequential LCG**: in every run, for links of any depth, what has been written to `out`
    is exactly the first so many root states, in order. -/
theorem leapfrog (depth : Chan → ℕ) (sched : List Proc) :
    ((network depth).run sched).hist .out =
      (List.range (((network depth).run sched).hist .out).length).map (rootState (INIT_STATE 0)) := by
  refine hist_eq (N := network depth) (R := Round) (fun p => ?_) sched (fun p _ _ _ h => conf_body depth _ p h) .out
  cases p with
  | ssrngStateUpdate l => exact ⟨(init_state_eq l).trans (by simp [stream]), rfl⟩
  | ssrngStateMerge => exact ⟨fun _ => rfl, rfl⟩
  | consumer => exact rfl

end ThundeRiNG.Rsgu
