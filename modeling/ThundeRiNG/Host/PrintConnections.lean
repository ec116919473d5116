import Mathlib.Data.Finset.Sort
import ThundeRiNG.Host.LutSr
import ThundeRiNG.Lib.StraightC

/-!
# `PrintConnections` (`test/rngs/rng.hpp:45-61`)

The dump of a LUT-SR generator "in C format" is text for other programs to take in: one assignment to `ns[i]` for each
register, which selects between the load chain and the xor of the taps by `m`, one to `s_out` and one to each `ro[i]`.
Read as C and run on any memory, it leaves there what `Step` computes from the same `cs`, `m` and `s_in`, and touches
nothing else (`printConnections_step`).

`connections` is the program that the text spells. Its assignments read only `cs`, `m` and `s_in` but for the last ones,
which read `ns`; so it runs in two parts, and each part's order does not matter.
-/

namespace ThundeRiNG.LutSr

open StraightC Text

/-- `set<int>` goes through its elements in ascending order. -/
def ascending {n : ℕ} (s : Finset (Fin n)) : List (Fin n) := s.sort

section
variable {p : Params} (g : Rng p)

/-- The line of register `i`. -/
def Rng.printRegister (i : Fin p.n) : List Char :=
  (if i = g.seedTap then "ns[".toList ++ decimal i ++ "]=m?s_in:(0".toList
    else "ns[".toList ++ decimal i ++ "]=m?cs[".toList ++ decimal (g.cycle i) ++ "]:(0".toList) ++
  (ascending (g.taps i)).flatMap (fun j : Fin p.n => "^cs[".toList ++ decimal j ++ "]".toList) ++ ");\n".toList

def Rng.printConnections : List Char :=
  (List.finRange p.n).flatMap g.printRegister ++
  ("s_out=cs[".toList ++ decimal (g.cycle g.seedTap) ++ "];\n".toList) ++
  (List.finRange p.r).flatMap fun i : Fin p.r =>
    "ro[".toList ++ decimal i ++ "]=ns[".toList ++ decimal (g.perm i) ++ "];\n".toList

end

/-! ## The program -/

namespace Dump

def m : Lval := ⟨['m'], none, by decide⟩
def s_in : Lval := ⟨['s', '_', 'i', 'n'], none, by decide⟩
def s_out : Lval := ⟨['s', '_', 'o', 'u', 't'], none, by decide⟩
def cs (i : ℕ) : Lval := ⟨['c', 's'], some i, by decide⟩
def ns (i : ℕ) : Lval := ⟨['n', 's'], some i, by decide⟩
def ro (i : ℕ) : Lval := ⟨['r', 'o'], some i, by decide⟩

/-- `l`, as an expression. -/
def get (l : Lval) : Conditional := .exclusiveOr (.primary (.get l))

/-- `0^cs[j]^...` -/
def xorTree (l : List ℕ) : ExclusiveOr := l.foldl (fun s j => .xor s (.get (cs j))) (.primary (.num 0))

section
variable {p : Params} (g : Rng p)

def register (i : Fin p.n) : Stmt :=
  ⟨ns i, .cond (.primary (.get m)) (get (if i = g.seedTap then s_in else cs (g.cycle i)))
    (.exclusiveOr (.primary (.paren (.exclusiveOr (xorTree ((ascending (g.taps i)).map Fin.val))))))⟩

def registers : List Stmt := (List.finRange p.n).map (register g)

def outputs : List Stmt :=
  ⟨s_out, get (cs (g.cycle g.seedTap))⟩ :: (List.finRange p.r).map fun i : Fin p.r => ⟨ro i, get (ns (g.perm i))⟩

def connections : List Stmt := registers g ++ outputs g

/-! ## Its text -/

theorem chars_xorTree (l : List ℕ) : (xorTree l).tokens.flatMap Token.chars =
    ['0'] ++ l.flatMap fun j => ['^', 'c', 's', '['] ++ decimal j ++ [']'] := by
  induction l using List.reverseRecOn with
  | nil => decide
  | append_singleton l j ih =>
    rw [xorTree, List.foldl_append, List.foldl_cons, List.foldl_nil, ← xorTree, ExclusiveOr.tokens, List.flatMap_append,
      ih]
    simp [cs]

theorem text_register (i : Fin p.n) : (register g i).text = g.printRegister i := by
  have hxor := chars_xorTree ((ascending (g.taps i)).map Fin.val)
  rw [List.flatMap_map] at hxor
  by_cases hi : i = g.seedTap
  · subst hi
    simp [Rng.printRegister, Stmt.text, register, get, ns, m, s_in, hxor]
  · simp [Rng.printRegister, Stmt.text, register, hi, get, ns, cs, m, hxor]

theorem text_connections : text (connections g) = g.printConnections := by
  have hregisters : (registers g).flatMap Stmt.text = (List.finRange p.n).flatMap g.printRegister := by
    rw [registers, List.flatMap_map]
    exact List.flatMap_congr fun i _ => text_register g i
  rw [text, connections, List.flatMap_append, hregisters, Rng.printConnections, List.append_assoc]
  congr 1
  simp [outputs, List.flatMap_map, Stmt.text, get, ns, cs, ro, s_out]

/-! ## Its effect -/

theorem eval_xorTree (mem : Mem 32) (l : List ℕ) :
    (xorTree l).eval mem = (l.map fun j => mem (cs j)).foldl (· ^^^ ·) 0 := by
  induction l using List.reverseRecOn with
  | nil => rfl
  | append_singleton l j ih =>
    rw [xorTree, List.foldl_append, List.foldl_cons, List.foldl_nil, ← xorTree, ExclusiveOr.eval, ih, List.map_append,
      List.foldl_append]
    rfl

theorem reads_xorTree {l : List ℕ} {x : Lval} (h : x ∈ (xorTree l).reads) : x.name = ['c', 's'] := by
  induction l using List.reverseRecOn with
  | nil => cases h
  | append_singleton l j ih =>
    rw [xorTree, List.foldl_append, List.foldl_cons, List.foldl_nil, ← xorTree, ExclusiveOr.reads, List.mem_append] at h
    rcases h with h | h
    · exact ih h
    · rw [List.mem_singleton.1 h]
      rfl

omit g in
theorem fold_eq_foldl (s : Finset (Fin p.n)) (f : Fin p.n → BitVec 32) :
    (s.fold (· ^^^ ·) 0 f : BitVec 32) = ((ascending s).map f).foldl (· ^^^ ·) 0 := by
  have hsort : (s.1.map f) = ((ascending s).map f : List (BitVec 32)) := by
    rw [← Multiset.map_coe, ascending, Finset.sort_eq]
  rw [Finset.fold, hsort, Multiset.coe_fold_l]

theorem eval_register (mem : Mem 32) (i : Fin p.n) :
    (register g i).value.eval mem = (g.step (fun i => mem (cs i)) (mem m).toInt (mem s_in)).1 i := by
  have hm : (mem m).toInt = 0 ↔ mem m = 0 :=
    ⟨fun h => BitVec.toInt_inj.1 (h.trans BitVec.toInt_zero.symm), fun h => h ▸ BitVec.toInt_zero⟩
  simp only [register, Conditional.eval, ExclusiveOr.eval, Primary.eval, eval_xorTree, List.map_map, Rng.step,
    fold_eq_foldl, hm, ne_eq, ite_not]
  split
  · rfl
  · split <;> rfl

/-- What a register is computed from. -/
theorem reads_register {i : Fin p.n} {x : Lval} (h : x ∈ (register g i).value.reads) : x.name ≠ ['n', 's'] := by
  simp only [register, Conditional.reads, ExclusiveOr.reads, Primary.reads, get, List.mem_append,
    List.mem_singleton] at h
  rcases h with (rfl | rfl) | h
  · decide
  · split <;> simp [s_in, cs]
  · rw [reads_xorTree h]
    decide

theorem exec_registers (mem : Mem 32) :
    (∀ i : Fin p.n, exec mem (registers g) (ns i) =
      (g.step (fun i => mem (cs i)) (mem m).toInt (mem s_in)).1 i) ∧
    ∀ l, (∀ i : Fin p.n, l ≠ ns i) → exec mem (registers g) l = mem l := by
  have htargets : (registers g).map Stmt.target = (List.finRange p.n).map fun i : Fin p.n => ns i := List.map_map
  have hnodup : ((registers g).map Stmt.target).Nodup := by
    rw [htargets]
    refine (List.nodup_finRange p.n).map fun i j hij => Fin.ext ?_
    simpa [ns] using hij
  have hreads : ∀ s ∈ registers g, ∀ t ∈ registers g, s.target ∉ t.value.reads := by
    intro s hs t ht hread
    obtain ⟨i, _, rfl⟩ := List.mem_map.1 hs
    obtain ⟨j, _, rfl⟩ := List.mem_map.1 ht
    exact reads_register g hread rfl
  obtain ⟨hval, hframe⟩ := exec_parallel hnodup hreads mem
  refine ⟨fun i => ?_, fun l hl => hframe l ?_⟩
  · rw [← eval_register]
    exact hval _ (List.mem_map_of_mem (List.mem_finRange i))
  · rw [htargets]
    intro hmem
    obtain ⟨i, _, rfl⟩ := List.mem_map.1 hmem
    exact hl i rfl

theorem exec_outputs (mem : Mem 32) :
    exec mem (outputs g) s_out = mem (cs (g.cycle g.seedTap)) ∧
    (∀ i : Fin p.r, exec mem (outputs g) (ro i) = mem (ns (g.perm i))) ∧
    ∀ l, l ≠ s_out → (∀ i : Fin p.r, l ≠ ro i) → exec mem (outputs g) l = mem l := by
  have htargets : (outputs g).map Stmt.target = s_out :: (List.finRange p.r).map fun i : Fin p.r => ro i :=
    congrArg (s_out :: ·) List.map_map
  have hnodup : ((outputs g).map Stmt.target).Nodup := by
    rw [htargets, List.nodup_cons]
    refine ⟨?_, (List.nodup_finRange p.r).map fun i j hij => Fin.ext ?_⟩
    · simp [s_out, ro]
    · simpa [ro] using hij
  have hreads : ∀ s ∈ outputs g, ∀ t ∈ outputs g, s.target ∉ t.value.reads := by
    have hsome : ∀ t ∈ outputs g, ∀ l ∈ t.value.reads, l.name = ['c', 's'] ∨ l.name = ['n', 's'] := by
      simp [outputs, get, cs, ns, Conditional.reads, ExclusiveOr.reads, Primary.reads]
    intro s hs t ht hread
    rcases List.mem_cons.1 hs with rfl | hs
    · rcases hsome t ht _ hread with h | h <;> cases h
    · obtain ⟨i, _, rfl⟩ := List.mem_map.1 hs
      rcases hsome t ht _ hread with h | h <;> cases h
  obtain ⟨hval, hframe⟩ := exec_parallel hnodup hreads mem
  refine ⟨hval _ List.mem_cons_self, fun i => ?_, fun l hl hro => hframe l ?_⟩
  · exact hval _ (List.mem_cons_of_mem _ (List.mem_map_of_mem (List.mem_finRange i)))
  · rw [htargets, List.mem_cons, not_or]
    refine ⟨hl, fun hmem => ?_⟩
    obtain ⟨i, _, rfl⟩ := List.mem_map.1 hmem
    exact hro i rfl

end

end Dump

open Dump

/-- **The dump is the transition function**: whatever the generator and whatever is in memory, the printed text is a
    program that leaves in `ns`, `ro` and `s_out` what `Step` makes of `cs`, `m` and `s_in`, and all else as it was. -/
theorem printConnections_step {p : Params} (g : Rng p) (mem : Mem 32) :
    ∃ mem', run g.printConnections mem = some mem' ∧
      let next := g.step (fun i => mem (cs i)) (mem m).toInt (mem s_in)
      (∀ i : Fin p.n, mem' (ns i) = next.1 i) ∧
      (∀ i : Fin p.r, mem' (ro i) = next.2.ro i) ∧
      mem' s_out = next.2.s_out ∧
      ∀ l, (∀ i : Fin p.n, l ≠ ns i) → (∀ i : Fin p.r, l ≠ ro i) → l ≠ s_out → mem' l = mem l := by
  refine ⟨exec mem (connections g), by rw [← text_connections, run_text], ?_⟩
  obtain ⟨hns, hframe⟩ := exec_registers g mem
  obtain ⟨hout, hro, hframe'⟩ := exec_outputs g (exec mem (registers g))
  rw [connections, exec_append]
  refine ⟨fun i => ?_, fun i => ?_, ?_, fun l hl hl' hl'' => ?_⟩
  · rw [hframe' _ (by simp [ns, s_out]) (by simp [ns, ro]), hns]
  · rw [hro]
    exact hns (p.reg (g.perm i))
  · rw [hout, hframe _ (by simp [cs, ns])]
    rfl
  · rw [hframe' l hl'' hl', hframe l hl]

end ThundeRiNG.LutSr
