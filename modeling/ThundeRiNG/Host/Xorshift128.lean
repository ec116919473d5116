import Mathlib.Data.BitVec
import Mathlib.Data.List.FinRange
import Mathlib.Logic.Function.Basic

/-!
# `xorshift128.h`: the generator, its bit matrices, and the jump-ahead code

The same text stands in `test/rngs/xorshift128.h` and `test/corr_test/corr_xorshift128.h`; line numbers
are those of the first.

| here | there |
| --- | --- |
| `State`, `State.get`                  | `state_t` (`:7`); `x`, `y`, `z`, `w` are the references to `s[0]` … `s[3]` |
| `init`, `stepForward`, `stepBackward` | `:14-53` |
| `Tr`, `getBit`, `setBit`, `T`         | `tr_t` and its accessors (`:62-80`), the literal `T` (`:90-219`) |
| `Mem`                                 | matrices live in memory and are passed by address, so arguments may coincide |
| `matMul`, `matPow`                    | `:222-272` |
| `calculateBwdTransitionMatrix`        | `:274-296` |
| `prepareTransition`, `Statics`        | `:298-322` with the two function-local statics |
| `doTransition`                        | `:324-351` |

A local array is not initialised in C, so every function that declares one takes its first contents as an
argument (`junk`). `uint64_t k` is only halved and tested, so the loops run on `k.toNat`.
-/

namespace ThundeRiNG.Xorshift128

abbrev Word := BitVec 32

structure State where
  x : Word
  y : Word
  z : Word
  w : Word
deriving DecidableEq, Repr

/-- `s[i]`. -/
def State.get (s : State) : Fin 4 → Word
  | 0 => s.x
  | 1 => s.y
  | 2 => s.z
  | 3 => s.w

def State.ofFn (f : Fin 4 → Word) : State := ⟨f 0, f 1, f 2, f 3⟩

def init : State := ⟨123456789, 362436069, 521288629, 88675123⟩

def stepForward (s : State) : State :=
  let t := s.x ^^^ (s.x <<< 11)
  ⟨s.y, s.z, s.w, s.w ^^^ (s.w >>> 19) ^^^ (t ^^^ (t >>> 8))⟩

def stepBackward (s : State) : State :=
  let tt := s.w ^^^ (s.z ^^^ (s.z >>> 19))
  -- undoes `t ^ (t >> 8)`, one byte at a time from the top
  let t_3 := tt &&& 0xFF000000
  let t_2 := (tt &&& 0x00FF0000) ^^^ (t_3 >>> 8)
  let t_1 := (tt &&& 0x0000FF00) ^^^ (t_2 >>> 8)
  let t_0 := (tt &&& 0x000000FF) ^^^ (t_1 >>> 8)
  let t := t_3 ||| t_2 ||| t_1 ||| t_0
  -- undoes `x ^ (x << 11)`, eleven bits at a time from the bottom
  let x_10_00 := t &&& 0x000007FF
  let x_21_11 := (t &&& 0x003FF800) ^^^ (x_10_00 <<< 11)
  let x_31_22 := (t &&& 0xFFC00000) ^^^ (x_21_11 <<< 11)
  ⟨x_31_22 ||| x_21_11 ||| x_10_00, s.x, s.y, s.z⟩

/-! ## Bit matrices -/

abbrev Tr := Vector (Vector Word 4) 128

def colNdx (col : Fin 128) : Fin 4 := ⟨col / 32, by omega⟩
def colOfs (col : Fin 128) : ℕ := col % 32

/-- `A[row][ndx]`. -/
def Tr.word (A : Tr) (row : Fin 128) (ndx : Fin 4) : Word := A[row][ndx]

/-- `A[row][ndx] = v`. -/
def Tr.setWord (A : Tr) (row : Fin 128) (ndx : Fin 4) (v : Word) : Tr := A.set row (A[row].set ndx v)

def getBit (A : Tr) (row col : Fin 128) : Word := (A.word row (colNdx col) >>> colOfs col) &&& 1

def setBit (A : Tr) (row col : Fin 128) (val : Word) : Tr :=
  let mask := (1 : Word) <<< colOfs col
  A.setWord row (colNdx col) ((A.word row (colNdx col) &&& ~~~mask) ||| (val <<< colOfs col))

/-- The transition matrix of `step_forward`, one row for each bit of the new state. -/
def T : Tr := #v[
  #v[0x00000000, 0x00000001, 0x00000000, 0x00000000],
  #v[0x00000000, 0x00000002, 0x00000000, 0x00000000],
  #v[0x00000000, 0x00000004, 0x00000000, 0x00000000],
  #v[0x00000000, 0x00000008, 0x00000000, 0x00000000],
  #v[0x00000000, 0x00000010, 0x00000000, 0x00000000],
  #v[0x00000000, 0x00000020, 0x00000000, 0x00000000],
  #v[0x00000000, 0x00000040, 0x00000000, 0x00000000],
  #v[0x00000000, 0x00000080, 0x00000000, 0x00000000],
  #v[0x00000000, 0x00000100, 0x00000000, 0x00000000],
  #v[0x00000000, 0x00000200, 0x00000000, 0x00000000],
  #v[0x00000000, 0x00000400, 0x00000000, 0x00000000],
  #v[0x00000000, 0x00000800, 0x00000000, 0x00000000],
  #v[0x00000000, 0x00001000, 0x00000000, 0x00000000],
  #v[0x00000000, 0x00002000, 0x00000000, 0x00000000],
  #v[0x00000000, 0x00004000, 0x00000000, 0x00000000],
  #v[0x00000000, 0x00008000, 0x00000000, 0x00000000],
  #v[0x00000000, 0x00010000, 0x00000000, 0x00000000],
  #v[0x00000000, 0x00020000, 0x00000000, 0x00000000],
  #v[0x00000000, 0x00040000, 0x00000000, 0x00000000],
  #v[0x00000000, 0x00080000, 0x00000000, 0x00000000],
  #v[0x00000000, 0x00100000, 0x00000000, 0x00000000],
  #v[0x00000000, 0x00200000, 0x00000000, 0x00000000],
  #v[0x00000000, 0x00400000, 0x00000000, 0x00000000],
  #v[0x00000000, 0x00800000, 0x00000000, 0x00000000],
  #v[0x00000000, 0x01000000, 0x00000000, 0x00000000],
  #v[0x00000000, 0x02000000, 0x00000000, 0x00000000],
  #v[0x00000000, 0x04000000, 0x00000000, 0x00000000],
  #v[0x00000000, 0x08000000, 0x00000000, 0x00000000],
  #v[0x00000000, 0x10000000, 0x00000000, 0x00000000],
  #v[0x00000000, 0x20000000, 0x00000000, 0x00000000],
  #v[0x00000000, 0x40000000, 0x00000000, 0x00000000],
  #v[0x00000000, 0x80000000, 0x00000000, 0x00000000],
  #v[0x00000000, 0x00000000, 0x00000001, 0x00000000],
  #v[0x00000000, 0x00000000, 0x00000002, 0x00000000],
  #v[0x00000000, 0x00000000, 0x00000004, 0x00000000],
  #v[0x00000000, 0x00000000, 0x00000008, 0x00000000],
  #v[0x00000000, 0x00000000, 0x00000010, 0x00000000],
  #v[0x00000000, 0x00000000, 0x00000020, 0x00000000],
  #v[0x00000000, 0x00000000, 0x00000040, 0x00000000],
  #v[0x00000000, 0x00000000, 0x00000080, 0x00000000],
  #v[0x00000000, 0x00000000, 0x00000100, 0x00000000],
  #v[0x00000000, 0x00000000, 0x00000200, 0x00000000],
  #v[0x00000000, 0x00000000, 0x00000400, 0x00000000],
  #v[0x00000000, 0x00000000, 0x00000800, 0x00000000],
  #v[0x00000000, 0x00000000, 0x00001000, 0x00000000],
  #v[0x00000000, 0x00000000, 0x00002000, 0x00000000],
  #v[0x00000000, 0x00000000, 0x00004000, 0x00000000],
  #v[0x00000000, 0x00000000, 0x00008000, 0x00000000],
  #v[0x00000000, 0x00000000, 0x00010000, 0x00000000],
  #v[0x00000000, 0x00000000, 0x00020000, 0x00000000],
  #v[0x00000000, 0x00000000, 0x00040000, 0x00000000],
  #v[0x00000000, 0x00000000, 0x00080000, 0x00000000],
  #v[0x00000000, 0x00000000, 0x00100000, 0x00000000],
  #v[0x00000000, 0x00000000, 0x00200000, 0x00000000],
  #v[0x00000000, 0x00000000, 0x00400000, 0x00000000],
  #v[0x00000000, 0x00000000, 0x00800000, 0x00000000],
  #v[0x00000000, 0x00000000, 0x01000000, 0x00000000],
  #v[0x00000000, 0x00000000, 0x02000000, 0x00000000],
  #v[0x00000000, 0x00000000, 0x04000000, 0x00000000],
  #v[0x00000000, 0x00000000, 0x08000000, 0x00000000],
  #v[0x00000000, 0x00000000, 0x10000000, 0x00000000],
  #v[0x00000000, 0x00000000, 0x20000000, 0x00000000],
  #v[0x00000000, 0x00000000, 0x40000000, 0x00000000],
  #v[0x00000000, 0x00000000, 0x80000000, 0x00000000],
  #v[0x00000000, 0x00000000, 0x00000000, 0x00000001],
  #v[0x00000000, 0x00000000, 0x00000000, 0x00000002],
  #v[0x00000000, 0x00000000, 0x00000000, 0x00000004],
  #v[0x00000000, 0x00000000, 0x00000000, 0x00000008],
  #v[0x00000000, 0x00000000, 0x00000000, 0x00000010],
  #v[0x00000000, 0x00000000, 0x00000000, 0x00000020],
  #v[0x00000000, 0x00000000, 0x00000000, 0x00000040],
  #v[0x00000000, 0x00000000, 0x00000000, 0x00000080],
  #v[0x00000000, 0x00000000, 0x00000000, 0x00000100],
  #v[0x00000000, 0x00000000, 0x00000000, 0x00000200],
  #v[0x00000000, 0x00000000, 0x00000000, 0x00000400],
  #v[0x00000000, 0x00000000, 0x00000000, 0x00000800],
  #v[0x00000000, 0x00000000, 0x00000000, 0x00001000],
  #v[0x00000000, 0x00000000, 0x00000000, 0x00002000],
  #v[0x00000000, 0x00000000, 0x00000000, 0x00004000],
  #v[0x00000000, 0x00000000, 0x00000000, 0x00008000],
  #v[0x00000000, 0x00000000, 0x00000000, 0x00010000],
  #v[0x00000000, 0x00000000, 0x00000000, 0x00020000],
  #v[0x00000000, 0x00000000, 0x00000000, 0x00040000],
  #v[0x00000000, 0x00000000, 0x00000000, 0x00080000],
  #v[0x00000000, 0x00000000, 0x00000000, 0x00100000],
  #v[0x00000000, 0x00000000, 0x00000000, 0x00200000],
  #v[0x00000000, 0x00000000, 0x00000000, 0x00400000],
  #v[0x00000000, 0x00000000, 0x00000000, 0x00800000],
  #v[0x00000000, 0x00000000, 0x00000000, 0x01000000],
  #v[0x00000000, 0x00000000, 0x00000000, 0x02000000],
  #v[0x00000000, 0x00000000, 0x00000000, 0x04000000],
  #v[0x00000000, 0x00000000, 0x00000000, 0x08000000],
  #v[0x00000000, 0x00000000, 0x00000000, 0x10000000],
  #v[0x00000000, 0x00000000, 0x00000000, 0x20000000],
  #v[0x00000000, 0x00000000, 0x00000000, 0x40000000],
  #v[0x00000000, 0x00000000, 0x00000000, 0x80000000],
  #v[0x00000101, 0x00000000, 0x00000000, 0x00080001],
  #v[0x00000202, 0x00000000, 0x00000000, 0x00100002],
  #v[0x00000404, 0x00000000, 0x00000000, 0x00200004],
  #v[0x00000809, 0x00000000, 0x00000000, 0x00400008],
  #v[0x00001012, 0x00000000, 0x00000000, 0x00800010],
  #v[0x00002024, 0x00000000, 0x00000000, 0x01000020],
  #v[0x00004048, 0x00000000, 0x00000000, 0x02000040],
  #v[0x00008090, 0x00000000, 0x00000000, 0x04000080],
  #v[0x00010120, 0x00000000, 0x00000000, 0x08000100],
  #v[0x00020240, 0x00000000, 0x00000000, 0x10000200],
  #v[0x00040480, 0x00000000, 0x00000000, 0x20000400],
  #v[0x00080901, 0x00000000, 0x00000000, 0x40000800],
  #v[0x00101202, 0x00000000, 0x00000000, 0x80001000],
  #v[0x00202404, 0x00000000, 0x00000000, 0x00002000],
  #v[0x00404808, 0x00000000, 0x00000000, 0x00004000],
  #v[0x00809010, 0x00000000, 0x00000000, 0x00008000],
  #v[0x01012020, 0x00000000, 0x00000000, 0x00010000],
  #v[0x02024040, 0x00000000, 0x00000000, 0x00020000],
  #v[0x04048080, 0x00000000, 0x00000000, 0x00040000],
  #v[0x08090100, 0x00000000, 0x00000000, 0x00080000],
  #v[0x10120200, 0x00000000, 0x00000000, 0x00100000],
  #v[0x20240400, 0x00000000, 0x00000000, 0x00200000],
  #v[0x40480800, 0x00000000, 0x00000000, 0x00400000],
  #v[0x80901000, 0x00000000, 0x00000000, 0x00800000],
  #v[0x01002000, 0x00000000, 0x00000000, 0x01000000],
  #v[0x02004000, 0x00000000, 0x00000000, 0x02000000],
  #v[0x04008000, 0x00000000, 0x00000000, 0x04000000],
  #v[0x08010000, 0x00000000, 0x00000000, 0x08000000],
  #v[0x10020000, 0x00000000, 0x00000000, 0x10000000],
  #v[0x20040000, 0x00000000, 0x00000000, 0x20000000],
  #v[0x40080000, 0x00000000, 0x00000000, 0x40000000],
  #v[0x80100000, 0x00000000, 0x00000000, 0x80000000]]

/-! ## Matrix functions -/

/-- The matrices of a call, by location. -/
abbrev Mem (L : Type) := L → Tr

section
variable {L : Type} [DecidableEq L]

def Mem.set (m : Mem L) (l : L) (A : Tr) : Mem L := Function.update m l A

/-- `l[i][j] = v`. -/
def Mem.write (m : Mem L) (l : L) (i : Fin 128) (j : Fin 4) (v : Word) : Mem L :=
  m.set l ((m l).setWord i j v)

/-- The inner loop of `mat_mul`. -/
def matMulBit (A B : Tr) (i j : Fin 128) : Word :=
  (List.finRange 128).foldl (fun v k => v ^^^ (getBit A i k &&& getBit B k j)) 0

/-- `mat_mul(C, A, B)`: the product is built in a local and copied to `C` at the end. -/
def matMul (C A B : L) (junk : Tr) (m : Mem L) : Mem L :=
  let T := (List.finRange 128).foldl (fun T i =>
    (List.finRange 128).foldl (fun T j => setBit T i j (matMulBit (m A) (m B) i j)) T) junk
  (List.finRange 128).foldl (fun m i =>
    (List.finRange 4).foldl (fun m j => m.write C i j (T.word i j)) m) m

/-- One row of the loop below: the copy, the zeros, and the diagonal bit. -/
def copyIdentityRow (tmp out src : L) (m : Mem L) (i : Fin 128) : Mem L :=
  let m := (List.finRange 4).foldl (fun m j => (m.write tmp i j ((m src).word i j)).write out i j 0) m
  m.set out (setBit (m out) i i 1)

/-- The loop `mat_pow` and `calculate_bwd_transition_matrix` begin with: `tmp = src`, `out` = identity. -/
def copyAndIdentity (tmp out src : L) (m : Mem L) : Mem L :=
  (List.finRange 128).foldl (copyIdentityRow tmp out src) m

/-- `mat_pow`'s `for (k = n; k > 0; k /= 2)`; `none` is its local matrix `T`. -/
def matPowLoop (B : L) (junk : ℕ → Tr) (k : ℕ) (m : Mem (Option L)) : Mem (Option L) :=
  if k = 0 then m
  else
    let m := if k % 2 ≠ 0 then matMul (some B) none (some B) (junk 0) m else m
    let m := matMul none none none (junk 1) m
    matPowLoop B (fun i => junk (i + 2)) (k / 2) m
termination_by k
decreasing_by omega

def matPow (B A : L) (n : BitVec 64) (junk : ℕ → Tr) (m : Mem L) : Mem L :=
  let m : Mem (Option L) := fun l => l.elim (junk 0) m
  let m := copyAndIdentity none (some B) (some A) m
  let m := matPowLoop B (fun i => junk (i + 1)) n.toNat m
  fun l => m (some l)

/-- One pass of the loop below; `none` is the local matrix `tmpT`. -/
def bwdStep (invT : L) (junk : ℕ → Tr) (m : Mem (Option L)) (i : ℕ) : Mem (Option L) :=
  let m := if 0 < i then matMul (some invT) none (some invT) (junk (2 * i + 1)) m else m
  matMul none none none (junk (2 * i + 2)) m

def calculateBwdTransitionMatrix (invT T : L) (junk : ℕ → Tr) (m : Mem L) : Mem L :=
  let m : Mem (Option L) := fun l => l.elim (junk 0) m
  let m := copyAndIdentity none (some invT) (some T) m
  let m := (List.range 128).foldl (bwdStep invT junk) m
  fun l => m (some l)

end

/-! ## `prepare_transition` and `do_transition` -/

inductive Direction where
  | FWD
  | BWD
deriving DecidableEq, Repr

/-- `prepare_transition`'s function-local statics. -/
structure Statics where
  invT_initialized : Bool
  invT : Tr

/-- Static storage starts as zeros. -/
def Statics.zero : Statics := ⟨false, Vector.replicate 128 (Vector.replicate 4 0)⟩

/-- The matrices `prepare_transition` can reach: its argument, the global `T`, and the static `invT`. -/
inductive Loc where
  | T_k
  | T
  | invT
deriving DecidableEq, Repr

/-- Returns what it leaves in `T_k`, and its statics. -/
def prepareTransition (T_k : Tr) (k : BitVec 64) (dir : Direction) (junk : ℕ → Tr) (st : Statics) : Tr × Statics :=
  let m : Mem Loc := fun
    | .T_k => T_k
    | .T => T
    | .invT => st.invT
  match dir with
  | .FWD => (matPow .T_k .T k junk m .T_k, st)
  | .BWD =>
    let m := if st.invT_initialized then m else calculateBwdTransitionMatrix .invT .T (fun i => junk (2 * i)) m
    let m := matPow .T_k .invT k (fun i => junk (2 * i + 1)) m
    (m .T_k, ⟨true, m .invT⟩)

/-- The arguments of one call, with the first contents of its locals. -/
structure Call where
  T_k : Tr
  k : BitVec 64
  dir : Direction
  junk : ℕ → Tr

/-- The statics after the calls of a program run. -/
def staticsAfter (calls : List Call) : Statics :=
  calls.foldl (fun st c => (prepareTransition c.T_k c.k c.dir c.junk st).2) .zero

/-- `i * 32 + j`. -/
def rowNdx (i : Fin 4) (j : Fin 32) : Fin 128 := ⟨i * 32 + j, by omega⟩

/-- `w`: the bitwise products of one row with the state, xored into one word. -/
def rowWord (s : State) (T : Tr) (row : Fin 128) : Word :=
  (List.finRange 4).foldl (fun w k => w ^^^ (T.word row k &&& s.get k)) 0

/-- `u`: every bit of `w` is shifted onto the top bit. -/
def parityFold (w : Word) : Word := (List.range' 1 31).foldl (fun u k => u ^^^ (w <<< k)) w

def doTransition (s : State) (T : Tr) : State :=
  State.ofFn fun i => (List.finRange 32).foldl (fun t j =>
    let u := parityFold (rowWord s T (rowNdx i j))
    (t >>> 1) ||| (u &&& 0x80000000)) 0

end ThundeRiNG.Xorshift128
