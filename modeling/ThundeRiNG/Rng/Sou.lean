import Mathlib.Order.Fin.Basic
import ThundeRiNG.Rng.Link
import ThundeRiNG.Rng.Streams
import ThundeRiNG.Rng.Xor32s

/-!
# The sequence-output unit (`fpga/rng/src/sou/`)

Kernel `rng_instance_j` is the template with `#%d#` replaced by `j` (`sou/template/template_rng_instance.cpp`;
`sou/rng_instance_1.cpp` is the case 1). Inside a kernel the state goes down the chain `s[0] … s[8]` past eight
`leaf_state_stream`s, each of which derives a leaf word of its own stream; the output goes down `o[0] … o[8]` past
eight `instance`s, each of which steps its decorrelator and xors both into the passing word. `instance` only polls
its leaf word: if it has not arrived, the output passes unchanged.

| here | there |
| --- | --- |
| `KERNEL_ID`, `NRNG`             | `template_rng_instance.cpp:13-16` |
| `leafStateStream`               | `:71-86` |
| `instanceStream`                | `instance` (`:88-117`) |
| `network`                       | `rng_instance` for each kernel (`:119-155`), the links of `gen_link`, what is at their ends |
| `Chan.s`, `.o`, `.leafState`    | the local arrays of streams, of depth 2 |
| `Chan.sLink`, `.oLink`          | an AXI link, by the port it starts at |

The root states `S` on the link from the merge and the words `O` on the link from `rng_start` are arbitrary here;
`rng_start` itself sends zeros (`tokenSource_zero`). `rng_main` is its reads of the port `rng`: when, and whether
ever again, it reads is up to the schedule. Links may have any depth.
-/

namespace ThundeRiNG.Sou

open Kahn

def NRNG : ℕ := 8

def KERNEL_ID (j : ℕ) : ℕ := j * NRNG - 1

/-! ## The processes of a kernel -/

section
variable {Chan : Type} {V : Chan → Type}

def leafStateStream (inp : Prog V RngState) (out : RngState → Prog V Unit) (innerOut : Rng32 → Prog V Unit) (id : ℕ) :
    Prog V Unit := do
  let state ← inp
  out state
  let update := multiStream state (BitVec.ofNat 64 (54 + id))
  let leaf_state := outputFunction update
  innerOut leaf_state

def instanceStream (sIn : Prog V (Option Rng32)) (inp : Prog V Rng32) (out : Rng32 → Prog V Unit) (sg_state : Rng32) :
    Prog V Rng32 := do
  let sg := xorshiftjump sg_state
  let data ← inp
  match ← sIn with
  | some rng =>
    let output := sg ^^^ rng
    out (applicationFunction output data)
  | none => out data
  return sg

end

/-! ## The network -/

inductive Chan (CUs : ℕ) where
  | s (k : Fin CUs) (i : Fin 9)
  | o (k : Fin CUs) (i : Fin 9)
  | leafState (k : Fin CUs) (i : Fin 8)
  | sLink (src : Port)
  | oLink (src : Port)
deriving DecidableEq

/-- Index `k` stands for kernel `k + 1`. -/
inductive Proc (CUs : ℕ) where
  | ssrngStateMerge
  | rngStart
  | rngEnd
  | rngMain
  | sToHls (k : Fin CUs)
  | oToHls (k : Fin CUs)
  | leafStateStream (k : Fin CUs) (i : Fin 8)
  | instanceStream (k : Fin CUs) (i : Fin 8)
  | sToAxis (k : Fin CUs)
  | oToAxis (k : Fin CUs)
deriving DecidableEq

variable {CUs : ℕ}

abbrev Token : Chan CUs → Type
  | .s .. => RngState
  | .o .. => Rng32
  | .leafState .. => Rng32
  | .sLink _ => RngState
  | .oLink _ => Rng32

/-- What a process keeps from pass to pass. -/
abbrev Static : Proc CUs → Type
  | .ssrngStateMerge => ℕ
  | .rngStart => ℕ
  | .instanceStream .. => Rng32
  | _ => Unit

/-- Kernel number `j` as an index. -/
def kernel? (CUs j : ℕ) : Option (Fin CUs) := if h : 1 ≤ j ∧ j ≤ CUs then some ⟨j - 1, by omega⟩ else none

/-- The process that reads a state link ending in the port. -/
def stateReader : Port → Proc CUs
  | .sIn j => (kernel? CUs j).elim .rngEnd .sToHls
  | _ => .rngEnd

def stateWriter : Port → Proc CUs
  | .sOut j => (kernel? CUs j).elim .ssrngStateMerge .sToAxis
  | _ => .ssrngStateMerge

def outputReader : Port → Proc CUs
  | .oIn j => (kernel? CUs j).elim .rngMain .oToHls
  | _ => .rngMain

def outputWriter : Port → Proc CUs
  | .oOut j => (kernel? CUs j).elim .rngStart .oToAxis
  | _ => .rngStart

/-- The id of stream `i` of a kernel. -/
def instanceId (k : Fin CUs) (i : Fin 8) : ℕ := KERNEL_ID (k + 1) + i

def network (CUs axiDepth : ℕ) (S : ℕ → RngState) (O : ℕ → Rng32) : Network (Token : Chan CUs → Type) (Proc CUs) where
  S := Static
  init
    | .ssrngStateMerge => 0
    | .rngStart => 0
    | .instanceStream k i => tmpXor32S.getD (instanceId k i) 0
    | .rngEnd => ()
    | .rngMain => ()
    | .sToHls _ => ()
    | .oToHls _ => ()
    | .leafStateStream _ _ => ()
    | .sToAxis _ => ()
    | .oToAxis _ => ()
  body
    | .ssrngStateMerge => tokenSource (.put (V := Token) (.sLink .ssrngStateMergeOut)) S
    | .rngStart => tokenSource (.put (V := Token) (.oLink .rngStartOutput)) O
    | .rngEnd => fun _ => sinkStream (.get (V := Token) (.sLink (linkStart CUs .rngEndInput)))
    | .rngMain => fun _ => sinkStream (.get (V := Token) (.oLink (linkStart CUs .rngMainRng)))
    | .sToHls k => fun _ =>
      axisToHlsStream (.get (V := Token) (.sLink (linkStart CUs (.sIn (k + 1))))) (.put (V := Token) (.s k 0))
    | .oToHls k => fun _ =>
      axisToHlsStream (.get (V := Token) (.oLink (linkStart CUs (.oIn (k + 1))))) (.put (V := Token) (.o k 0))
    | .leafStateStream k i => fun _ =>
      leafStateStream (.get (V := Token) (.s k i.castSucc)) (.put (V := Token) (.s k i.succ))
        (.put (V := Token) (.leafState k i)) (instanceId k i)
    | .instanceStream k i =>
      instanceStream (.poll (V := Token) (.leafState k i.rev)) (.get (V := Token) (.o k i.castSucc))
        (.put (V := Token) (.o k i.succ))
    | .sToAxis k => fun _ =>
      hlsToAxisStream (.get (V := Token) (.s k 8)) (.put (V := Token) (.sLink (.sOut (k + 1))))
    | .oToAxis k => fun _ =>
      hlsToAxisStream (.get (V := Token) (.o k 8)) (.put (V := Token) (.oLink (.oOut (k + 1))))
  depth
    | .s .. => 2
    | .o .. => 2
    | .leafState .. => 2
    | .sLink _ => axiDepth
    | .oLink _ => axiDepth
  reader
    | .s k i => Fin.lastCases (.sToAxis k) (fun i => .leafStateStream k i) i
    | .o k i => Fin.lastCases (.oToAxis k) (fun i => .instanceStream k i) i
    | .leafState k i => .instanceStream k i.rev
    | .sLink src => stateReader (linkEnd CUs src)
    | .oLink src => outputReader (linkEnd CUs src)
  writer
    | .s k i => Fin.cases (.sToHls k) (fun i => .leafStateStream k i) i
    | .o k i => Fin.cases (.oToHls k) (fun i => .instanceStream k i) i
    | .leafState k i => .leafStateStream k i
    | .sLink src => stateWriter src
    | .oLink src => outputWriter src

end ThundeRiNG.Sou
