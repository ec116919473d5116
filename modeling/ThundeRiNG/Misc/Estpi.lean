import Mathlib.Algebra.BigOperators.Fin
import Mathlib.Tactic.Ring
import ThundeRiNG.Rng.SouStreams
import ThundeRiNG.Rng.StateSharing

/-!
# The pi estimator (`misc/estpi/ssrng.cpp`)

A chain of applications draws pairs of words, each from a generator of its own, and passes tokens on: a token that
comes in leaves one higher if the pair lies in the circle. But `o_in` is only polled, and an application that finds
it empty writes a zero, whatever its pair was.

| here | there |
| --- | --- |
| `application`, `rngInstance`     | `:90-123`, `:190-214` |
| `dummyStream`, `sinkStream`      | `:151-176` |
| `axisToHlsStream`                | `pad` (`:178-187`), the same text |
| `network`                        | `ssrng` (`:278-345`), with `n` for `NRMG - 1` and the FIFO depths of its pragmas |
| `Hit`, `pairs`                   | what the chain is for |

The root states `S` on `s_stream` are arbitrary here; the nine `state_transition` stages and their merge are those of
`Rng.Rsgu`. `consumer` is whatever reads `output`. A token is the `data` field of its packet.
-/

namespace ThundeRiNG.Estpi

open Kahn Sou

def NRMG : ℕ := 64 + 1

/-! ## The processes -/

section
variable {Chan : Type} {V : Chan → Type}

/-- `rng_pkg.data * rng_pkg.data`, kept to 66 bits. -/
def square (data : Rng32) : BitVec 66 := data.setWidth 66 * data.setWidth 66

def application (rng : Prog V Rng32) (oIn : Prog V (Option Rng32)) (oOut : Rng32 → Prog V Unit) : Prog V Unit := do
  let rng_pkg_0 ← rng
  let rng_pkg_1 ← rng
  match ← oIn with
  | some o_pkg =>
    let dist := square rng_pkg_0 + square rng_pkg_1
    if dist.extractLsb 65 64 = 0 then oOut (o_pkg + 1) else oOut o_pkg
  | none => oOut 0

def rngInstance (sIn : Prog V RngState) (sOut : RngState → Prog V Unit) (rng : Rng32 → Prog V Unit) (id : ℕ)
    (sg_state : Rng32) : Prog V Rng32 := do
  let oldstate ← sIn
  sOut oldstate
  let update := multiStream oldstate (BitVec.ofNat 64 (54 + id))
  let base := outputFunction update
  let sg := xorshiftjump sg_state
  rng (sg ^^^ base)
  return sg

end

/-! ## The network -/

inductive Chan (n : ℕ) where
  | sStream
  | s (i : Fin (n + 1))
  | rng (i : Fin n)
  | o (i : Fin (n + 1))
  | output
deriving DecidableEq

inductive Proc (n : ℕ) where
  | stateTransitionMerge
  | padS
  | dummyStream
  | rngInstance (i : Fin n)
  | application (i : Fin n)
  | sinkStream
  | padO
  | consumer
deriving DecidableEq

variable {n : ℕ}

abbrev Token : Chan n → Type
  | .sStream => RngState
  | .s _ => RngState
  | .rng _ => Rng32
  | .o _ => Rng32
  | .output => Rng32

abbrev Static : Proc n → Type
  | .stateTransitionMerge => ℕ
  | .rngInstance _ => Rng32
  | _ => Unit

def network (n : ℕ) (S : ℕ → RngState) : Network (Token : Chan n → Type) (Proc n) where
  S := Static
  init
    | .stateTransitionMerge => 0
    | .rngInstance i => tmpXor32S.getD i 0
    | .padS => ()
    | .dummyStream => ()
    | .application _ => ()
    | .sinkStream => ()
    | .padO => ()
    | .consumer => ()
  body
    | .stateTransitionMerge => tokenSource (.put (V := Token) .sStream) S
    | .padS => fun _ => axisToHlsStream (.get (V := Token) .sStream) (.put (V := Token) (.s 0))
    | .dummyStream => fun _ => dummyStream (.put (V := Token) (.o 0))
    | .rngInstance i =>
      rngInstance (.get (V := Token) (.s i.castSucc)) (.put (V := Token) (.s i.succ)) (.put (V := Token) (.rng i)) i
    | .application i => fun _ =>
      application (.get (V := Token) (.rng i)) (.poll (V := Token) (.o i.castSucc)) (.put (V := Token) (.o i.succ))
    | .sinkStream => fun _ => sinkStream (.get (V := Token) (.s (Fin.last n)))
    | .padO => fun _ => axisToHlsStream (.get (V := Token) (.o (Fin.last n))) (.put (V := Token) .output)
    | .consumer => fun _ => sinkStream (.get (V := Token) .output)
  depth
    | .sStream => 16
    | .s _ => 2
    | .rng _ => 4
    | .o _ => 2
    | .output => 4
  reader
    | .sStream => .padS
    | .s i => Fin.lastCases .sinkStream .rngInstance i
    | .rng i => .application i
    | .o i => Fin.lastCases .padO .application i
    | .output => .consumer
  writer
    | .sStream => .stateTransitionMerge
    | .s i => Fin.cases .padS .rngInstance i
    | .rng i => .rngInstance i
    | .o i => Fin.cases .dummyStream .application i
    | .output => .padO

/-! ## What is counted -/

/-- The pair lies in the quarter circle. -/
def Hit (p : Rng32 × Rng32) : Prop := p.1.toNat ^ 2 + p.2.toNat ^ 2 < 2 ^ 64

instance : DecidablePred Hit := fun _ => inferInstanceAs (Decidable (_ < _))

/-- A hit of an application that found no token to count it on. -/
def Missed (z : Bool × (Rng32 × Rng32)) : Prop := z.1 = false ∧ Hit z.2

instance : DecidablePred Missed := fun _ => inferInstanceAs (Decidable (_ ∧ _))

@[simp] theorem not_missed_true (p : Rng32 × Rng32) : ¬ Missed (true, p) := by simp [Missed]

@[simp] theorem missed_false (p : Rng32 × Rng32) : Missed (false, p) ↔ Hit p := by simp [Missed]

/-- The pairs an application draws from its words. -/
def pairs {A : Type} : List A → List (A × A)
  | x :: y :: l => (x, y) :: pairs l
  | _ => []

def sumNat (l : List Rng32) : ℕ := (l.map BitVec.toNat).sum

section
variable {S : ℕ → RngState} (g : Config (network n S))

/-- The values that have left the chain, and those that are still in it. -/
def delivered : ℕ := sumNat (g.consumed (.o (Fin.last n)))
def queued : ℕ := ∑ i : Fin n, sumNat (g.fifo (.o i.succ))

/-- The pairs of an application, each with the outcome of the poll that followed it. -/
def polled (i : Fin n) : List (Bool × (Rng32 × Rng32)) :=
  (g.polls (.application i)).zip (pairs (g.consumed (.rng i)))

def hits : ℕ := ∑ i : Fin n, (pairs (g.consumed (.rng i))).countP fun p => Hit p

def lost : ℕ := ∑ i : Fin n, (polled g i).countP fun z => Missed z

/-- Every application is between iterations. -/
def Idle : Prop := ∀ i, (g.loc (.application i)).isRet = true

instance : Decidable (Idle g) := inferInstanceAs (Decidable (∀ _, _))

end

/-! ## The streams -/

section
variable (S : ℕ → RngState) (orc : Proc n → ℕ → Bool)

/-- The words of generator `id`. -/
def rngWord (id j : ℕ) : Rng32 := sgState id (j + 1) ^^^ leafWord S id j

/-- A token, one higher on a hit. -/
def counted (x y v : Rng32) : Rng32 := if Hit (x, y) then v + 1 else v

/-- What an application makes of its words `W` and the tokens `X` of its `o_in`. -/
def applicationOut (orc : ℕ → Bool) (W X : ℕ → Rng32) (j : ℕ) : Rng32 :=
  if orc j then
    counted (W (2 * j)) (W (2 * j + 1)) (X (found orc j))
  else 0

def oTokens (i : Fin (n + 1)) : ℕ → Rng32 :=
  Fin.induction (motive := fun _ => ℕ → Rng32) (fun _ => 0)
    (fun i X => applicationOut (orc (.application i)) (rngWord S i) X) i

def stream : (c : Chan n) → ℕ → Token c
  | .sStream => S
  | .s _ => S
  | .rng i => rngWord S i
  | .o i => oTokens S orc i
  | .output => oTokens S orc (Fin.last n)

@[simp] theorem oTokens_zero : oTokens S orc 0 = fun _ => 0 := rfl

@[simp] theorem oTokens_succ (i : Fin n) :
    oTokens S orc i.succ = applicationOut (orc (.application i)) (rngWord S i) (oTokens S orc i.castSucc) := rfl

end

/-- The top bits of the 66-bit sum are clear iff the sum of squares fits in 64 bits. -/
theorem extractLsb_square_eq_zero (x y : Rng32) : (square x + square y).extractLsb 65 64 = 0 ↔ Hit (x, y) := by
  have hsq : ∀ z : Rng32, (square z).toNat = z.toNat ^ 2 ∧ z.toNat ^ 2 < 2 ^ 64 := by
    intro z
    have hz := z.isLt
    have hlt : z.toNat ^ 2 < 2 ^ 64 := by
      calc z.toNat ^ 2 < (2 ^ 32) ^ 2 := Nat.pow_lt_pow_left hz (by decide)
        _ = 2 ^ 64 := rfl
    refine ⟨?_, hlt⟩
    have hw : (z.setWidth 66).toNat = z.toNat := by
      rw [BitVec.toNat_setWidth, Nat.mod_eq_of_lt (by omega)]
    rw [square, BitVec.toNat_mul, hw, ← pow_two, Nat.mod_eq_of_lt (by omega)]
  obtain ⟨hx, hx'⟩ := hsq x
  obtain ⟨hy, hy'⟩ := hsq y
  have hsum : (square x + square y).toNat = x.toNat ^ 2 + y.toNat ^ 2 := by
    rw [BitVec.toNat_add, hx, hy, Nat.mod_eq_of_lt (by omega)]
  rw [← BitVec.toNat_inj, BitVec.extractLsb_toNat, hsum, Nat.shiftRight_eq_div_pow, Hit]
  simp only [BitVec.ofNat_eq_ofNat, BitVec.toNat_ofNat]
  omega

theorem oOut_counted {A : Type} (oOut : Rng32 → A) (x y v : Rng32) :
    (if (square x + square y).extractLsb 65 64 = 0 then oOut (v + 1) else oOut v) = oOut (counted x y v) := by
  simp only [extractLsb_square_eq_zero, counted]
  split <;> rfl

/-! ## Every process keeps to the streams -/

section
variable (S : ℕ → RngState) (orc : Proc n → ℕ → Bool)

@[simp] theorem reader_s_last : (network n S).reader (.s (Fin.last n)) = .sinkStream := by simp [network]
@[simp] theorem reader_s (i : Fin n) : (network n S).reader (.s i.castSucc) = .rngInstance i := by simp [network]
@[simp] theorem reader_o_last : (network n S).reader (.o (Fin.last n)) = .padO := by simp [network]
@[simp] theorem reader_o (i : Fin n) : (network n S).reader (.o i.castSucc) = .application i := by simp [network]
@[simp] theorem reader_rng (i : Fin n) : (network n S).reader (.rng i) = .application i := rfl
@[simp] theorem writer_s (i : Fin n) : (network n S).writer (.s i.succ) = .rngInstance i := rfl
@[simp] theorem writer_o (i : Fin n) : (network n S).writer (.o i.succ) = .application i := rfl
@[simp] theorem writer_rng (i : Fin n) : (network n S).writer (.rng i) = .rngInstance i := rfl

/-- Before its pass `j`, a process has used each of its channels `j` times; an application its words twice as often,
    and its `o_in` only as often as the polls have found a token. -/
def Round : (p : Proc n) → ℕ → Static p → Counts (Chan n) → Prop
  | .stateTransitionMerge, j, s, m => s = j ∧ m.wr .sStream = j
  | .padS, j, _, m => m.rd .sStream = j ∧ m.wr (.s 0) = j
  | .dummyStream, j, _, m => m.wr (.o 0) = j
  | .rngInstance i, j, s, m => s = sgState i j ∧ m.rd (.s i.castSucc) = j ∧ m.wr (.s i.succ) = j ∧ m.wr (.rng i) = j
  | .application i, j, _, m =>
    m.rd (.rng i) = 2 * j ∧ m.rd (.o i.castSucc) = found (orc (.application i)) j ∧ m.wr (.o i.succ) = j ∧ m.polls = j
  | .sinkStream, j, _, m => m.rd (.s (Fin.last n)) = j
  | .padO, j, _, m => m.rd (.o (Fin.last n)) = j ∧ m.wr .output = j
  | .consumer, j, _, m => m.rd .output = j

variable {S orc} {j : ℕ} {m : Counts (Chan n)}

theorem init_round (p : Proc n) : Round orc p 0 ((network n S).init p) .zero := by
  cases p <;> simp [Round, network, sgState, found]

theorem conf_rngInstance {i : Fin n} {s : Rng32} (h : Round orc (.rngInstance i) j s m) :
    Conf (network n S) (stream S orc) orc .free (.rngInstance i) ((network n S).body (.rngInstance i) s) m
      (Round orc (.rngInstance i) (j + 1)) := by
  obtain ⟨rfl, hrd, hwr, hrng⟩ := h
  have hstep : xorshiftjump (sgState i j) = sgState i (j + 1) := (Function.iterate_succ_apply' _ _ _).symm
  simp only [network, rngInstance, conf_bind, conf_get, conf_put]
  simp [hrd, hwr, hrng, hstep, Guard.free, Round, stream, rngWord, leafWord, conf_pure]

theorem conf_application {i : Fin n} {s : Unit} (h : Round orc (.application i) j s m) :
    Conf (network n S) (stream S orc) orc .free (.application i) ((network n S).body (.application i) s) m
      (Round orc (.application i) (j + 1)) := by
  obtain ⟨hrng, hrd, hwr, hpolls⟩ := h
  have htwo : 2 * j + 1 + 1 = 2 * (j + 1) := by omega
  simp only [network, application, oOut_counted, conf_bind, conf_get, conf_poll]
  by_cases ho : orc (.application i) j
  · simp [hrng, hrd, hwr, hpolls, ho, htwo, Guard.free, Round, stream, conf_put, applicationOut, found_succ]
  · simp [hrng, hrd, hwr, hpolls, ho, htwo, Guard.free, Round, stream, conf_put, applicationOut, found_succ]

theorem conf_body {p : Proc n} {s : Static p} (h : Round orc p j s m) :
    Conf (network n S) (stream S orc) orc .free p ((network n S).body p s) m (Round orc p (j + 1)) := by
  cases p with
  | stateTransitionMerge =>
    obtain ⟨rfl, hwr⟩ := h
    exact conf_tokenSource rfl trivial hwr rfl (by simp [Round, hwr])
  | padS =>
    obtain ⟨hrd, hwr⟩ := h
    exact conf_axisToHlsStream (b := .s 0) rfl rfl trivial trivial hrd hwr rfl (by simp [Round, hrd, hwr])
  | dummyStream =>
    have hwr : m.wr (.o 0) = j := h
    have hend : Round orc .dummyStream (j + 1) () (m.addWr (.o 0)) := by simp [Round, hwr]
    exact ⟨rfl, trivial, rfl, hend⟩
  | rngInstance i => exact conf_rngInstance h
  | application i => exact conf_application h
  | sinkStream => exact conf_sinkStream (reader_s_last S) trivial h (by simp [Round, show m.rd _ = j from h])
  | padO =>
    obtain ⟨hrd, hwr⟩ := h
    exact conf_axisToHlsStream (b := .output) (reader_o_last S) rfl trivial trivial hrd hwr rfl
      (by simp [Round, hrd, hwr])
  | consumer => exact conf_sinkStream rfl trivial h (by simp [Round, show m.rd _ = j from h])

end

/-! ## The balance of one application -/

theorem sumNat_append (l l' : List Rng32) : sumNat (l ++ l') = sumNat l + sumNat l' := by simp [sumNat]

theorem pairs_range_map {A : Type} (W : ℕ → A) (j : ℕ) :
    pairs ((List.range (2 * j)).map W) = (List.range j).map fun k => (W (2 * k), W (2 * k + 1)) := by
  induction j generalizing W with
  | zero => rfl
  | succ j ih =>
    have hshift := ih fun k => W (k + 2)
    have hcons : (List.range (2 * (j + 1))).map W = W 0 :: W 1 :: (List.range (2 * j)).map fun k => W (k + 2) := by
      rw [show 2 * (j + 1) = 2 * j + 1 + 1 by ring, List.range_succ_eq_map, List.range_succ_eq_map]
      simp [Function.comp_def]
    rw [hcons, pairs, hshift, List.range_succ_eq_map, List.map_cons, List.map_map]
    rfl

/-- A token counts at most the applications it has passed. -/
theorem toNat_oTokens_le (S : ℕ → RngState) (orc : Proc n → ℕ → Bool) (hn : n < 2 ^ 32) (i : Fin (n + 1)) (j : ℕ) :
    (oTokens S orc i j).toNat ≤ i := by
  induction i using Fin.induction generalizing j with
  | zero => simp
  | succ i ih =>
    have hX := ih (found (orc (.application i)) j)
    have hi := i.isLt
    rw [oTokens_succ, applicationOut, Fin.val_succ]
    split
    · rw [counted]
      split
      · rw [BitVec.toNat_add, show (1 : Rng32).toNat = 1 from rfl]
        simp only [Fin.val_castSucc] at hX
        omega
      · simp only [Fin.val_castSucc] at hX
        omega
    · exact Nat.zero_le _

/-- What goes in and the hits are what comes out and the hits lost: a poll that finds a token adds its hit to it, one
    that misses drops it. -/
theorem sumNat_applicationOut (orc : ℕ → Bool) (W X : ℕ → Rng32) (hX : ∀ k, (X k).toNat + 1 < 2 ^ 32) (j : ℕ) :
    sumNat ((List.range j).map (applicationOut orc W X)) +
        (((List.range j).map orc).zip (pairs ((List.range (2 * j)).map W))).countP
          (fun z => Missed z) =
      sumNat ((List.range (found orc j)).map X) + (pairs ((List.range (2 * j)).map W)).countP fun p => Hit p := by
  rw [pairs_range_map]
  induction j with
  | zero => rfl
  | succ j ih =>
    have hout : (counted (W (2 * j)) (W (2 * j + 1)) (X (found orc j))).toNat =
        (X (found orc j)).toNat + if Hit (W (2 * j), W (2 * j + 1)) then 1 else 0 := by
      have h := hX (found orc j)
      rw [counted]
      split
      · rw [BitVec.toNat_add, show (1 : Rng32).toNat = 1 from rfl, Nat.mod_eq_of_lt h]
      · rfl
    rw [List.range_succ, List.map_append, List.map_append, List.map_append, sumNat_append,
      List.zip_append (by simp), List.countP_append, List.countP_append, found_succ]
    by_cases ho : orc j
    · have htok : sumNat [applicationOut orc W X j] =
          (X (found orc j)).toNat + if Hit (W (2 * j), W (2 * j + 1)) then 1 else 0 := by
        simp [sumNat, applicationOut, ho, hout]
      have hin : sumNat ((List.range (found orc j + 1)).map X) =
          sumNat ((List.range (found orc j)).map X) + (X (found orc j)).toNat := by
        rw [List.range_succ, List.map_append, sumNat_append]
        simp [sumNat]
      simp only [List.map_cons, List.map_nil, htok, ho, if_true, hin, List.zip_cons_cons, List.zip_nil_left,
        List.countP_singleton, decide_eq_true_eq, not_missed_true, if_false]
      omega
    · have htok : sumNat [applicationOut orc W X j] = 0 := by simp [sumNat, applicationOut, ho]
      simp only [Bool.not_eq_true] at ho
      simp only [List.map_cons, List.map_nil, htok, ho, Bool.false_eq_true, if_false, Nat.add_zero, List.zip_cons_cons,
        List.zip_nil_left, List.countP_singleton, decide_eq_true_eq, missed_false]
      omega

/-! ## The balance of the chain -/

section
variable (S : ℕ → RngState) (sched : List (Proc n))

/-- What a run shows of application `i`, between iterations, after `k` of them. -/
structure Passed (g : Config (network n S)) (i : Fin n) (k : ℕ) : Prop where
  words : g.consumed (.rng i) = (List.range (2 * k)).map (rngWord S i)
  polls : g.polls (.application i) = (List.range k).map (g.oracle (.application i))
  tokens : g.consumed (.o i.castSucc) =
    (List.range (found (g.oracle (.application i)) k)).map (oTokens S g.oracle i.castSucc)
  written : g.hist (.o i.succ) = (List.range k).map (oTokens S g.oracle i.succ)

theorem exists_passed (hidle : Idle ((network n S).run sched)) (i : Fin n) :
    ∃ k, Passed S ((network n S).run sched) i k := by
  obtain ⟨m, ht, hm⟩ := run_keeps (localInv_conf (conf_exists fun _ _ _ _ h => conf_body h))
    (fun p => ⟨0, init_round p⟩) sched (agrees_oracle ((network n S).run sched))
  have hi := hm (.application i)
  have hret := hidle i
  have hcons : ∀ c, ((network n S).run sched).consumed c =
      (List.range (((network n S).run sched).rd c)).map (stream S ((network n S).run sched).oracle c) := by
    intro c
    have hle := rd_run_le (N := network n S) sched c
    rw [ht.hist, List.length_map, List.length_range] at hle
    rw [Config.consumed, ht.hist, ← List.map_take, List.take_range, Nat.min_eq_left hle]
  cases hloc : ((network n S).run sched).loc (.application i) with
  | ret s =>
    rw [hloc] at hi
    obtain ⟨k, hrng, hrd, hwr, hpolls⟩ := hi
    refine ⟨k, ?_, ?_, ?_, ?_⟩
    · rw [hcons, ht.rd, reader_rng, hrng]; rfl
    · rw [ht.polls, hpolls]
    · rw [hcons, ht.rd, reader_o, hrd]; rfl
    · rw [ht.hist, writer_o, hwr]; rfl
  | read c k => rw [hloc] at hret; cases hret
  | readNb c k => rw [hloc] at hret; cases hret
  | write c v k => rw [hloc] at hret; cases hret

/-- The source sends zeros. -/
theorem sumNat_consumed_zero : sumNat (((network n S).run sched).consumed (.o 0)) = 0 := by
  have hhist := hist_eq (N := network n S) (σ := stream S ((network n S).run sched).oracle) init_round sched
    (fun _ _ _ _ h => conf_body h) (.o 0)
  rw [Config.consumed, hhist, ← List.map_take, sumNat, List.map_map]
  simp [stream, Function.comp_def]

theorem sumNat_hist (c : Fin (n + 1)) :
    sumNat (((network n S).run sched).hist (.o c)) =
      sumNat (((network n S).run sched).consumed (.o c)) + sumNat (((network n S).run sched).fifo (.o c)) := by
  rw [← sumNat_append, Config.consumed, Config.fifo, List.take_append_drop]

variable (hn : n < 2 ^ 32) (hidle : Idle ((network n S).run sched))
include hn hidle

theorem application_balance (i : Fin n) :
    sumNat (((network n S).run sched).hist (.o i.succ)) +
        (polled ((network n S).run sched) i).countP (fun z => Missed z) =
      sumNat (((network n S).run sched).consumed (.o i.castSucc)) +
        (pairs (((network n S).run sched).consumed (.rng i))).countP fun p => Hit p := by
  obtain ⟨k, hk⟩ := exists_passed S sched hidle i
  have hX : ∀ j, (oTokens S ((network n S).run sched).oracle i.castSucc j).toNat + 1 < 2 ^ 32 := by
    intro j
    have hle := toNat_oTokens_le S ((network n S).run sched).oracle hn i.castSucc j
    have hi := i.isLt
    simp only [Fin.val_castSucc] at hle
    omega
  rw [polled, hk.written, hk.polls, hk.tokens, hk.words, oTokens_succ]
  exact sumNat_applicationOut _ (rngWord S i) _ hX k

/-- Along the chain every FIFO gives back what it took, so the hits that no poll missed are delivered or queued. -/
theorem delivered_add_queued_add_lost :
    delivered ((network n S).run sched) + queued ((network n S).run sched) + lost ((network n S).run sched) =
      hits ((network n S).run sched) := by
  have hstages := Finset.sum_congr (rfl : (Finset.univ : Finset (Fin n)) = Finset.univ)
    fun i _ => application_balance S sched hn hidle i
  have hfifos := Finset.sum_congr (rfl : (Finset.univ : Finset (Fin n)) = Finset.univ)
    fun i _ => sumNat_hist S sched i.succ
  rw [Finset.sum_add_distrib, Finset.sum_add_distrib] at hstages
  rw [Finset.sum_add_distrib] at hfifos
  have hzero := sumNat_consumed_zero S sched
  have hends := Fin.sum_univ_succ fun i : Fin (n + 1) => sumNat (((network n S).run sched).consumed (.o i))
  rw [Fin.sum_univ_castSucc, hzero] at hends
  simp only [delivered, queued, lost, hits]
  omega

end

/-- **No sample is lost but by a missed poll**: in every configuration between iterations, the delivered and the
    queued values add up to the hits drawn iff no application that missed its poll had drawn a hit. -/
theorem noSampleLost_iff (S : ℕ → RngState) (sched : List (Proc (NRMG - 1)))
    (hidle : Idle ((network (NRMG - 1) S).run sched)) :
    delivered ((network (NRMG - 1) S).run sched) + queued ((network (NRMG - 1) S).run sched) =
        hits ((network (NRMG - 1) S).run sched) ↔
      ∀ i, ∀ z ∈ polled ((network (NRMG - 1) S).run sched) i, ¬ Missed z := by
  have hsum := delivered_add_queued_add_lost S sched (by decide) hidle
  have hlost : lost ((network (NRMG - 1) S).run sched) = 0 ↔
      ∀ i, ∀ z ∈ polled ((network (NRMG - 1) S).run sched) i, ¬ Missed z := by
    simp [lost, Finset.sum_eq_zero_iff, List.countP_eq_zero]
  rw [← hlost]
  omega

/-- Two states reach `rng_instance` 0, whose words are `0x990678ce` and `0x591be14`, and application 0 draws them
    before the source has sent anything. -/
def earlyTurns : List (Proc (NRMG - 1)) :=
  List.replicate 4 .stateTransitionMerge ++ List.replicate 6 .padS ++
    List.replicate 8 (.rngInstance ⟨0, by decide⟩) ++ List.replicate 5 (.application ⟨0, by decide⟩)

/-- The same with a zero waiting in `o[0]`. -/
def lateTurns : List (Proc (NRMG - 1)) := List.replicate 2 .dummyStream ++ earlyTurns

theorem noSampleLost_iff_late :
    delivered ((network (NRMG - 1) (rootState (INIT_STATE 0))).run lateTurns) +
        queued ((network (NRMG - 1) (rootState (INIT_STATE 0))).run lateTurns) =
        hits ((network (NRMG - 1) (rootState (INIT_STATE 0))).run lateTurns) ↔
      ∀ i, ∀ z ∈ polled ((network (NRMG - 1) (rootState (INIT_STATE 0))).run lateTurns) i, ¬ Missed z :=
  noSampleLost_iff (rootState (INIT_STATE 0)) lateTurns (by decide +kernel)

/-- The hit of `earlyTurns` leaves application 0 as a zero. -/
theorem sampleLost : ¬ ∀ (S : ℕ → RngState) (sched : List (Proc (NRMG - 1))), Idle ((network (NRMG - 1) S).run sched) →
    delivered ((network (NRMG - 1) S).run sched) + queued ((network (NRMG - 1) S).run sched) =
      hits ((network (NRMG - 1) S).run sched) := by
  intro h
  have hhits := h (rootState (INIT_STATE 0)) earlyTurns (by decide +kernel)
  exact absurd hhits (by decide +kernel)

end ThundeRiNG.Estpi
