import ThundeRiNG.Lib.Fair
import ThundeRiNG.Rng.Functions

/-!
# Stream kernels shared by the units (`fpga/rng/src/stream_operation.h`, `rng/rng_start.cpp`, `rng/rng_end.cpp`)

A kernel is handed its streams as what it may do with them: a read, a write, or a poll. Each definition is one
pass of the kernel's `while (1)`. An AXI packet is its `data` field, the only one these kernels read or set.

| here | there |
| --- | --- |
| `axisToHlsStream`, `hlsToAxisStream` | `stream_operation.h:55-76` |
| `sinkStream`, `dummyStream`          | `stream_operation.h:18-42` |
| `tokenSource`                        | an environment that offers a given sequence of tokens |
-/

namespace ThundeRiNG

open Kahn

section
variable {Chan : Type} {V : Chan → Type} {A : Type}

def axisToHlsStream (inp : Prog V A) (out : A → Prog V Unit) : Prog V Unit := do
  let sdata ← inp
  out sdata

def hlsToAxisStream (inp : Prog V A) (out : A → Prog V Unit) : Prog V Unit := do
  let data ← inp
  out data

def sinkStream (stream : Prog V A) : Prog V Unit := do
  let _ ← stream

def dummyStream (stream : Rng32 → Prog V Unit) : Prog V Unit := stream 0

def tokenSource (out : A → Prog V Unit) (tokens : ℕ → A) (i : ℕ) : Prog V ℕ := do
  out (tokens i)
  return i + 1

/-- `rng_start` is the source of zeros. -/
theorem tokenSource_zero (out : Rng32 → Prog V Unit) (i : ℕ) :
    tokenSource out (fun _ => 0) i = (do dummyStream out; return i + 1) := rfl

end

/-! ## What pass `i` of a kernel does -/

section
variable {Chan : Type} {V : Chan → Type} {Proc : Type} [DecidableEq Chan] {N : Network V Proc}
  {σ : (c : Chan) → ℕ → V c} {orc : Proc → ℕ → Bool} {G : Guard Chan} {p : Proc} {n : Counts Chan} {a b : Chan} {i : ℕ}

/-- A relay reads token `i` of `a` and writes it as token `i` of `b`. -/
theorem conf_axisToHlsStream {out : V a → Prog V Unit} {Q : Unit → Counts Chan → Prop} (ha : N.reader a = p)
    (hb : N.writer b = p) (hr : G.read a i) (hw : G.write b i) (hrd : n.rd a = i) (hwr : n.wr b = i)
    (hout : out (σ a i) = .put b (σ b i)) (hQ : Q () ((n.addRd a).addWr b)) :
    Conf N σ orc G p (axisToHlsStream (.get a) out) n Q := by
  unfold axisToHlsStream
  rw [conf_bind, conf_get, hrd, hout, conf_put, Counts.addRd_wr, hwr]
  exact ⟨ha, hr, hb, hw, rfl, hQ⟩

theorem conf_hlsToAxisStream {out : V a → Prog V Unit} {Q : Unit → Counts Chan → Prop} (ha : N.reader a = p)
    (hb : N.writer b = p) (hr : G.read a i) (hw : G.write b i) (hrd : n.rd a = i) (hwr : n.wr b = i)
    (hout : out (σ a i) = .put b (σ b i)) (hQ : Q () ((n.addRd a).addWr b)) :
    Conf N σ orc G p (hlsToAxisStream (.get a) out) n Q :=
  conf_axisToHlsStream ha hb hr hw hrd hwr hout hQ

theorem conf_sinkStream {Q : Unit → Counts Chan → Prop} (ha : N.reader a = p) (hr : G.read a i) (hrd : n.rd a = i)
    (hQ : Q () (n.addRd a)) : Conf N σ orc G p (sinkStream (.get a)) n Q := by
  unfold sinkStream
  rw [conf_bind, conf_get, hrd]
  exact ⟨ha, hr, hQ⟩

theorem conf_tokenSource {A : Type} {out : A → Prog V Unit} {tokens : ℕ → A} {Q : ℕ → Counts Chan → Prop}
    (hb : N.writer b = p) (hw : G.write b i) (hwr : n.wr b = i) (hout : out (tokens i) = .put b (σ b i))
    (hQ : Q (i + 1) (n.addWr b)) : Conf N σ orc G p (tokenSource out tokens i) n Q := by
  unfold tokenSource
  rw [conf_bind, hout, conf_put, hwr]
  exact ⟨hb, hw, rfl, hQ⟩

end

/-! ## A pass whose channels are all due at the same time is in time -/

section
variable {Chan : Type} {V : Chan → Type} {Proc : Type} [DecidableEq Chan] {N : Network V Proc} {live drained : Chan → Prop}
  {T : Timetable N live} {P : Proc → Prop} {H τ : ℕ} {p : Proc} {n : Counts Chan} {a b : Chan}

theorem inTime_axisToHlsStream {out : V a → Prog V Unit} {f : V a → V b} {Q : Unit → Counts Chan → Prop}
    (ha : N.reader a = p) (hb : N.writer b = p) (hla : P p → live a) (hlb : P p → live b) (hdue : T.Due p n τ)
    (hD : T.D a (n.rd a) = τ) (hW : T.W b (n.wr b) = τ) (hout : ∀ v, out v = .put b (f v))
    (hQ : Q () ((n.addRd a).addWr b)) : T.InTime P drained H p (axisToHlsStream (.get a) out) n Q := by
  unfold axisToHlsStream
  rw [Timetable.inTime_bind, Timetable.inTime_get]
  refine ⟨ha, hdue.read hla hD, fun v => ?_⟩
  rw [hout, Timetable.inTime_put]
  exact ⟨hb, (hdue.addRd a).write hlb hW, hQ⟩

theorem inTime_sinkStream {Q : Unit → Counts Chan → Prop} (ha : N.reader a = p) (hla : P p → live a) (hdue : T.Due p n τ)
    (hD : T.D a (n.rd a) = τ) (hQ : Q () (n.addRd a)) : T.InTime P drained H p (sinkStream (.get a)) n Q := by
  unfold sinkStream
  rw [Timetable.inTime_bind, Timetable.inTime_get]
  exact ⟨ha, hdue.read hla hD, fun _ => hQ⟩

theorem inTime_tokenSource {A : Type} {out : A → Prog V Unit} {tokens : ℕ → A} {f : A → V b} {i : ℕ}
    {Q : ℕ → Counts Chan → Prop} (hb : N.writer b = p) (hlb : P p → live b) (hdue : T.Due p n τ)
    (hW : T.W b (n.wr b) = τ) (hout : ∀ v, out v = .put b (f v)) (hQ : Q (i + 1) (n.addWr b)) :
    T.InTime P drained H p (tokenSource out tokens i) n Q := by
  unfold tokenSource
  rw [Timetable.inTime_bind, hout, Timetable.inTime_put]
  exact ⟨hb, hdue.write hlb hW, hQ⟩

end

end ThundeRiNG
