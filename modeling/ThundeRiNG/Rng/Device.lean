import ThundeRiNG.Lib.Place
import ThundeRiNG.Rng.Rsgu
import ThundeRiNG.Rng.SouFair
import ThundeRiNG.Rng.SouMixed

/-!
# The whole device, from the seeds to the output buffer

The units are wired as `automation/template/gen_link.c` writes it: the nine lanes and their merge feed the kernels with
root states, `rng_start` feeds them with zeros, `rng_main` adds what comes out to the words of `mem_read`, and
`mem_write` stores the sums. `host.cpp` launches the two memory kernels together, several times, over the same buffers.

| here | there |
| --- | --- |
| `rngMain`             | `rng/rng_main.cpp:31-48`; the kernel restarts after `break`, so a pass ends the same way on both paths |
| `memRead`, `memWrite` | `top/mem_read.cpp:21-28`, `top/mem_write.cpp:21-26`, one iteration of the loop |
| `launches`            | how often the loop of `host.cpp:114-120` starts them |
| `network`             | `gen_link.c:3-15`, `:69-97`; the two units are placed as they are in `Rsgu` and `Sou` |

The iterations of all launches are numbered through: iteration `i` is the one of launch `i / size` with loop variable
`i % size`. Between two launches the host waits; here `mem_read` may run ahead, which only adds interleavings.
-/

namespace ThundeRiNG.Device

open Kahn Gf2

/-! ## The kernels around the units -/

section
variable {Chan : Type} {V : Chan → Type}

def rngMain (rng input : Prog V Rng32) (output : Rng32 → Prog V Unit) : Prog V Unit := do
  let v ← input
  let r ← rng
  output (v + r)

def memRead (mem : ℕ → Rng32) (size launches : ℕ) (stream : Rng32 → Prog V Unit) (i : ℕ) : Prog V ℕ :=
  if i < launches * size then do
    let a := mem (i % size)
    stream a
    return i + 1
  else return i

def memWrite (stream : Prog V Rng32) (size launches : ℕ) (s : ℕ × (ℕ → Rng32)) : Prog V (ℕ × (ℕ → Rng32)) :=
  if s.1 < launches * size then do
    let v ← stream
    return (s.1 + 1, Function.update s.2 (s.1 % size) v)
  else return s

end

/-! ## The network -/

inductive Chan (CUs : ℕ) where
  | lane (i : Fin 9)
  | input
  | output
  | sou (c : Sou.Chan CUs)
deriving DecidableEq

/-- The ends of the sequence-output unit are real kernels here, under the names they have there. -/
inductive Proc (CUs : ℕ) where
  | ssrngStateUpdate (i : Fin 9)
  | memRead
  | memWrite
  | sou (p : Sou.Proc CUs)
deriving DecidableEq

variable {CUs : ℕ}

abbrev Token : Chan CUs → Type
  | .lane _ => RngState
  | .input => Rng32
  | .output => Rng32
  | .sou c => Sou.Token c

abbrev Static : Proc CUs → Type
  | .ssrngStateUpdate _ => RngState
  | .memRead => ℕ
  | .memWrite => ℕ × (ℕ → Rng32)
  | .sou .ssrngStateMerge => Unit
  | .sou .rngStart => Unit
  | .sou p => Sou.Static p

/-- `out` of the merge is the link into the first kernel. -/
def rsguPlace : Placement Rsgu.Token (Token : Chan CUs → Type) where
  chan
    | .input i => .lane i
    | .out => .sou (.sLink .ssrngStateMergeOut)
  inj := by
    intro c c' h
    cases c <;> cases c' <;> simp_all
  val
    | .input _ => Equiv.refl _
    | .out => Equiv.refl _

def souPlace : Placement (Sou.Token : Sou.Chan CUs → Type) (Token : Chan CUs → Type) where
  chan := .sou
  inj _ _ h := Chan.sou.inj h
  val _ := Equiv.refl _

def rootStates : ℕ → RngState := rootState (INIT_STATE 0)

/-- The sequence-output unit as this device feeds it. -/
abbrev unit (CUs axiDepth : ℕ) : Network (Sou.Token : Sou.Chan CUs → Type) (Sou.Proc CUs) :=
  Sou.network CUs axiDepth rootStates fun _ => 0

def network (CUs axiDepth : ℕ) (mem out : ℕ → Rng32) (size launches : ℕ) :
    Network (Token : Chan CUs → Type) (Proc CUs) where
  S := Static
  init
    | .ssrngStateUpdate i => INIT_STATE i
    | .memRead => 0
    | .memWrite => (0, out)
    | .sou .ssrngStateMerge => ()
    | .sou .rngStart => ()
    | .sou .rngEnd => ()
    | .sou .rngMain => ()
    | .sou (.sToHls _) => ()
    | .sou (.oToHls _) => ()
    | .sou (.leafStateStream _ _) => ()
    | .sou (.instanceStream k i) => (unit CUs axiDepth).init (.instanceStream k i)
    | .sou (.sToAxis _) => ()
    | .sou (.oToAxis _) => ()
  body
    | .ssrngStateUpdate i => fun s => ((Rsgu.network fun _ => axiDepth).body (.ssrngStateUpdate i) s).place rsguPlace
    | .memRead => memRead mem size launches (.put (V := Token) Chan.input)
    | .memWrite => memWrite (.get (V := Token) Chan.output) size launches
    | .sou .ssrngStateMerge => fun s => ((Rsgu.network fun _ => axiDepth).body .ssrngStateMerge s).place rsguPlace
    | .sou .rngStart => fun _ => dummyStream (.put (V := Token) (Chan.sou (.oLink .rngStartOutput)))
    | .sou .rngMain => fun _ =>
      rngMain (.get (V := Token) (Chan.sou (.oLink (linkStart CUs .rngMainRng)))) (.get (V := Token) Chan.input)
        (.put (V := Token) Chan.output)
    | .sou .rngEnd => fun s => ((unit CUs axiDepth).body .rngEnd s).place souPlace
    | .sou (.sToHls k) => fun s => ((unit CUs axiDepth).body (.sToHls k) s).place souPlace
    | .sou (.oToHls k) => fun s => ((unit CUs axiDepth).body (.oToHls k) s).place souPlace
    | .sou (.leafStateStream k i) => fun s => ((unit CUs axiDepth).body (.leafStateStream k i) s).place souPlace
    | .sou (.instanceStream k i) => fun s => ((unit CUs axiDepth).body (.instanceStream k i) s).place souPlace
    | .sou (.sToAxis k) => fun s => ((unit CUs axiDepth).body (.sToAxis k) s).place souPlace
    | .sou (.oToAxis k) => fun s => ((unit CUs axiDepth).body (.oToAxis k) s).place souPlace
  depth
    | .lane _ => axiDepth
    | .input => axiDepth
    | .output => axiDepth
    | .sou c => (unit CUs axiDepth).depth c
  reader
    | .lane _ => .sou .ssrngStateMerge
    | .input => .sou .rngMain
    | .output => .memWrite
    | .sou c => .sou ((unit CUs axiDepth).reader c)
  writer
    | .lane i => .ssrngStateUpdate i
    | .input => .memRead
    | .output => .sou .rngMain
    | .sou c => .sou ((unit CUs axiDepth).writer c)

/-! ## The streams -/

section
variable (mem out : ℕ → Rng32) (size launches : ℕ) (orc : Proc CUs → ℕ → Bool)

/-- The outcomes of the polls of the sequence-output unit. -/
def souPolls : Sou.Proc CUs → ℕ → Bool := fun p => orc (.sou p)

/-- Word `n` of the random sequence. -/
def randomWord (n : ℕ) : Rng32 := Sou.passed rootStates (fun _ => 0) (souPolls orc) CUs n

def stream : (c : Chan CUs) → ℕ → Token c
  | .lane i => Rsgu.stream (.input i)
  | .input => fun n => mem (n % size)
  | .output => fun n => mem (n % size) + randomWord orc n
  | .sou c => Sou.stream rootStates (fun _ => 0) (souPolls orc) c

/-- The output buffer after `i` iterations of `mem_write`. -/
def stored : ℕ → ℕ → Rng32
  | 0 => out
  | i + 1 => Function.update (stored i) (i % size) (mem (i % size) + randomWord orc i)

/-- Before its pass `i`, a process has used each of its channels `i` times; the memory kernels stop in time. -/
def Round : (p : Proc CUs) → ℕ → Static p → Counts (Chan CUs) → Prop
  | .ssrngStateUpdate l, i, s, n => Rsgu.Round (.ssrngStateUpdate l) i s (n.within rsguPlace)
  | .memRead, _, s, n => s = n.wr .input ∧ s ≤ launches * size
  | .memWrite, _, s, n => s = (n.rd .output, stored mem out size orc (n.rd .output)) ∧ s.1 ≤ launches * size
  | .sou .ssrngStateMerge, i, s, n => Rsgu.Round .ssrngStateMerge i s (n.within rsguPlace)
  | .sou .rngStart, i, _, n => n.wr (.sou (.oLink .rngStartOutput)) = i
  | .sou .rngMain, i, _, n =>
    n.rd (.sou (.oLink (linkStart CUs .rngMainRng))) = i ∧ n.rd .input = i ∧ n.wr .output = i
  | .sou .rngEnd, i, s, n => Sou.Round (souPolls orc) .rngEnd i s (n.within souPlace)
  | .sou (.sToHls k), i, s, n => Sou.Round (souPolls orc) (.sToHls k) i s (n.within souPlace)
  | .sou (.oToHls k), i, s, n => Sou.Round (souPolls orc) (.oToHls k) i s (n.within souPlace)
  | .sou (.leafStateStream k l), i, s, n => Sou.Round (souPolls orc) (.leafStateStream k l) i s (n.within souPlace)
  | .sou (.instanceStream k l), i, s, n => Sou.Round (souPolls orc) (.instanceStream k l) i s (n.within souPlace)
  | .sou (.sToAxis k), i, s, n => Sou.Round (souPolls orc) (.sToAxis k) i s (n.within souPlace)
  | .sou (.oToAxis k), i, s, n => Sou.Round (souPolls orc) (.oToAxis k) i s (n.within souPlace)

variable {axiDepth : ℕ} {mem out : ℕ → Rng32} {size launches : ℕ} {orc : Proc CUs → ℕ → Bool} {i : ℕ}
  {n : Counts (Chan CUs)}

theorem init_round (p : Proc CUs) :
    Round mem out size launches orc p 0 ((network CUs axiDepth mem out size launches).init p) .zero := by
  cases p with
  | ssrngStateUpdate l => exact ⟨(Rsgu.init_state_eq l).trans (by simp [Rsgu.stream]), rfl⟩
  | memRead => exact ⟨rfl, Nat.zero_le _⟩
  | memWrite => exact ⟨rfl, Nat.zero_le _⟩
  | sou p =>
    have hsou : Sou.Round (souPolls orc) p 0 ((unit CUs axiDepth).init p) .zero := Sou.init_round p
    cases p with
    | ssrngStateMerge => exact ⟨fun _ => rfl, rfl⟩
    | rngStart => exact rfl
    | rngMain => exact ⟨rfl, rfl, rfl⟩
    | _ => exact hsou

theorem stream_rsgu (c : Rsgu.Chan) (i : ℕ) :
    (rsguPlace : Placement Rsgu.Token (Token : Chan CUs → Type)).val c (Rsgu.stream c i) =
      stream mem size orc (rsguPlace.chan c) i := by
  cases c <;> rfl

theorem sameEnds_rsgu_lane (l : Fin 9) :
    SameEnds (Rsgu.network fun _ => axiDepth) (network CUs axiDepth mem out size launches) rsguPlace
      (.ssrngStateUpdate l) (.ssrngStateUpdate l) where
  reader c h := by cases c <;> simp [Rsgu.network] at h
  writer c h := by
    cases c with
    | input i => simp only [Rsgu.writer_input, Rsgu.Proc.ssrngStateUpdate.injEq] at h; rw [h]; rfl
    | out => simp [Rsgu.network] at h

theorem sameEnds_rsgu_merge :
    SameEnds (Rsgu.network fun _ => axiDepth) (network CUs axiDepth mem out size launches) rsguPlace
      .ssrngStateMerge (.sou .ssrngStateMerge) where
  reader c h := by
    cases c with
    | input i => rfl
    | out => simp [Rsgu.network] at h
  writer c h := by
    cases c with
    | input i => simp [Rsgu.network] at h
    | out => rfl

theorem sameEnds_sou (p : Sou.Proc CUs) :
    SameEnds (unit CUs axiDepth) (network CUs axiDepth mem out size launches) souPlace p (.sou p) where
  reader _ h := congrArg Proc.sou h
  writer _ h := congrArg Proc.sou h

/-- A pass of a kernel of the sequence-output unit. -/
theorem conf_sou (hC : 1 ≤ CUs) {p : Sou.Proc CUs} {s : Sou.Static p}
    (h : Sou.Round (souPolls orc) p i s (n.within souPlace)) :
    Conf (network CUs axiDepth mem out size launches) (stream mem size orc) orc .free (.sou p)
      (((unit CUs axiDepth).body p s).place souPlace) n
      fun s m => Sou.Round (souPolls orc) p (i + 1) s (m.within souPlace) :=
  conf_place (sameEnds_sou p) (fun _ _ => rfl) rfl (Sou.conf_body hC (Sou.served_free p i) h)

theorem conf_rngMain (h : Round mem out size launches orc (.sou .rngMain) i () n) :
    Conf (network CUs axiDepth mem out size launches) (stream mem size orc) orc .free (.sou .rngMain)
      ((network CUs axiDepth mem out size launches).body (.sou .rngMain) ()) n
      (Round mem out size launches orc (.sou .rngMain) (i + 1)) := by
  obtain ⟨hrng, hinp, hout⟩ := h
  have hr : (unit CUs axiDepth).reader (.oLink (linkStart CUs .rngMainRng)) = .rngMain := Sou.reader_rngMain ..
  have hword : Sou.stream rootStates (fun _ => 0) (souPolls orc) (.oLink (linkStart CUs .rngMainRng)) i =
      randomWord orc i := by
    rw [linkStart_of_mem mem_rngMainRng]; rfl
  have hsum : mem (n.rd .input % size) + Sou.stream rootStates (fun _ => 0) (souPolls orc)
      (.oLink (linkStart CUs .rngMainRng)) (n.rd (.sou (.oLink (linkStart CUs .rngMainRng)))) =
      mem (n.wr .output % size) + randomWord orc (n.wr .output) := by rw [hinp, hrng, hout, hword]
  refine ⟨rfl, trivial, congrArg Proc.sou hr, trivial, rfl, trivial, hsum, ?_, ?_, ?_⟩
  · simp [hrng]
  · simp [hinp]
  · simp [hout]

theorem conf_memRead {s : ℕ} (h : Round mem out size launches orc .memRead i s n) :
    Conf (network CUs axiDepth mem out size launches) (stream mem size orc) orc .free .memRead
      (memRead mem size launches (.put (V := Token) Chan.input) s) n
      (Round mem out size launches orc .memRead (i + 1)) := by
  obtain ⟨rfl, hle⟩ := h
  unfold memRead
  split
  · rename_i hlt
    rw [conf_bind, conf_put]
    exact ⟨rfl, trivial, rfl, by simp, hlt⟩
  · exact ⟨rfl, hle⟩

theorem conf_memWrite {s : ℕ × (ℕ → Rng32)} (h : Round mem out size launches orc .memWrite i s n) :
    Conf (network CUs axiDepth mem out size launches) (stream mem size orc) orc .free .memWrite
      (memWrite (.get (V := Token) Chan.output) size launches s) n
      (Round mem out size launches orc .memWrite (i + 1)) := by
  obtain ⟨rfl, hle⟩ := h
  unfold memWrite
  split
  · rename_i hlt
    rw [conf_bind, conf_get]
    exact ⟨rfl, trivial, by simp [stored, stream], hlt⟩
  · exact ⟨rfl, hle⟩

/-- The specification of a pass of any kernel. -/
theorem conf_body (hC : 1 ≤ CUs) {p : Proc CUs} {s : Static p} (h : Round mem out size launches orc p i s n) :
    Conf (network CUs axiDepth mem out size launches) (stream mem size orc) orc .free p
      ((network CUs axiDepth mem out size launches).body p s) n (Round mem out size launches orc p (i + 1)) := by
  cases p with
  | ssrngStateUpdate l =>
    have hrsgu := Rsgu.conf_body (fun _ => axiDepth) (fun _ => orc (.ssrngStateUpdate l)) (.ssrngStateUpdate l) h
    exact conf_place (sameEnds_rsgu_lane l) stream_rsgu rfl hrsgu
  | memRead => exact conf_memRead h
  | memWrite => exact conf_memWrite h
  | sou p =>
    cases p with
    | ssrngStateMerge =>
      have hrsgu := Rsgu.conf_body (fun _ => axiDepth) (fun _ => orc (.sou .ssrngStateMerge)) .ssrngStateMerge (s := ()) h
      exact conf_place sameEnds_rsgu_merge stream_rsgu rfl hrsgu
    | rngStart =>
      have hwr : n.wr (.sou (.oLink .rngStartOutput)) = i := h
      have hend : (n.addWr (.sou (.oLink .rngStartOutput))).wr (.sou (.oLink .rngStartOutput)) = i + 1 := by simp [hwr]
      exact ⟨rfl, trivial, rfl, hend⟩
    | rngMain => exact conf_rngMain h
    | rngEnd => exact conf_sou (p := .rngEnd) hC (s := s) h
    | sToHls k => exact conf_sou (p := .sToHls k) hC (s := s) h
    | oToHls k => exact conf_sou (p := .oToHls k) hC (s := s) h
    | leafStateStream k l => exact conf_sou (p := .leafStateStream k l) hC (s := s) h
    | instanceStream k l => exact conf_sou (p := .instanceStream k l) hC (s := s) h
    | sToAxis k => exact conf_sou (p := .sToAxis k) hC (s := s) h
    | oToAxis k => exact conf_sou (p := .oToAxis k) hC (s := s) h

/-! ## The output buffer -/

variable (mem out size launches orc)

/-- What `mem_write` has in hand at each point: between iterations the buffer, and before a read an iteration to do. -/
def Buffer : (p : Proc CUs) → Prog (Token : Chan CUs → Type) (Static p) → Counts (Chan CUs) → Prop
  | .memWrite, .ret s, n => s = (n.rd .output, stored mem out size orc (n.rd .output)) ∧ s.1 ≤ launches * size
  | .memWrite, .read _ _, n => n.rd .output < launches * size
  | .memWrite, _, _ => False
  | _, _, _ => True

variable {mem out size launches orc}

theorem along_buffer {p : Proc CUs} {s : Static p} (h : Round mem out size launches orc p i s n) :
    Along (stream mem size orc) (orc p) (Buffer mem out size launches orc p)
      ((network CUs axiDepth mem out size launches).body p s) n := by
  cases p with
  | memWrite =>
    obtain ⟨rfl, hle⟩ := h
    simp only [network, memWrite]
    split
    · rename_i hlt
      rw [along_get_bind]
      exact ⟨hlt, by simp [stored, stream], hlt⟩
    · exact ⟨rfl, hle⟩
  | _ => exact Sou.along_of_forall (fun _ _ => trivial) _ _

variable (axiDepth mem out size launches) in
/-- Whenever a run stops, `mem_write` is between two iterations, with the buffer that its iterations so far stored, or
    it has an iteration to finish. -/
theorem loc_memWrite (hC : 1 ≤ CUs) (sched : List (Proc CUs)) :
    let g := (network CUs axiDepth mem out size launches).run sched
    (∀ s, g.loc .memWrite = .ret s →
      s = (g.rd .output, stored mem out size g.oracle (g.rd .output)) ∧ s.1 ≤ launches * size) ∧
    ((∃ s, g.loc .memWrite = .ret s) ∨ g.rd .output < launches * size) := by
  intro g
  have hstart : ∀ p, Buffer mem out size launches g.oracle p
      (.ret ((network CUs axiDepth mem out size launches).init p)) .zero := by
    intro p
    cases p with
    | memWrite => exact ⟨rfl, Nat.zero_le _⟩
    | _ => trivial
  obtain ⟨n, ht, hb⟩ := exists_counts init_round hstart sched (fun _ _ _ _ h => conf_body hC h)
    (fun _ _ _ _ h => along_buffer h)
  have hrd : g.rd .output = (n .memWrite).rd .output := ht.rd _
  have hw := hb .memWrite
  rw [hrd]
  constructor
  · intro s hs
    rwa [show ((network CUs axiDepth mem out size launches).run sched).loc .memWrite = .ret s from hs] at hw
  · cases hx : g.loc .memWrite with
    | ret s => exact .inl ⟨s, rfl⟩
    | read c k =>
      rw [show ((network CUs axiDepth mem out size launches).run sched).loc .memWrite = .read c k from hx] at hw
      exact .inr hw
    | readNb c k =>
      rw [show ((network CUs axiDepth mem out size launches).run sched).loc .memWrite = .readNb c k from hx] at hw
      exact hw.elim
    | write c v k =>
      rw [show ((network CUs axiDepth mem out size launches).run sched).loc .memWrite = .write c v k from hx] at hw
      exact hw.elim

/-- Each cell holds the last word that was stored there. -/
theorem stored_eq {j : ℕ} (hj : j < size) (l : ℕ) :
    stored mem out size orc ((l + 1) * size) j = mem j + randomWord orc (l * size + j) := by
  have hfrom : ∀ d, j < d → d ≤ size →
      stored mem out size orc (l * size + d) j = mem j + randomWord orc (l * size + j) := by
    intro d hd
    induction d with
    | zero => omega
    | succ d ih =>
      intro hle
      have hmod : (l * size + d) % size = d := by
        rw [Nat.mul_comm, Nat.mul_add_mod, Nat.mod_eq_of_lt (by omega)]
      rw [← Nat.add_assoc, stored, hmod]
      by_cases h : j = d
      · subst h; rw [Function.update_self]
      · rw [Function.update_of_ne h]; exact ih (by omega) (by omega)
  rw [Nat.succ_mul]
  exact hfrom size hj le_rfl

end

/-! ## A launch ends -/

/-- The output chain and the memory kernels; the launches do not wait for the states. -/
def Scheduled : Chan CUs → Prop
  | .lane _ => False
  | .input => True
  | .output => True
  | .sou c => Sou.Scheduled false c

def Group : Proc CUs → Prop
  | .ssrngStateUpdate _ => False
  | .memRead => True
  | .memWrite => True
  | .sou p => Sou.Group false p

def Drained : Chan CUs → Prop
  | .sou c => Sou.Drained c
  | _ => False

def rank : Proc CUs → ℕ
  | .ssrngStateUpdate _ => 0
  | .memRead => 0
  | .sou p => Sou.rank p + 1
  | .memWrite => 20 * CUs + 5

section
variable {axiDepth : ℕ} {mem out : ℕ → Rng32} {size launches : ℕ}

theorem rank_lt (p : Proc CUs) : rank p < 20 * CUs + 4 + 2 * 1 := by
  cases p with
  | sou p => have := Sou.rank_lt p; simp only [rank]; omega
  | _ => simp only [rank]; omega

theorem rank_writer_lt_reader (hC : 1 ≤ CUs) {c : Chan CUs} (hc : Scheduled c) :
    rank ((network CUs axiDepth mem out size launches).writer c) <
      rank ((network CUs axiDepth mem out size launches).reader c) := by
  cases c with
  | lane l => exact hc.elim
  | input => exact Nat.succ_pos _
  | output => simp only [network, rank, Sou.rank]; omega
  | sou c => exact Nat.succ_lt_succ (Sou.rank_writer_lt_reader hC (Sou.Scheduled.live hc))

theorem depth_pos (hd : 0 < axiDepth) (c : Chan CUs) : 0 < (network CUs axiDepth mem out size launches).depth c := by
  cases c with
  | sou c =>
    have hpos : 0 < (unit CUs axiDepth).depth c := Sou.depth_pos hd c
    exact hpos
  | _ => exact hd

def timetable (axiDepth : ℕ) (mem out : ℕ → Rng32) (size launches : ℕ) (hC : 1 ≤ CUs) (hd : 0 < axiDepth) :
    Timetable (network CUs axiDepth mem out size launches) Scheduled :=
  .ofRank (fun _ => 1) rank (20 * CUs + 4 + 2 * 1) rank_lt (fun _ => one_pos) (fun _ hc => rank_writer_lt_reader hC hc)
    fun c _ => depth_pos hd c

/-- The times of the iterations of all launches end here. -/
def horizon (CUs size launches : ℕ) : ℕ := (20 * CUs + 4 + 2 * 1) * (1 * (launches * size))

variable {hC : 1 ≤ CUs} {hd : 0 < axiDepth}

theorem sameTimes_sou {p : Sou.Proc CUs} (hp : p ≠ .rngMain) :
    SameTimes (Sou.timetable axiDepth rootStates (fun _ => 0) hC hd false 1)
      (timetable axiDepth mem out size launches hC hd) souPlace p (.sou p) where
  D _ _ := rfl
  W _ _ := rfl
  live _ := Iff.rfl
  reader c' hc' h := by
    cases c' with
    | lane l => exact hc'.elim
    | input => exact absurd (Proc.sou.inj h).symm hp
    | output => exact absurd h (by simp [network])
    | sou c => exact ⟨c, rfl, Proc.sou.inj h⟩
  writer c' hc' h := by
    cases c' with
    | lane l => exact hc'.elim
    | input => exact absurd h (by simp [network])
    | output => exact absurd (Proc.sou.inj h).symm hp
    | sou c => exact ⟨c, rfl, Proc.sou.inj h⟩

/-- What each process keeps to between its passes. -/
def Beat (size launches : ℕ) : (p : Proc CUs) → Static p → Counts (Chan CUs) → Prop
  | .ssrngStateUpdate _, _, _ => True
  | .memRead, s, n => s = n.wr .input ∧ s ≤ launches * size
  | .memWrite, s, n => s.1 = n.rd .output ∧ s.1 ≤ launches * size
  | .sou .ssrngStateMerge, _, _ => True
  | .sou .rngMain, _, n => ∃ i, Sou.Beat .rngMain i (n.within souPlace) ∧ n.rd .input = i ∧ n.wr .output = i
  | .sou p, _, n => ∃ i, Sou.Beat p i (n.within souPlace)

variable {n : Counts (Chan CUs)}

/-- After an iteration, with everything moved on or past the horizon. -/
def After (hC : 1 ≤ CUs) (hd : 0 < axiDepth) (mem out : ℕ → Rng32) (size launches : ℕ) (p : Proc CUs)
    (n : Counts (Chan CUs)) (s : Static p) (n' : Counts (Chan CUs)) : Prop :=
  Beat size launches p s n' ∧
    (Group p → (timetable axiDepth mem out size launches hC hd).Due p n' (horizon CUs size launches) ∨
      Timetable.Advanced (network CUs axiDepth mem out size launches) Scheduled p n n')

theorem inTime_sou {p : Sou.Proc CUs} (hp : p ≠ .rngMain) {s : Sou.Static p} {i : ℕ}
    (h : Sou.Beat p i (n.within souPlace)) :
    (timetable axiDepth mem out size launches hC hd).InTime Group Drained (horizon CUs size launches) (.sou p)
      (((unit CUs axiDepth).body p s).place souPlace) n fun _ n' => Sou.Beat p (i + 1) (n'.within souPlace) ∧
        (Group (.sou p) → (timetable axiDepth mem out size launches hC hd).Due (.sou p) n' (horizon CUs size launches) ∨
          Timetable.Advanced (network CUs axiDepth mem out size launches) Scheduled (.sou p) n n') := by
  have htimes : SameTimes (Sou.timetable axiDepth rootStates (fun _ => 0) hC hd false 1)
    (timetable axiDepth mem out size launches hC hd) souPlace p (.sou p) := sameTimes_sou hp
  refine (inTime_place (sameEnds_sou p) htimes (fun h => h) (fun _ h => h) (Sou.inTime_body h)).mono fun _ n' h' => ?_
  exact ⟨h', fun _ => .inr (htimes.advanced (h.advanced hC h'))⟩

/-- All channels of `p` in the timetable have been used `i` times. -/
structure Even (axiDepth : ℕ) (mem out : ℕ → Rng32) (size launches : ℕ) (n : Counts (Chan CUs)) (p : Proc CUs) (i : ℕ) :
    Prop where
  rd : ∀ c, Scheduled c → (network CUs axiDepth mem out size launches).reader c = p → n.rd c = i
  wr : ∀ c, Scheduled c → (network CUs axiDepth mem out size launches).writer c = p → n.wr c = i

def time (p : Proc CUs) (i : ℕ) : ℕ := (20 * CUs + 4 + 2 * 1) * (1 * i) + rank p

variable {p : Proc CUs} {i : ℕ} {c : Chan CUs}

theorem timetable_D (hp : (network CUs axiDepth mem out size launches).reader c = p) (hi : n.rd c = i) :
    (timetable axiDepth mem out size launches hC hd).D c (n.rd c) = time p i := by
  subst hp hi; rfl

theorem timetable_W (hp : (network CUs axiDepth mem out size launches).writer c = p) (hi : n.wr c = i) :
    (timetable axiDepth mem out size launches hC hd).W c (n.wr c) = time p i := by
  subst hp hi; rfl

theorem Even.due (h : Even axiDepth mem out size launches n p i) :
    (timetable axiDepth mem out size launches hC hd).Due p n (time p i) where
  rd c hc hp := (timetable_D hp (h.rd c hc hp)).ge
  wr c hc hp := (timetable_W hp (h.wr c hc hp)).ge

theorem Even.advanced {n' : Counts (Chan CUs)} (h : Even axiDepth mem out size launches n p i)
    (h' : Even axiDepth mem out size launches n' p (i + 1)) :
    Timetable.Advanced (network CUs axiDepth mem out size launches) Scheduled p n n' where
  rd c hc hp := by rw [h.rd c hc hp, h'.rd c hc hp]; omega
  wr c hc hp := by rw [h.wr c hc hp, h'.wr c hc hp]; omega

theorem even_rngMain (hC : 1 ≤ CUs) (hb : Sou.Beat .rngMain i (n.within souPlace)) (hinp : n.rd .input = i)
    (hout : n.wr .output = i) : Even axiDepth mem out size launches n (.sou .rngMain) i where
  rd c hc hp := by
    cases c with
    | lane l => exact hc.elim
    | input => exact hinp
    | output => simp [network] at hp
    | sou c => exact hb.rd hc (Proc.sou.inj hp)
  wr c hc hp := by
    cases c with
    | lane l => exact hc.elim
    | input => simp [network] at hp
    | output => exact hout
    | sou c => exact hb.wr hC hc (Proc.sou.inj hp)

theorem even_memRead (hwr : n.wr .input = i) : Even axiDepth mem out size launches n .memRead i where
  rd c _ hp := by cases c <;> simp [network] at hp
  wr c _ hp := by
    cases c with
    | input => exact hwr
    | _ => simp [network] at hp

theorem even_memWrite (hrd : n.rd .output = i) : Even axiDepth mem out size launches n .memWrite i where
  rd c _ hp := by
    cases c with
    | output => exact hrd
    | _ => simp [network] at hp
  wr c _ hp := by cases c <;> simp [network] at hp

theorem inTime_rngMain (h : Beat size launches (.sou .rngMain) () n) :
    (timetable axiDepth mem out size launches hC hd).InTime Group Drained (horizon CUs size launches) (.sou .rngMain)
      ((network CUs axiDepth mem out size launches).body (.sou .rngMain) ()) n
      (After hC hd mem out size launches (.sou .rngMain) n) := by
  obtain ⟨i, hb, hinp, hout⟩ := h
  have heven : Even axiDepth mem out size launches n (.sou .rngMain) i := even_rngMain hC hb hinp hout
  have hdue : (timetable axiDepth mem out size launches hC hd).Due _ n (time _ i) := heven.due
  have hr : (network CUs axiDepth mem out size launches).reader (.sou (.oLink (linkStart CUs .rngMainRng))) =
      .sou .rngMain := congrArg Proc.sou (Sou.reader_rngMain ..)
  have hlive : Scheduled (.sou (.oLink (linkStart CUs .rngMainRng)) : Chan CUs) := ⟨_, rfl, .inl rfl⟩
  have hrng := heven.rd _ hlive hr
  refine ⟨rfl, hdue.read (c := Chan.input) (fun _ => trivial) (timetable_D rfl hinp), fun v => ⟨hr,
    (hdue.addRd _).read (fun _ => hlive) (timetable_D hr (by simp [hrng])), fun r => ⟨rfl,
    ((hdue.addRd _).addRd _).write (c := Chan.output) (fun _ => trivial) (timetable_W rfl (by simp [hout])), ?_⟩⟩⟩
  have hb' : Sou.Beat .rngMain (i + 1)
      ((((n.addRd .input).addRd (.sou (.oLink (linkStart CUs .rngMainRng)))).addWr .output).within souPlace) :=
    ⟨(), by simp [Sou.Round, Sou.evened, Counts.within, souPlace, hrng]⟩
  have hinp' : (((n.addRd .input).addRd (.sou (.oLink (linkStart CUs .rngMainRng)))).addWr .output).rd .input = i + 1 := by
    simp [hinp]
  have hout' : (((n.addRd .input).addRd (.sou (.oLink (linkStart CUs .rngMainRng)))).addWr .output).wr .output =
      i + 1 := by simp [hout]
  exact ⟨⟨i + 1, hb', hinp', hout'⟩, fun _ => .inr (heven.advanced (even_rngMain hC hb' hinp' hout'))⟩

theorem inTime_rngStart (h : Beat size launches (.sou .rngStart) () n) :
    (timetable axiDepth mem out size launches hC hd).InTime Group Drained (horizon CUs size launches) (.sou .rngStart)
      (dummyStream (.put (V := Token) (Chan.sou (.oLink .rngStartOutput)))) n
      (After hC hd mem out size launches (.sou .rngStart) n) := by
  obtain ⟨i, hb⟩ := h
  have htimes : SameTimes (Sou.timetable axiDepth rootStates (fun _ => 0) hC hd false 1)
    (timetable axiDepth mem out size launches hC hd) souPlace .rngStart (.sou .rngStart) := sameTimes_sou (by simp)
  have hlive : Scheduled (.sou (.oLink .rngStartOutput) : Chan CUs) := Sou.live_rngStartOutput hC
  have hwr : n.wr (.sou (.oLink .rngStartOutput)) = i := by
    obtain ⟨s', -, hwr⟩ := hb
    exact hwr
  have hb' : Sou.Beat .rngStart (i + 1) ((n.addWr (.sou (.oLink .rngStartOutput))).within souPlace) :=
    ⟨i + 1, rfl, by simp [Sou.evened, Counts.within, souPlace, hwr]⟩
  refine ⟨rfl, (htimes.due hb.due).write (c := Chan.sou (.oLink .rngStartOutput)) (fun _ => hlive) ?_, ⟨i + 1, hb'⟩,
    fun _ => .inr (htimes.advanced (hb.advanced hC hb'))⟩
  exact timetable_W rfl hwr

/-- Past the last iteration, nothing is left to do before the horizon. -/
theorem Even.due_horizon (h : Even axiDepth mem out size launches n p i) (hi : launches * size ≤ i) :
    (timetable axiDepth mem out size launches hC hd).Due p n (horizon CUs size launches) := by
  refine h.due.of_le ?_
  have hle := Nat.mul_le_mul_left (20 * CUs + 4 + 2 * 1) (Nat.mul_le_mul_left 1 hi)
  unfold time horizon
  omega

theorem inTime_memRead {s : ℕ} (h : Beat size launches (.memRead : Proc CUs) s n) :
    (timetable axiDepth mem out size launches hC hd).InTime Group Drained (horizon CUs size launches) .memRead
      (memRead mem size launches (.put (V := Token) Chan.input) s) n
      (After hC hd mem out size launches .memRead n) := by
  obtain ⟨rfl, hle⟩ := h
  have heven : Even axiDepth mem out size launches n .memRead (n.wr .input) := even_memRead rfl
  unfold memRead
  split
  · rename_i hlt
    refine ⟨rfl, heven.due.write (c := Chan.input) (fun _ => trivial) (timetable_W rfl rfl), ⟨by simp, hlt⟩, ?_⟩
    exact fun _ => .inr (heven.advanced (even_memRead (by simp)))
  · exact ⟨⟨rfl, hle⟩, fun _ => .inl (heven.due_horizon (by omega))⟩

theorem inTime_memWrite {s : ℕ × (ℕ → Rng32)} (h : Beat size launches (.memWrite : Proc CUs) s n) :
    (timetable axiDepth mem out size launches hC hd).InTime Group Drained (horizon CUs size launches) .memWrite
      (memWrite (.get (V := Token) Chan.output) size launches s) n
      (After hC hd mem out size launches .memWrite n) := by
  obtain ⟨hs, hle⟩ := h
  have heven : Even axiDepth mem out size launches n .memWrite s.1 := even_memWrite hs.symm
  unfold memWrite
  split
  · rename_i hlt
    refine ⟨rfl, heven.due.read (c := Chan.output) (fun _ => trivial) (timetable_D rfl hs.symm),
      fun v => ⟨⟨by simp [hs], hlt⟩, ?_⟩⟩
    exact fun _ => .inr (heven.advanced (even_memWrite (by simp [hs])))
  · exact ⟨⟨hs, hle⟩, fun _ => .inl (heven.due_horizon (by omega))⟩

theorem kept_beat (hC : 1 ≤ CUs) (hd : 0 < axiDepth) (mem out : ℕ → Rng32) (size launches : ℕ) :
    (timetable axiDepth mem out size launches hC hd).Kept Group Drained (horizon CUs size launches)
      (Beat size launches) where
  ends c hc := by
    cases c with
    | lane l => exact hc.elim
    | input => exact ⟨trivial, trivial⟩
    | output => exact ⟨trivial, trivial⟩
    | sou c => exact Sou.group_ends hc
  init p := by
    cases p with
    | ssrngStateUpdate l => trivial
    | memRead => exact ⟨rfl, Nat.zero_le _⟩
    | memWrite => exact ⟨rfl, Nat.zero_le _⟩
    | sou p =>
      cases p with
      | ssrngStateMerge => trivial
      | rngMain => exact ⟨0, Sou.beat_init _, rfl, rfl⟩
      | _ => exact ⟨0, Sou.beat_init _⟩
  body p s n h := by
    cases p with
    | ssrngStateUpdate l => exact ⟨rfl, fun hg => hg.elim, trivial, fun hg => hg.elim⟩
    | memRead => exact inTime_memRead h
    | memWrite => exact inTime_memWrite h
    | sou p =>
      cases p with
      | ssrngStateMerge =>
        -- nine reads and nine writes, none of them in the timetable
        have hno : ¬ Group (.sou .ssrngStateMerge : Proc CUs) := by simp [Group, Sou.Group]
        iterate 9 refine ⟨rfl, fun hg => absurd hg hno, fun _ => ?_⟩
        iterate 9 refine ⟨rfl, fun hg => absurd hg hno, ?_⟩
        exact ⟨trivial, fun hg => absurd hg hno⟩
      | rngMain => exact inTime_rngMain h
      | rngStart => exact inTime_rngStart h
      | rngEnd =>
        obtain ⟨i, hb⟩ := h
        exact (inTime_sou (p := .rngEnd) (by simp) (s := s) hb).mono fun _ _ h' => ⟨⟨_, h'.1⟩, h'.2⟩
      | sToHls k =>
        obtain ⟨i, hb⟩ := h
        exact (inTime_sou (p := .sToHls k) (by simp) (s := s) hb).mono fun _ _ h' => ⟨⟨_, h'.1⟩, h'.2⟩
      | oToHls k =>
        obtain ⟨i, hb⟩ := h
        exact (inTime_sou (p := .oToHls k) (by simp) (s := s) hb).mono fun _ _ h' => ⟨⟨_, h'.1⟩, h'.2⟩
      | leafStateStream k l =>
        obtain ⟨i, hb⟩ := h
        exact (inTime_sou (p := .leafStateStream k l) (by simp) (s := s) hb).mono fun _ _ h' => ⟨⟨_, h'.1⟩, h'.2⟩
      | instanceStream k l =>
        obtain ⟨i, hb⟩ := h
        exact (inTime_sou (p := .instanceStream k l) (by simp) (s := s) hb).mono fun _ _ h' => ⟨⟨_, h'.1⟩, h'.2⟩
      | sToAxis k =>
        obtain ⟨i, hb⟩ := h
        exact (inTime_sou (p := .sToAxis k) (by simp) (s := s) hb).mono fun _ _ h' => ⟨⟨_, h'.1⟩, h'.2⟩
      | oToAxis k =>
        obtain ⟨i, hb⟩ := h
        exact (inTime_sou (p := .oToAxis k) (by simp) (s := s) hb).mono fun _ _ h' => ⟨⟨_, h'.1⟩, h'.2⟩

/-! ## The contents of the output buffer -/

variable (mem out size launches) in
/-- Every launch ends: in a fair run `mem_write` gets through the iterations of all launches. -/
theorem exists_memWrite_done (hC : 1 ≤ CUs) (hd : 0 < axiDepth) {f : ℕ → Proc CUs} (hf : Fair f) :
    ∃ t, launches * size ≤ ((network CUs axiDepth mem out size launches).at f t).rd .output := by
  have hdrain : ∀ c : Chan CUs, Drained c → Group ((network CUs axiDepth mem out size launches).writer c) → ∀ t, ∃ u,
      t ≤ u ∧ (((network CUs axiDepth mem out size launches).at f u).hist c).length -
        ((network CUs axiDepth mem out size launches).at f u).rd c <
          (network CUs axiDepth mem out size launches).depth c := by
    intro c hdr hg
    cases c with
    | sou c =>
      cases c with
      | leafState k l => exact absurd hg (by simp [network, Group, Sou.Group])
      | _ => exact hdr.elim
    | _ => exact hdr.elim
  obtain ⟨t, ht⟩ := exists_due (p := Proc.memWrite) (kept_beat hC hd mem out size launches) hdrain hf le_rfl trivial
  refine ⟨t, ?_⟩
  have hdue : (20 * CUs + 4 + 2 * 1) * (1 * (launches * size)) ≤
      (20 * CUs + 4 + 2 * 1) * (1 * ((network CUs axiDepth mem out size launches).at f t).rd .output) +
        rank (.memWrite : Proc CUs) := ht.rd .output trivial rfl
  have hrank := rank_lt (.memWrite : Proc CUs)
  by_contra hlt
  have hstep := Nat.mul_le_mul_left (20 * CUs + 4 + 2 * 1) (Nat.succ_le_of_lt (Nat.lt_of_not_le hlt))
  rw [Nat.mul_succ] at hstep
  rw [Nat.one_mul, Nat.one_mul] at hdue
  omega

theorem randomWord_eq (orc : Proc CUs → ℕ → Bool) (n : ℕ) :
    randomWord orc n = xorSum (Sou.instancesFrom CUs 0) (Sou.mixed rootStates (souPolls orc) n) := by
  rw [randomWord, Sou.passed_mixed _ _ _ n le_rfl, Nat.sub_self]
  exact zero_xor _

/-- **The device**: in every fair run all launches end, and when a launch has ended its output buffer holds the input
    plus the words of the launch, taken from where the launch before stopped: each word mixes the contributions of the
    instances whose polls found a leaf word, of the one root sequence. -/
theorem launches_end (hC : 1 ≤ CUs) (hd : 0 < axiDepth) (mem out : ℕ → Rng32) (size launches : ℕ) {f : ℕ → Proc CUs}
    (hf : Fair f) :
    (∃ t, ∀ u, t ≤ u → ∃ buffer,
      ((network CUs axiDepth mem out size launches).at f u).loc .memWrite = .ret (launches * size, buffer)) ∧
    ∀ t l buffer,
      ((network CUs axiDepth mem out size launches).at f t).loc .memWrite = .ret ((l + 1) * size, buffer) →
      ∀ j < size, buffer j = mem j + xorSum (Sou.instancesFrom CUs 0)
        (Sou.mixed rootStates (souPolls ((network CUs axiDepth mem out size launches).at f t).oracle) (l * size + j)) := by
  constructor
  · obtain ⟨t, ht⟩ := exists_memWrite_done mem out size launches hC hd hf
    refine ⟨t, fun u hu => ?_⟩
    have hdone := ht.trans (rd_at_mono Chan.output hu)
    obtain ⟨hret, ⟨s, hs⟩ | hlt⟩ := loc_memWrite axiDepth mem out size launches hC ((List.range u).map f)
    · obtain ⟨hstored, hle⟩ := hret s hs
      have hfst : s.1 = launches * size := by
        refine le_antisymm hle (hdone.trans (le_of_eq ?_))
        rw [hstored]
        rfl
      exact ⟨s.2, hs.trans (by rw [← hfst]; rfl)⟩
    · exact absurd hdone (Nat.not_le.2 hlt)
  · intro t l buffer hloc j hj
    obtain ⟨hret, -⟩ := loc_memWrite axiDepth mem out size launches hC ((List.range t).map f)
    obtain ⟨hstored, -⟩ := hret _ hloc
    obtain ⟨hi, hbuffer⟩ := Prod.mk.inj hstored
    rw [hbuffer, ← hi, stored_eq hj, randomWord_eq]
    rfl

/-- All processes, as a round. -/
def turns (CUs : ℕ) : List (Proc CUs) :=
  (List.finRange 9).map .ssrngStateUpdate ++ [.memRead, .memWrite] ++ (Sou.turns CUs).map .sou

theorem turns_ne_nil (CUs : ℕ) : turns CUs ≠ [] := by simp [turns]

theorem mem_turns (p : Proc CUs) : p ∈ turns CUs := by
  cases p <;> simp [turns, Sou.mem_turns]

/-- The two launches over 1024 words of `host.cpp`, with one kernel and all kernels served in turns. -/
theorem launches_end_roundRobin :
    ∃ t, ∀ u, t ≤ u → ∃ buffer, ((network 1 2 (fun i => i) (fun _ => 0) 1024 2).at
      (roundRobin (turns 1) (turns_ne_nil 1)) u).loc .memWrite = .ret (2 * 1024, buffer) :=
  (launches_end (by decide) (by decide) (fun i => i) (fun _ => 0) 1024 2
    (fair_roundRobin (turns_ne_nil 1) mem_turns)).1

end

end ThundeRiNG.Device
