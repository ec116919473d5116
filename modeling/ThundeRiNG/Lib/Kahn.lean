import Mathlib.Data.List.Induction
import Mathlib.Logic.Function.Basic

/-!
# Process networks over bounded FIFOs

Processes run forever: a process repeats an iteration (`Prog`) that blocks on reads and writes and may poll
a channel. A channel is a FIFO of bounded depth with one reader and one writer. A schedule is any list of
processes (`Network.run`); firing a blocked process changes nothing, so every interleaving is a schedule.

Kahn's theorem for such networks: fix a stream `σ c` for every channel and an outcome `orc p n` for every
poll. If each process, fed with these, writes these (`Conf`, a weakest precondition over the iteration), then
in every run whose polls went that way each channel has carried a prefix of its stream (`Network.hist_eq`).
Blocking reads alone leave no choice to the schedule; polls leave exactly their outcomes.
-/

namespace Kahn

variable {Chan : Type} {V : Chan → Type} {A B : Type}

/-! ## One iteration of a process -/

inductive Prog (V : Chan → Type) (A : Type) where
  | ret (a : A)
  | read (c : Chan) (k : V c → Prog V A)
  | readNb (c : Chan) (k : Option (V c) → Prog V A)
  | write (c : Chan) (v : V c) (k : Prog V A)

namespace Prog

def bind : Prog V A → (A → Prog V B) → Prog V B
  | .ret a, f => f a
  | .read c k, f => .read c fun v => (k v).bind f
  | .readNb c k, f => .readNb c fun v => (k v).bind f
  | .write c v k, f => .write c v (k.bind f)

instance : Monad (Prog V) where
  pure := .ret
  bind := bind

/-- The iteration is over. -/
def isRet : Prog V A → Bool
  | .ret _ => true
  | _ => false

/-- A blocking read. -/
def get (c : Chan) : Prog V (V c) := .read c .ret

/-- A non-blocking read. -/
def poll (c : Chan) : Prog V (Option (V c)) := .readNb c .ret

/-- A blocking write. -/
def put (c : Chan) (v : V c) : Prog V Unit := .write c v (.ret ())

end Prog

/-! ## Networks and their runs -/

structure Network (V : Chan → Type) (Proc : Type) where
  /-- What a process keeps from one iteration to the next. -/
  S : Proc → Type
  init : (p : Proc) → S p
  body : (p : Proc) → S p → Prog V (S p)
  depth : Chan → ℕ
  reader : Chan → Proc
  writer : Chan → Proc

variable {Proc : Type}

/-- `hist c` is everything written to `c`, of which the first `rd c` tokens have been read; `polls p` are the
    outcomes of the polls of `p`. -/
structure Config (N : Network V Proc) where
  loc : (p : Proc) → Prog V (N.S p)
  hist : (c : Chan) → List (V c)
  rd : Chan → ℕ
  polls : Proc → List Bool

/-- What a FIFO holds. -/
def Config.fifo {N : Network V Proc} (g : Config N) (c : Chan) : List (V c) := (g.hist c).drop (g.rd c)

/-- What has been read from a FIFO. -/
def Config.consumed {N : Network V Proc} (g : Config N) (c : Chan) : List (V c) := (g.hist c).take (g.rd c)

namespace Network

variable (N : Network V Proc)

def start : Config N := ⟨fun p => .ret (N.init p), fun _ => [], fun _ => 0, fun _ => []⟩

variable [DecidableEq Chan] [DecidableEq Proc]

open Function in
/-- One action of a process; nothing if it is blocked. -/
def fire (g : Config N) (p : Proc) : Config N :=
  match g.loc p with
  | .ret s => { g with loc := update g.loc p (N.body p s) }
  | .read c k =>
    match (g.hist c)[g.rd c]? with
    | none => g
    | some v => { g with loc := update g.loc p (k v), rd := update g.rd c (g.rd c + 1) }
  | .readNb c k =>
    match (g.hist c)[g.rd c]? with
    | none => { g with loc := update g.loc p (k none), polls := update g.polls p (g.polls p ++ [false]) }
    | some v =>
      { g with loc := update g.loc p (k (some v)), rd := update g.rd c (g.rd c + 1),
               polls := update g.polls p (g.polls p ++ [true]) }
  | .write c v k =>
    if (g.hist c).length - g.rd c < N.depth c then
      { g with loc := update g.loc p k, hist := update g.hist c (g.hist c ++ [v]) }
    else g

/-- The configuration a schedule leads to. -/
def run (sched : List Proc) : Config N := sched.foldl N.fire N.start

theorem run_concat (sched : List Proc) (p : Proc) : N.run (sched ++ [p]) = N.fire (N.run sched) p := by
  unfold run
  rw [List.foldl_append, List.foldl_cons, List.foldl_nil]

end Network

/-! ## Counting actions -/

/-- How often a process has read each channel, written each channel, and polled. -/
structure Counts (Chan : Type) where
  rd : Chan → ℕ
  wr : Chan → ℕ
  polls : ℕ

namespace Counts

def zero : Counts Chan := ⟨fun _ => 0, fun _ => 0, 0⟩

@[simp] theorem zero_rd (c : Chan) : (zero : Counts Chan).rd c = 0 := rfl
@[simp] theorem zero_wr (c : Chan) : (zero : Counts Chan).wr c = 0 := rfl
@[simp] theorem zero_polls : (zero : Counts Chan).polls = 0 := rfl

def addPoll (n : Counts Chan) : Counts Chan := { n with polls := n.polls + 1 }

@[simp] theorem addPoll_rd (n : Counts Chan) : n.addPoll.rd = n.rd := rfl
@[simp] theorem addPoll_wr (n : Counts Chan) : n.addPoll.wr = n.wr := rfl
@[simp] theorem addPoll_polls (n : Counts Chan) : n.addPoll.polls = n.polls + 1 := rfl

variable [DecidableEq Chan]

def addRd (n : Counts Chan) (c : Chan) : Counts Chan := { n with rd := Function.update n.rd c (n.rd c + 1) }
def addWr (n : Counts Chan) (c : Chan) : Counts Chan := { n with wr := Function.update n.wr c (n.wr c + 1) }

variable (n : Counts Chan) (c c' : Chan)

@[simp] theorem addRd_rd : (n.addRd c).rd c' = if c' = c then n.rd c + 1 else n.rd c' := Function.update_apply ..
@[simp] theorem addRd_wr : (n.addRd c).wr = n.wr := rfl
@[simp] theorem addRd_polls : (n.addRd c).polls = n.polls := rfl
@[simp] theorem addWr_rd : (n.addWr c).rd = n.rd := rfl
@[simp] theorem addWr_wr : (n.addWr c).wr c' = if c' = c then n.wr c + 1 else n.wr c' := Function.update_apply ..
@[simp] theorem addWr_polls : (n.addWr c).polls = n.polls := rfl

end Counts

/-! ## Conformance of a process -/

/-- What an iteration may count on when it runs: which token of a channel can be read, which cannot be there
    yet, and which can be written. -/
structure Guard (Chan : Type) where
  read : Chan → ℕ → Prop
  miss : Chan → ℕ → Prop
  write : Chan → ℕ → Prop

/-- No promise is asked for. -/
def Guard.free : Guard Chan := ⟨fun _ _ => True, fun _ _ => True, fun _ _ => True⟩

section
variable [DecidableEq Chan] (N : Network V Proc) (σ : (c : Chan) → ℕ → V c) (orc : Proc → ℕ → Bool)
  (G : Guard Chan) (p : Proc)

/-- Process `p`, fed with the streams `σ` and the outcomes `orc`, uses its own channels only, writes the streams,
    and ends in `Q`. -/
def Conf : Prog V A → Counts Chan → (A → Counts Chan → Prop) → Prop
  | .ret a, n, Q => Q a n
  | .read c k, n, Q => N.reader c = p ∧ G.read c (n.rd c) ∧ Conf (k (σ c (n.rd c))) (n.addRd c) Q
  | .readNb c k, n, Q =>
    N.reader c = p ∧
      if orc p n.polls then G.read c (n.rd c) ∧ Conf (k (some (σ c (n.rd c)))) (n.addRd c).addPoll Q
      else G.miss c (n.rd c) ∧ Conf (k none) n.addPoll Q
  | .write c v k, n, Q => N.writer c = p ∧ G.write c (n.wr c) ∧ v = σ c (n.wr c) ∧ Conf k (n.addWr c) Q

variable {N σ orc G p} {n : Counts Chan} {Q : A → Counts Chan → Prop}

theorem conf_bind {x : Prog V B} {f : B → Prog V A} :
    Conf N σ orc G p (x >>= f) n Q ↔ Conf N σ orc G p x n fun b n => Conf N σ orc G p (f b) n Q := by
  induction x generalizing n with
  | ret b => rfl
  | read c k ih => exact and_congr_right fun _ => and_congr_right fun _ => ih _
  | readNb c k ih =>
    apply and_congr_right
    intro _
    by_cases h : orc p n.polls
    · simp only [if_pos h]; exact and_congr_right fun _ => ih _
    · simp only [if_neg h]; exact and_congr_right fun _ => ih _
  | write c v k ih => exact and_congr_right fun _ => and_congr_right fun _ => and_congr_right fun _ => ih

theorem Conf.mono {Q' : A → Counts Chan → Prop} (hQ : ∀ a n, Q a n → Q' a n) {x : Prog V A}
    (h : Conf N σ orc G p x n Q) : Conf N σ orc G p x n Q' := by
  induction x generalizing n with
  | ret a => exact hQ a n h
  | read c k ih => exact ⟨h.1, h.2.1, ih _ h.2.2⟩
  | readNb c k ih =>
    refine ⟨h.1, ?_⟩
    have h' := h.2
    by_cases ho : orc p n.polls
    · simp only [if_pos ho] at h' ⊢; exact ⟨h'.1, ih _ h'.2⟩
    · simp only [if_neg ho] at h' ⊢; exact ⟨h'.1, ih _ h'.2⟩
  | write c v k ih => exact ⟨h.1, h.2.1, h.2.2.1, ih h.2.2.2⟩

theorem conf_pure {a : A} : Conf N σ orc G p (pure a) n Q ↔ Q a n := Iff.rfl

theorem conf_get {c : Chan} {Q : V c → Counts Chan → Prop} :
    Conf N σ orc G p (.get c) n Q ↔ N.reader c = p ∧ G.read c (n.rd c) ∧ Q (σ c (n.rd c)) (n.addRd c) := Iff.rfl

theorem conf_put {c : Chan} {v : V c} {Q : Unit → Counts Chan → Prop} :
    Conf N σ orc G p (.put c v) n Q ↔
      N.writer c = p ∧ G.write c (n.wr c) ∧ v = σ c (n.wr c) ∧ Q () (n.addWr c) := Iff.rfl

theorem conf_poll {c : Chan} {Q : Option (V c) → Counts Chan → Prop} :
    Conf N σ orc G p (.poll c) n Q ↔
      N.reader c = p ∧
        if orc p n.polls then G.read c (n.rd c) ∧ Q (some (σ c (n.rd c))) (n.addRd c).addPoll
        else G.miss c (n.rd c) ∧ Q none n.addPoll := Iff.rfl

end

/-! ## Assertions along an iteration -/

section
variable (σ : (c : Chan) → ℕ → V c) (orc : ℕ → Bool) (J : Prog V A → Counts Chan → Prop)

/-- `J` holds now and at every later point of an iteration that is fed with the streams and the outcomes. -/
def Along [DecidableEq Chan] : Prog V A → Counts Chan → Prop
  | .ret a, n => J (.ret a) n
  | .read c k, n => J (.read c k) n ∧ Along (k (σ c (n.rd c))) (n.addRd c)
  | .readNb c k, n =>
    J (.readNb c k) n ∧
      if orc n.polls then Along (k (some (σ c (n.rd c)))) (n.addRd c).addPoll else Along (k none) n.addPoll
  | .write c v k, n => J (.write c v k) n ∧ Along k (n.addWr c)

variable {σ orc J} [DecidableEq Chan]

theorem along_get_bind {B : Type} {c : Chan} {f : V c → Prog V B} {J : Prog V B → Counts Chan → Prop} {n : Counts Chan} :
    Along σ orc J (.get c >>= f) n ↔ J (.read c f) n ∧ Along σ orc J (f (σ c (n.rd c))) (n.addRd c) := Iff.rfl

theorem along_put_bind {B : Type} {c : Chan} {v : V c} {f : Unit → Prog V B} {J : Prog V B → Counts Chan → Prop}
    {n : Counts Chan} :
    Along σ orc J (.put c v >>= f) n ↔ J (.write c v (f ())) n ∧ Along σ orc J (f ()) (n.addWr c) := Iff.rfl

theorem along_poll_bind {B : Type} {c : Chan} {f : Option (V c) → Prog V B} {J : Prog V B → Counts Chan → Prop}
    {n : Counts Chan} :
    Along σ orc J (.poll c >>= f) n ↔
      J (.readNb c f) n ∧
        if orc n.polls then Along σ orc J (f (some (σ c (n.rd c)))) (n.addRd c).addPoll
        else Along σ orc J (f none) n.addPoll := Iff.rfl

theorem along_put {c : Chan} {v : V c} {J : Prog V Unit → Counts Chan → Prop} {n : Counts Chan} :
    Along σ orc J (.put c v) n ↔ J (.write c v (.ret ())) n ∧ J (.ret ()) (n.addWr c) := Iff.rfl

theorem along_pure {a : A} {n : Counts Chan} : Along σ orc J (pure a) n ↔ J (.ret a) n := Iff.rfl

theorem Along.now {x : Prog V A} {n : Counts Chan} (h : Along σ orc J x n) : J x n := by
  cases x with
  | ret a => exact h
  | read c k => exact h.1
  | readNb c k => exact h.1
  | write c v k => exact h.1

end

/-! ## Kahn's theorem -/

section
variable (N : Network V Proc) (σ : (c : Chan) → ℕ → V c) (orc : Proc → ℕ → Bool)

/-- The configuration has seen prefixes of the streams and outcomes, of the lengths that `n` counts. -/
structure Tied (g : Config N) (n : Proc → Counts Chan) : Prop where
  rd : ∀ c, g.rd c = (n (N.reader c)).rd c
  hist : ∀ c, g.hist c = (List.range ((n (N.writer c)).wr c)).map (σ c)
  polls : ∀ p, g.polls p = (List.range (n p).polls).map (orc p)

variable {N σ orc} {g : Config N} {n : Proc → Counts Chan} {p : Proc} {c : Chan}

theorem getElem?_range_map {T : Type} (f : ℕ → T) (m i : ℕ) :
    ((List.range m).map f)[i]? = if i < m then some (f i) else none := by
  by_cases h : i < m <;> simp [h]

theorem Tied.token (h : Tied N σ orc g n) (hr : N.reader c = p) :
    (g.hist c)[g.rd c]? =
      if (n p).rd c < (n (N.writer c)).wr c then some (σ c ((n p).rd c)) else none := by
  rw [h.hist, getElem?_range_map, h.rd, hr]

/-- The polls of a configuration went as `orc` says. -/
def Agrees (orc : Proc → ℕ → Bool) (g : Config N) : Prop :=
  ∀ p, g.polls p = (List.range (g.polls p).length).map (orc p)

theorem Agrees.of_append {orc : ℕ → Bool} {l l' : List Bool}
    (h : l ++ l' = (List.range (l ++ l').length).map orc) : l = (List.range l.length).map orc := by
  apply List.ext_getElem?
  intro i
  rw [getElem?_range_map]
  by_cases hi : i < l.length
  · have hg := congrArg (·[i]?) h
    simp only [getElem?_range_map] at hg
    rw [List.getElem?_append_left hi, if_pos (by simp; omega)] at hg
    rw [hg, if_pos hi]
  · simp [hi]

/-- The outcome just appended is the next one of `orc`. -/
theorem Agrees.last {b : Bool} (h : Agrees orc g) {l : List Bool} (hl : g.polls p = l ++ [b]) :
    b = orc p l.length := by
  have hg := congrArg (·[l.length]?) (h p)
  simp only [getElem?_range_map] at hg
  simpa [hl] using hg

/-- The outcomes of a configuration; a poll that is still to come counts as found. -/
def Config.oracle (g : Config N) (p : Proc) (i : ℕ) : Bool := (g.polls p)[i]?.getD true

theorem agrees_oracle (g : Config N) : Agrees g.oracle g := by
  intro p
  apply List.ext_getElem?
  intro i
  rw [getElem?_range_map]
  by_cases hi : i < (g.polls p).length
  · rw [if_pos hi, Config.oracle, List.getElem?_eq_getElem hi, Option.getD_some]
  · rw [if_neg hi, List.getElem?_eq_none (by omega)]

variable [DecidableEq Proc]

open Function

theorem Tied.addPoll (h : Tied N σ orc g n) {b : Bool} (hb : b = orc p (n p).polls)
    (l : (p : Proc) → Prog V (N.S p)) :
    Tied N σ orc { g with loc := l, polls := update g.polls p (g.polls p ++ [b]) } (update n p (n p).addPoll) where
  rd c' := by by_cases hp : N.reader c' = p <;> simp [hp, h.rd]
  hist c' := by by_cases hp : N.writer c' = p <;> simp [hp, h.hist]
  polls q := by
    by_cases hq : q = p
    · subst hq; simp [h.polls, hb, List.range_succ]
    · simp [hq, h.polls]

variable [DecidableEq Chan]

theorem Tied.addRd (h : Tied N σ orc g n) (hr : N.reader c = p) (l : (p : Proc) → Prog V (N.S p)) :
    Tied N σ orc { g with loc := l, rd := update g.rd c (g.rd c + 1) } (update n p ((n p).addRd c)) where
  rd c' := by
    by_cases hc : c' = c
    · subst hc; simp [h.rd, hr]
    · by_cases hp : N.reader c' = p <;> simp [hc, hp, h.rd]
  hist c' := by by_cases hp : N.writer c' = p <;> simp [hp, h.hist]
  polls q := by
    by_cases hq : q = p
    · subst hq; simp [h.polls]
    · simp [hq, h.polls]

theorem Tied.addWr (h : Tied N σ orc g n) (hw : N.writer c = p) {v : V c} (hv : v = σ c ((n p).wr c))
    (l : (p : Proc) → Prog V (N.S p)) :
    Tied N σ orc { g with loc := l, hist := update g.hist c (g.hist c ++ [v]) } (update n p ((n p).addWr c)) where
  rd c' := by by_cases hp : N.reader c' = p <;> simp [hp, h.rd]
  hist c' := by
    by_cases hc : c' = c
    · subst hc; simp [h.hist, hw, hv, List.range_succ]
    · by_cases hp : N.writer c' = p <;> simp [hc, hp, h.hist]
  polls q := by
    by_cases hq : q = p
    · subst hq; simp [h.polls]
    · simp [hq, h.polls]

/-! ### One action -/

section
variable {A : Prog V (N.S p)}

theorem fire_ret {s : N.S p} (h : g.loc p = .ret s) : N.fire g p = { g with loc := update g.loc p (N.body p s) } := by
  unfold Network.fire
  rw [h]

theorem fire_read {k : V c → Prog V (N.S p)} (h : g.loc p = .read c k) {v : V c} (hv : (g.hist c)[g.rd c]? = some v) :
    N.fire g p = { g with loc := update g.loc p (k v), rd := update g.rd c (g.rd c + 1) } := by
  unfold Network.fire
  simp only [h, hv]

theorem fire_read_blocked {k : V c → Prog V (N.S p)} (h : g.loc p = .read c k) (hv : (g.hist c)[g.rd c]? = none) :
    N.fire g p = g := by
  unfold Network.fire
  simp only [h, hv]

theorem fire_poll {k : Option (V c) → Prog V (N.S p)} (h : g.loc p = .readNb c k) {v : V c}
    (hv : (g.hist c)[g.rd c]? = some v) :
    N.fire g p = { g with loc := update g.loc p (k (some v)), rd := update g.rd c (g.rd c + 1),
                          polls := update g.polls p (g.polls p ++ [true]) } := by
  unfold Network.fire
  simp only [h, hv]

theorem fire_poll_miss {k : Option (V c) → Prog V (N.S p)} (h : g.loc p = .readNb c k)
    (hv : (g.hist c)[g.rd c]? = none) :
    N.fire g p = { g with loc := update g.loc p (k none), polls := update g.polls p (g.polls p ++ [false]) } := by
  unfold Network.fire
  simp only [h, hv]

theorem fire_write {v : V c} {k : Prog V (N.S p)} (h : g.loc p = .write c v k)
    (hd : (g.hist c).length - g.rd c < N.depth c) :
    N.fire g p = { g with loc := update g.loc p k, hist := update g.hist c (g.hist c ++ [v]) } := by
  unfold Network.fire
  simp only [h, if_pos hd]

theorem fire_write_blocked {v : V c} {k : Prog V (N.S p)} (h : g.loc p = .write c v k)
    (hd : ¬ (g.hist c).length - g.rd c < N.depth c) : N.fire g p = g := by
  unfold Network.fire
  simp only [h, if_neg hd]

end

/-- Nothing is read that has not been written. -/
theorem rd_fire_le (hrd : ∀ c, g.rd c ≤ (g.hist c).length) (p : Proc) (c : Chan) :
    (N.fire g p).rd c ≤ ((N.fire g p).hist c).length := by
  have hread : ∀ {c' : Chan} {v : V c'}, (g.hist c')[g.rd c']? = some v →
      update g.rd c' (g.rd c' + 1) c ≤ (g.hist c).length := by
    intro c' v hv
    obtain ⟨hlt, -⟩ := List.getElem?_eq_some_iff.1 hv
    by_cases hc : c = c'
    · subst hc; rw [update_self]; omega
    · rw [update_of_ne hc]; exact hrd c
  have hwrite : ∀ (c' : Chan) (v : V c'), (g.hist c).length ≤ (update g.hist c' (g.hist c' ++ [v]) c).length := by
    intro c' v
    by_cases hc : c = c'
    · subst hc; simp
    · exact Nat.le_of_eq (by rw [update_of_ne hc])
  unfold Network.fire
  split
  · exact hrd c
  · split
    · exact hrd c
    · rename_i hv; exact hread hv
  · split
    · exact hrd c
    · rename_i hv; exact hread hv
  · split
    · exact Nat.le_trans (hrd c) (hwrite _ _)
    · exact hrd c

theorem rd_run_le (sched : List Proc) (c : Chan) : (N.run sched).rd c ≤ ((N.run sched).hist c).length := by
  induction sched using List.reverseRecOn generalizing c with
  | nil => exact Nat.zero_le _
  | append_singleton sched p ih => rw [Network.run_concat]; exact rd_fire_le ih p c

/-- An action appends to the outcomes of polls, if it changes them. -/
theorem polls_fire (g : Config N) (p q : Proc) : ∃ l, (N.fire g p).polls q = g.polls q ++ l := by
  have happ : ∀ b, ∃ l, update g.polls p (g.polls p ++ [b]) q = g.polls q ++ l := by
    intro b
    by_cases hq : q = p
    · subst hq; exact ⟨[b], by simp⟩
    · exact ⟨[], by simp [hq]⟩
  unfold Network.fire
  split
  · exact ⟨[], by simp⟩
  · split <;> exact ⟨[], by simp⟩
  · split
    · exact happ false
    · exact happ true
  · split <;> exact ⟨[], by simp⟩

theorem Agrees.of_fire (h : Agrees orc (N.fire g p)) : Agrees orc g := by
  intro q
  obtain ⟨l, hl⟩ := polls_fire g p q
  exact Agrees.of_append (hl ▸ h q)

/-! ### Every run -/

/-- Assertions about what a process has left of its iteration and what it has counted, kept by its own actions as
    long as it is fed with the streams and outcomes. -/
structure LocalInv (N : Network V Proc) (σ : (c : Chan) → ℕ → V c) (orc : Proc → ℕ → Bool)
    (K : (p : Proc) → Prog V (N.S p) → Counts Chan → Prop) : Prop where
  ret : ∀ {p s n}, K p (.ret s) n → K p (N.body p s) n
  read : ∀ {p c k n}, K p (.read c k) n → N.reader c = p ∧ K p (k (σ c (n.rd c))) (n.addRd c)
  readNb : ∀ {p c k n}, K p (.readNb c k) n →
    N.reader c = p ∧
      if orc p n.polls then K p (k (some (σ c (n.rd c)))) (n.addRd c).addPoll else K p (k none) n.addPoll
  write : ∀ {p c v k n}, K p (.write c v k) n → N.writer c = p ∧ v = σ c (n.wr c) ∧ K p k (n.addWr c)

section
variable {K : (p : Proc) → Prog V (N.S p) → Counts Chan → Prop} (hK : LocalInv N σ orc K)

omit [DecidableEq Chan] in
theorem keeps_update (hf : ∀ q, K q (g.loc q) (n q)) {x : Prog V (N.S p)} {m : Counts Chan} (hx : K p x m) (q : Proc) :
    K q (update g.loc p x q) (update n p m q) := by
  by_cases hq : q = p
  · subst hq; simpa using hx
  · simpa [hq] using hf q

include hK in
/-- One action keeps the configuration on the streams and every process to its assertion. -/
theorem fire_keeps (ht : Tied N σ orc g n) (hf : ∀ q, K q (g.loc q) (n q)) (hp : Agrees orc (N.fire g p)) :
    ∃ n', Tied N σ orc (N.fire g p) n' ∧ ∀ q, K q ((N.fire g p).loc q) (n' q) := by
  have hstay : ∀ g', g' = g → ∃ n', Tied N σ orc g' n' ∧ ∀ q, K q (g'.loc q) (n' q) := by
    rintro _ rfl; exact ⟨n, ht, hf⟩
  have hlen : (g.polls p).length = (n p).polls := by rw [ht.polls]; simp
  have hkeep := hf p
  cases hloc : g.loc p with
  | ret s =>
    rw [hloc] at hkeep
    rw [fire_ret hloc]
    refine ⟨n, ⟨ht.rd, ht.hist, ht.polls⟩, ?_⟩
    have h := keeps_update hf (hK.ret hkeep)
    rwa [update_eq_self] at h
  | read c k =>
    rw [hloc] at hkeep
    obtain ⟨hr, hk⟩ := hK.read hkeep
    have htok := ht.token hr
    by_cases hav : (n p).rd c < (n (N.writer c)).wr c
    · rw [if_pos hav] at htok
      rw [fire_read hloc htok]
      exact ⟨_, ht.addRd hr _, keeps_update hf hk⟩
    · rw [if_neg hav] at htok
      exact hstay _ (fire_read_blocked hloc htok)
  | readNb c k =>
    rw [hloc] at hkeep
    obtain ⟨hr, hk⟩ := hK.readNb hkeep
    have htok := ht.token hr
    by_cases hav : (n p).rd c < (n (N.writer c)).wr c
    · rw [if_pos hav] at htok
      rw [fire_poll hloc htok] at hp ⊢
      have hb : true = orc p (n p).polls := by rw [← hlen]; exact hp.last (by simp)
      rw [if_pos hb.symm] at hk
      have h := (ht.addRd hr g.loc).addPoll (p := p) (b := true) (by simpa using hb)
        (update g.loc p (k (some (σ c ((n p).rd c)))))
      rw [update_idem, update_self] at h
      exact ⟨_, h, keeps_update hf hk⟩
    · rw [if_neg hav] at htok
      rw [fire_poll_miss hloc htok] at hp ⊢
      have hb : false = orc p (n p).polls := by rw [← hlen]; exact hp.last (by simp)
      rw [if_neg (by simp [← hb])] at hk
      exact ⟨_, ht.addPoll hb _, keeps_update hf hk⟩
  | write c v k =>
    rw [hloc] at hkeep
    obtain ⟨hw, hv, hk⟩ := hK.write hkeep
    by_cases hd : (g.hist c).length - g.rd c < N.depth c
    · rw [fire_write hloc hd]
      exact ⟨_, ht.addWr hw hv _, keeps_update hf hk⟩
    · exact hstay _ (fire_write_blocked hloc hd)

include hK in
theorem run_keeps (hinit : ∀ p, K p (.ret (N.init p)) .zero) (sched : List Proc) (hp : Agrees orc (N.run sched)) :
    ∃ n, Tied N σ orc (N.run sched) n ∧ ∀ q, K q ((N.run sched).loc q) (n q) := by
  induction sched using List.reverseRecOn with
  | nil => exact ⟨fun _ => .zero, ⟨fun _ => rfl, fun _ => rfl, fun _ => rfl⟩, hinit⟩
  | append_singleton sched p ih =>
    rw [Network.run_concat] at hp ⊢
    obtain ⟨n, ht, hf⟩ := ih hp.of_fire
    exact fire_keeps hK ht hf hp

end

omit [DecidableEq Proc] in
/-- Conformance is such a family, if each iteration conforms from what the one before it leaves. -/
theorem localInv_conf {G : Guard Chan} {I : (p : Proc) → N.S p → Counts Chan → Prop}
    (hbody : ∀ p s m, I p s m → Conf N σ orc G p (N.body p s) m (I p)) :
    LocalInv N σ orc fun p x m => Conf N σ orc G p x m (I p) where
  ret h := hbody _ _ _ h
  read h := ⟨h.1, h.2.2⟩
  readNb := by
    rintro p c k n ⟨hr, hk⟩
    refine ⟨hr, ?_⟩
    by_cases ho : orc p n.polls
    · rw [if_pos ho] at hk ⊢; exact hk.2
    · rw [if_neg ho] at hk ⊢; exact hk.2
  write h := ⟨h.1, h.2.2.1, h.2.2.2⟩

omit [DecidableEq Proc] in
theorem conf_exists {G : Guard Chan} {R : (p : Proc) → ℕ → N.S p → Counts Chan → Prop}
    (hbody : ∀ p i s m, R p i s m → Conf N σ orc G p (N.body p s) m (R p (i + 1))) (p : Proc) (s : N.S p)
    (m : Counts Chan) (h : ∃ i, R p i s m) : Conf N σ orc G p (N.body p s) m fun s m => ∃ i, R p i s m := by
  obtain ⟨i, h⟩ := h
  exact (hbody p i s m h).mono fun s m h => ⟨i + 1, h⟩

/-- **Kahn's theorem**: whatever the schedule, a channel has carried a prefix of its stream. `R p i` says what `p`
    keeps and has counted before its iteration `i`. -/
theorem hist_eq {G : Guard Chan} {R : (p : Proc) → ℕ → N.S p → Counts Chan → Prop} (hinit : ∀ p, R p 0 (N.init p) .zero)
    (sched : List Proc)
    (hbody : ∀ p i s m, R p i s m → Conf N σ (N.run sched).oracle G p (N.body p s) m (R p (i + 1))) (c : Chan) :
    (N.run sched).hist c = (List.range ((N.run sched).hist c).length).map (σ c) := by
  obtain ⟨n, ht, -⟩ := run_keeps (localInv_conf (conf_exists hbody)) (fun p => ⟨0, hinit p⟩) sched (agrees_oracle _)
  rw [ht.hist, List.length_map, List.length_range]

/-- **Assertions at every point**: what holds along every iteration of the processes holds whenever a run stops. -/
theorem exists_counts {G : Guard Chan} {R : (p : Proc) → ℕ → N.S p → Counts Chan → Prop}
    {J : (p : Proc) → Prog V (N.S p) → Counts Chan → Prop} (hinit : ∀ p, R p 0 (N.init p) .zero)
    (hstart : ∀ p, J p (.ret (N.init p)) .zero) (sched : List Proc)
    (hbody : ∀ p i s m, R p i s m → Conf N σ (N.run sched).oracle G p (N.body p s) m (R p (i + 1)))
    (halong : ∀ p i s m, R p i s m → Along σ ((N.run sched).oracle p) (J p) (N.body p s) m) :
    ∃ n, Tied N σ (N.run sched).oracle (N.run sched) n ∧ ∀ p, J p ((N.run sched).loc p) (n p) := by
  have hK : LocalInv N σ (N.run sched).oracle fun p x m =>
      Conf N σ (N.run sched).oracle G p x m (fun s m => ∃ i, R p i s m) ∧
        Along σ ((N.run sched).oracle p) (J p) x m := by
    have hconf := localInv_conf (conf_exists hbody)
    constructor
    · rintro p s n ⟨⟨i, hi⟩, -⟩
      exact ⟨conf_exists hbody p s n ⟨i, hi⟩, halong p i s n hi⟩
    · intro p c k n h
      exact ⟨(hconf.read h.1).1, (hconf.read h.1).2, h.2.2⟩
    · intro p c k n h
      obtain ⟨hr, hk⟩ := hconf.readNb h.1
      have hk' := h.2.2
      refine ⟨hr, ?_⟩
      by_cases ho : (N.run sched).oracle p n.polls
      · rw [if_pos ho] at hk hk' ⊢; exact ⟨hk, hk'⟩
      · rw [if_neg ho] at hk hk' ⊢; exact ⟨hk, hk'⟩
    · intro p c v k n h
      obtain ⟨hw, hv, hk⟩ := hconf.write h.1
      exact ⟨hw, hv, hk, h.2.2⟩
  obtain ⟨n, ht, hn⟩ := run_keeps hK (fun p => ⟨⟨0, hinit p⟩, hstart p⟩) sched (agrees_oracle _)
  exact ⟨n, ht, fun p => (hn p).2.now⟩

end

end Kahn
