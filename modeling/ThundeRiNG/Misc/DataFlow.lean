import ThundeRiNG.Misc.EdgeMatch
import ThundeRiNG.Rng.StateSharing

/-!
# Neighbourhood sampling of triangles (`misc/data_flow.cpp`)

Every edge comes with a root state. `first_edge_sampling` draws the estimator that has to take it as its first edge;
estimators stand in a chain, and each passes edge, state and selection on as they came. Processes read and write
their streams once per iteration and never poll, so a process is a function of streams, a stream a function of the
position.

| here | there |
| --- | --- |
| `firstEdgeSampling`   | `:39-69` |
| `execute`, `outValue` | one iteration of `reservoir_sampling` (`:93-174`) |
| `reservoirSampling`   | `:71-175` |
| `estimatorInput`      | the streams `edge[e]`, `state[e]`, `fe_index[e]`, `res[e]` of `data_flow` (`:181-247`) |
| `E_NUM`, `FLAG_SET`   | `config.h:5-6`, `asap_type.h:7-12` |

`multi_stream` is that of `mpcg.h`, with an `int` for `seq`. The first edges of an estimator are not initialised
there, and arbitrary here.
-/

namespace ThundeRiNG.Misc

def LOG2_E_NUM : ℕ := 1
def E_NUM : ℕ := 1 <<< LOG2_E_NUM

abbrev FLAG_SET : Bool := true
abbrev FLAG_RESET : Bool := false

abbrev FeSelect := BitVec 32

/-! ## `first_edge_sampling` -/

/-- One iteration: the counter it leaves, and the selection it writes. -/
def firstEdge (counter : BitVec 32) (state : RngState) : BitVec 32 × FeSelect :=
  let l1_state := Mpcg.multiStream state 1
  let r := outputFunction l1_state
  let counter := counter + 1
  let r_0 : BitVec 33 := r.setWidth 33 + 1
  let sample_condition : BitVec 64 := counter.setWidth 64 * r_0.setWidth 64
  let out : FeSelect :=
    if (sample_condition.extractLsb 63 32).toNat ≤ E_NUM then sample_condition.extractLsb 63 32 else 0
  (counter, out)

def counterAt (s : ℕ → RngState) : ℕ → BitVec 32
  | 0 => 0
  | i + 1 => (firstEdge (counterAt s i) (s i)).1

def firstEdgeSampling (s : ℕ → RngState) (i : ℕ) : FeSelect := (firstEdge (counterAt s i) (s i)).2

/-! ## `reservoir_sampling` -/

structure Packet where
  edge : Edge
  primary : RngState
  fe : FeSelect
  res : BitVec 32

structure Estimator where
  first_edge : Edge
  first_edge_valid : Bool
  second_edge : Edge
  second_edge_valid : Bool
  adj_count : BitVec 32
  match_edge : Edge
  matched_flag : Bool

def Estimator.init (first_edge second_edge match_edge : Edge) : Estimator :=
  ⟨first_edge, FLAG_RESET, second_edge, FLAG_RESET, 0, match_edge, FLAG_RESET⟩

section
variable (e_index secondary_seq : BitVec 32)

/-- `l2_sample_condition.range(63, 32) == 0`. -/
def secondDrawn (adj_count : BitVec 32) (primary : RngState) : Bool :=
  let l2_state := Mpcg.multiStream primary secondary_seq
  let r2 := outputFunction l2_state
  let tmp_counter := adj_count + 1
  let l2_sample_condition : BitVec 64 := tmp_counter.setWidth 64 * r2.setWidth 64
  l2_sample_condition.extractLsb 63 32 == 0

def execute (t : Estimator) (p : Packet) : Estimator :=
  if (p.fe.toNat : ℤ) = e_index.toInt then
    { t with first_edge := p.edge, first_edge_valid := FLAG_SET, adj_count := 0, second_edge_valid := FLAG_RESET,
             matched_flag := FLAG_RESET }
  else if t.first_edge_valid = FLAG_SET then
    if isAdjacent p.edge t.first_edge then
      if secondDrawn secondary_seq t.adj_count p.primary then
        { t with adj_count := t.adj_count + 1, second_edge := p.edge, second_edge_valid := FLAG_SET,
                 match_edge := ⟨getMs t.first_edge p.edge, getMd t.first_edge p.edge⟩ }
      else if t.second_edge_valid = FLAG_SET then
        if isClose t.match_edge p.edge then { t with adj_count := t.adj_count + 1, matched_flag := FLAG_SET }
        else { t with adj_count := t.adj_count + 1 }
      else { t with adj_count := t.adj_count + 1 }
    else t
  else t

def outValue (t : Estimator) (res_value : BitVec 32) : BitVec 32 :=
  if t.matched_flag = FLAG_SET then t.adj_count + res_value else res_value

/-- The estimator before iteration `i`. -/
def estimatorAt (t : Estimator) (inp : ℕ → Packet) : ℕ → Estimator
  | 0 => t
  | i + 1 => execute e_index secondary_seq (estimatorAt t inp i) (inp i)

/-- What goes out: the packet as it came, with the result of the iteration. -/
def reservoirSampling (t : Estimator) (inp : ℕ → Packet) (i : ℕ) : Packet :=
  { inp i with res := outValue (estimatorAt e_index secondary_seq t inp (i + 1)) (inp i).res }

end

/-! ## `data_flow` -/

def SECONDARY_SEQ : BitVec 32 := (E_NUM + 1) * 2 + 3

section
variable (start : ℕ → Estimator) (edge : ℕ → Edge) (primary : ℕ → RngState)

/-- What reaches estimator `e`. -/
def estimatorInput : ℕ → ℕ → Packet
  | 0 => fun i => ⟨edge i, primary i, firstEdgeSampling primary i, 0⟩
  | e + 1 => reservoirSampling e SECONDARY_SEQ (start e) (estimatorInput e)

/-- The selection reaches every estimator as it came. -/
theorem estimatorInput_fe (e i : ℕ) : (estimatorInput start edge primary e i).fe = firstEdgeSampling primary i := by
  induction e with
  | zero => rfl
  | succ e ih => exact ih

end

/-! ## The selection of the first edge -/

/-- `floor(n * (r + 1) / 2^32)` for the edge at position `i`, the `n`-th with `n = i + 1`. -/
def selected (primary : ℕ → RngState) (i : ℕ) : ℕ :=
  (i + 1) * ((outputFunction (Mpcg.multiStream (primary i) 1)).toNat + 1) / 2 ^ 32

theorem counterAt_eq (s : ℕ → RngState) (i : ℕ) : counterAt s i = BitVec.ofNat 32 i := by
  induction i with
  | zero => rfl
  | succ i ih =>
    rw [counterAt, ih]
    exact (BitVec.ofNat_add i 1).symm

/-- The range test on the high word decides between the drawn number and the default. -/
theorem toNat_firstEdgeSampling (primary : ℕ → RngState) {i : ℕ} (hi : i + 1 < 2 ^ 32) :
    (firstEdgeSampling primary i).toNat = if selected primary i ≤ E_NUM then selected primary i else 0 := by
  have hcount : ((BitVec.ofNat 32 i + 1).setWidth 64 : BitVec 64).toNat = i + 1 := by
    rw [BitVec.toNat_setWidth, BitVec.toNat_add, BitVec.toNat_ofNat, show (1 : BitVec 32).toNat = 1 from rfl]
    omega
  have hr := (outputFunction (Mpcg.multiStream (primary i) 1)).isLt
  have hr_0 : (((outputFunction (Mpcg.multiStream (primary i) 1)).setWidth 33 + 1 : BitVec 33).setWidth 64 :
      BitVec 64).toNat = (outputFunction (Mpcg.multiStream (primary i) 1)).toNat + 1 := by
    rw [BitVec.toNat_setWidth, BitVec.toNat_add, BitVec.toNat_setWidth, show (1 : BitVec 33).toNat = 1 from rfl]
    omega
  have hlt : (i + 1) * ((outputFunction (Mpcg.multiStream (primary i) 1)).toNat + 1) < 2 ^ 64 := by
    calc (i + 1) * ((outputFunction (Mpcg.multiStream (primary i) 1)).toNat + 1)
        ≤ (i + 1) * 2 ^ 32 := Nat.mul_le_mul_left _ (by omega)
      _ < 2 ^ 64 := by omega
  have hhigh : (((BitVec.ofNat 32 i + 1).setWidth 64 *
      ((outputFunction (Mpcg.multiStream (primary i) 1)).setWidth 33 + 1 : BitVec 33).setWidth 64 :
      BitVec 64).extractLsb 63 32).toNat = selected primary i := by
    rw [BitVec.extractLsb_toNat, BitVec.toNat_mul, hcount, hr_0, Nat.mod_eq_of_lt hlt, Nat.shiftRight_eq_div_pow,
      selected]
    exact Nat.mod_eq_of_lt (Nat.div_lt_of_lt_mul (by omega))
  simp only [firstEdgeSampling, firstEdge, counterAt_eq, hhigh]
  split
  · exact hhigh
  · rfl

/-- Whatever the estimator held, this packet becomes its first edge. -/
def Replaces (e_index : BitVec 32) (p : Packet) : Prop :=
  ∀ t, (execute e_index SECONDARY_SEQ t p).first_edge = p.edge ∧
    (execute e_index SECONDARY_SEQ t p).first_edge_valid = FLAG_SET

/-- Whatever first edge the estimator held, it still has it. -/
def Keeps (e_index : BitVec 32) (p : Packet) : Prop :=
  ∀ t, (execute e_index SECONDARY_SEQ t p).first_edge = t.first_edge

section
variable (e_index secondary_seq : BitVec 32) (t : Estimator) (p : Packet)

theorem execute_first_edge :
    (execute e_index secondary_seq t p).first_edge =
      if (p.fe.toNat : ℤ) = e_index.toInt then p.edge else t.first_edge := by
  unfold execute
  split
  · rfl
  · repeat' split
    all_goals rfl

theorem replaces_iff : Replaces e_index p ↔ (p.fe.toNat : ℤ) = e_index.toInt := by
  constructor
  · intro h
    by_contra hne
    have hother := (h ⟨⟨p.edge.s + 1, 0⟩, FLAG_RESET, p.edge, FLAG_RESET, 0, p.edge, FLAG_RESET⟩).1
    rw [execute_first_edge, if_neg hne] at hother
    simpa using congrArg Edge.s hother
  · intro h t
    simp only [execute, if_pos h, and_self]

theorem keeps_of_ne (h : (p.fe.toNat : ℤ) ≠ e_index.toInt) : Keeps e_index p := by
  intro t
  rw [execute_first_edge, if_neg h]

end

/-- **First-edge selection**: at every position, the edge goes to the estimator that the drawn number names and to no
    other iff that number is at most `E_NUM`. Above it, the default selects estimator 0. -/
theorem firstEdge_selected_iff (start : ℕ → Estimator) (edge : ℕ → Edge) (primary : ℕ → RngState) (i : ℕ)
    (hi : i + 1 < 2 ^ 32) :
    ((∀ e < E_NUM - 1, Replaces e (estimatorInput start edge primary e i) ↔ selected primary i = e) ∧
      ((∀ e < E_NUM - 1, selected primary i ≠ e) →
        ∀ e < E_NUM - 1, Keeps e (estimatorInput start edge primary e i))) ↔
      selected primary i ≤ E_NUM := by
  have hone : ∀ e < E_NUM - 1, e = 0 := by decide
  have hrep : ∀ e < E_NUM - 1, Replaces e (estimatorInput start edge primary e i) ↔
      (firstEdgeSampling primary i).toNat = e := by
    intro e he
    rw [replaces_iff, estimatorInput_fe, hone e he]
    exact Int.natCast_inj
  have hfe := toNat_firstEdgeSampling primary hi
  constructor
  · rintro ⟨h, -⟩
    by_contra hgt
    have h0 := h 0 (by decide)
    rw [hrep 0 (by decide), hfe, if_neg hgt] at h0
    exact hgt (by rw [h0.1 rfl]; decide)
  · intro hle
    rw [if_pos hle] at hfe
    constructor
    · intro e he
      rw [hrep e he, hfe]
    · intro hnone e he
      refine keeps_of_ne _ _ fun heq => hnone e he ?_
      rw [← hfe]
      exact (hrep e he).1 ((replaces_iff _ _).2 heq)

theorem firstEdge_selected_iff_sixth :
    ((∀ e < E_NUM - 1, Replaces e (estimatorInput (fun _ => .init ⟨0, 0⟩ ⟨0, 0⟩ ⟨0, 0⟩) (fun _ => ⟨1, 2⟩)
        (rootState Mpcg.RNG_INIT_STATE) e 5) ↔ selected (rootState Mpcg.RNG_INIT_STATE) 5 = e) ∧
      ((∀ e < E_NUM - 1, selected (rootState Mpcg.RNG_INIT_STATE) 5 ≠ e) →
        ∀ e < E_NUM - 1, Keeps e (estimatorInput (fun _ => .init ⟨0, 0⟩ ⟨0, 0⟩ ⟨0, 0⟩) (fun _ => ⟨1, 2⟩)
          (rootState Mpcg.RNG_INIT_STATE) e 5))) ↔
      selected (rootState Mpcg.RNG_INIT_STATE) 5 ≤ E_NUM :=
  firstEdge_selected_iff _ _ (rootState Mpcg.RNG_INIT_STATE) 5 (by decide)

/-- The first six selections of the root stream: the sixth drawn number is 4. -/
theorem firstEdge_not_selected :
    ¬ ∀ (start : ℕ → Estimator) (edge : ℕ → Edge) (primary : ℕ → RngState) (i : ℕ), i + 1 < 2 ^ 31 →
      (∀ e < E_NUM - 1, Replaces e (estimatorInput start edge primary e i) ↔ selected primary i = e) ∧
      ((∀ e < E_NUM - 1, selected primary i ≠ e) →
        ∀ e < E_NUM - 1, Keeps e (estimatorInput start edge primary e i)) := by
  intro h
  have h0 := (h (fun _ => .init ⟨0, 0⟩ ⟨0, 0⟩ ⟨0, 0⟩) (fun _ => ⟨1, 2⟩) (rootState Mpcg.RNG_INIT_STATE) 5
    (by decide)).1 0 (by decide)
  rw [replaces_iff, estimatorInput_fe] at h0
  exact absurd (h0.1 (by decide +kernel)) (by decide +kernel)

/-! ## What an iteration does -/

section
variable (e_index secondary_seq : BitVec 32) (t : Estimator) (p : Packet)

/-- The packet becomes the first edge. -/
def TakesFirst : Prop := (p.fe.toNat : ℤ) = e_index.toInt

/-- The packet becomes the second edge. -/
def TakesSecond : Prop :=
  ¬ TakesFirst e_index p ∧ t.first_edge_valid = FLAG_SET ∧ isAdjacent p.edge t.first_edge ∧
    secondDrawn secondary_seq t.adj_count p.primary

/-- The packet is taken for the closing edge. -/
def Closes : Prop :=
  ¬ TakesFirst e_index p ∧ t.first_edge_valid = FLAG_SET ∧ isAdjacent p.edge t.first_edge ∧
    ¬ secondDrawn secondary_seq t.adj_count p.primary ∧ t.second_edge_valid = FLAG_SET ∧
    isClose t.match_edge p.edge

instance : Decidable (TakesFirst e_index p) := inferInstanceAs (Decidable (_ = _))
instance : Decidable (TakesSecond e_index secondary_seq t p) := inferInstanceAs (Decidable (_ ∧ _))
instance : Decidable (Closes e_index secondary_seq t p) := inferInstanceAs (Decidable (_ ∧ _))

/-- All that an iteration can do. -/
theorem execute_cases :
    (TakesFirst e_index p ∧ execute e_index secondary_seq t p =
      { t with first_edge := p.edge, first_edge_valid := FLAG_SET, adj_count := 0, second_edge_valid := FLAG_RESET,
               matched_flag := FLAG_RESET }) ∨
    (TakesSecond e_index secondary_seq t p ∧ execute e_index secondary_seq t p =
      { t with adj_count := t.adj_count + 1, second_edge := p.edge, second_edge_valid := FLAG_SET,
               match_edge := ⟨getMs t.first_edge p.edge, getMd t.first_edge p.edge⟩ }) ∨
    (Closes e_index secondary_seq t p ∧ execute e_index secondary_seq t p =
      { t with adj_count := t.adj_count + 1, matched_flag := FLAG_SET }) ∨
    (¬ TakesFirst e_index p ∧ ¬ TakesSecond e_index secondary_seq t p ∧ ¬ Closes e_index secondary_seq t p ∧
      ∃ c, execute e_index secondary_seq t p = { t with adj_count := c }) := by
  unfold TakesSecond Closes TakesFirst execute
  by_cases hfe : (p.fe.toNat : ℤ) = e_index.toInt
  · left; simp [hfe]
  by_cases hvalid : t.first_edge_valid = FLAG_SET
  · by_cases hadj : isAdjacent p.edge t.first_edge
    · by_cases hdrawn : secondDrawn secondary_seq t.adj_count p.primary
      · right; left; simp [hfe, hvalid, hadj, hdrawn]
      · by_cases hclose : t.second_edge_valid = FLAG_SET ∧ isClose t.match_edge p.edge
        · right; right; left; simp [hfe, hvalid, hadj, hdrawn, hclose]
        · right; right; right
          refine ⟨hfe, by simp [hdrawn], fun h => hclose h.2.2.2.2, t.adj_count + 1, ?_⟩
          simp only [hfe, hvalid, hadj, hdrawn, if_true, if_false, Bool.false_eq_true]
          split
          · rename_i hsecond
            rw [if_neg fun h => hclose ⟨hsecond, h⟩]
          · rfl
    · right; right; right
      exact ⟨hfe, by simp [hadj], by simp [hadj], t.adj_count, by rw [if_neg hfe, if_pos hvalid, if_neg hadj]⟩
  · right; right; right
    exact ⟨hfe, by simp [hvalid], by simp [hvalid], t.adj_count, by rw [if_neg hfe, if_neg hvalid]⟩

variable {e_index secondary_seq t p}

/-- Taking a second edge leaves the match flag as it is. -/
theorem TakesSecond.matched_flag (h : TakesSecond e_index secondary_seq t p) :
    (execute e_index secondary_seq t p).matched_flag = t.matched_flag := by
  obtain ⟨hfe, hvalid, hadj, hdrawn⟩ := h
  rw [TakesFirst] at hfe
  rw [execute, if_neg hfe, if_pos hvalid, if_pos hadj, if_pos hdrawn]

theorem Closes.execute_eq (h : Closes e_index secondary_seq t p) :
    execute e_index secondary_seq t p = { t with adj_count := t.adj_count + 1, matched_flag := FLAG_SET } := by
  obtain ⟨hfe, hvalid, hadj, hdrawn, hsecond, hclose⟩ := h
  rw [TakesFirst] at hfe
  rw [execute, if_neg hfe, if_pos hvalid, if_pos hadj, if_neg hdrawn, if_pos hsecond, if_pos hclose]

end

/-! ## What a match means -/

section
variable (e_index secondary_seq : BitVec 32) (t : Estimator) (inp : ℕ → Packet)

/-- After `n` iterations the second edge is the one that iteration `k` took. -/
def TakenBy (k n : ℕ) : Prop :=
  k < n ∧ TakesSecond e_index secondary_seq (estimatorAt e_index secondary_seq t inp k) (inp k) ∧
    ∀ i, k < i → i < n → ¬ TakesSecond e_index secondary_seq (estimatorAt e_index secondary_seq t inp i) (inp i)

/-- After `n` iterations the sample is complete, and an edge read since its second edge was taken closes it. -/
def Sampled (n : ℕ) : Prop :=
  (estimatorAt e_index secondary_seq t inp n).first_edge_valid = FLAG_SET ∧
  (estimatorAt e_index secondary_seq t inp n).second_edge_valid = FLAG_SET ∧
  ∃ k j, TakenBy e_index secondary_seq t inp k n ∧ k < j ∧ j < n ∧
    Triangle (estimatorAt e_index secondary_seq t inp n).first_edge
      (estimatorAt e_index secondary_seq t inp n).second_edge (inp j).edge

/-- What the code leaves out: the match of the old second edge is cleared, and the first and the second edge have
    exactly one vertex in common when their match is found. -/
def Careful (i : ℕ) : Prop :=
  (TakesSecond e_index secondary_seq (estimatorAt e_index secondary_seq t inp i) (inp i) →
    (estimatorAt e_index secondary_seq t inp i).matched_flag = FLAG_RESET) ∧
  (Closes e_index secondary_seq (estimatorAt e_index secondary_seq t inp i) (inp i) →
    Sides (estimatorAt e_index secondary_seq t inp i).first_edge
      (estimatorAt e_index secondary_seq t inp i).second_edge)

/-- What is carried from iteration to iteration. -/
structure Inv (n : ℕ) : Prop where
  second : (estimatorAt e_index secondary_seq t inp n).second_edge_valid = FLAG_SET →
    (estimatorAt e_index secondary_seq t inp n).first_edge_valid = FLAG_SET ∧
    (estimatorAt e_index secondary_seq t inp n).match_edge =
      ⟨getMs (estimatorAt e_index secondary_seq t inp n).first_edge
          (estimatorAt e_index secondary_seq t inp n).second_edge,
        getMd (estimatorAt e_index secondary_seq t inp n).first_edge
          (estimatorAt e_index secondary_seq t inp n).second_edge⟩ ∧
    ∃ k, TakenBy e_index secondary_seq t inp k n
  matched : (estimatorAt e_index secondary_seq t inp n).matched_flag = FLAG_SET → Sampled e_index secondary_seq t inp n

variable {e_index secondary_seq t inp}

theorem estimatorAt_succ (n : ℕ) :
    estimatorAt e_index secondary_seq t inp (n + 1) =
      execute e_index secondary_seq (estimatorAt e_index secondary_seq t inp n) (inp n) := rfl

theorem TakenBy.succ {k n : ℕ} (h : TakenBy e_index secondary_seq t inp k n)
    (hn : ¬ TakesSecond e_index secondary_seq (estimatorAt e_index secondary_seq t inp n) (inp n)) :
    TakenBy e_index secondary_seq t inp k (n + 1) := by
  refine ⟨by have := h.1; omega, h.2.1, ?_⟩
  intro i hki hin
  rcases Nat.lt_succ_iff_lt_or_eq.1 hin with hlt | rfl
  · exact h.2.2 i hki hlt
  · exact hn

/-- Once the second edge has just been taken, nothing has been read since. -/
theorem not_sampled_of_takesSecond {n : ℕ}
    (hn : TakesSecond e_index secondary_seq (estimatorAt e_index secondary_seq t inp n) (inp n)) :
    ¬ Sampled e_index secondary_seq t inp (n + 1) := by
  rintro ⟨-, -, k, j, hk, hkj, hj, -⟩
  exact hk.2.2 n (by omega) (by omega) hn

theorem Sampled.succ {n : ℕ} (h : Sampled e_index secondary_seq t inp n) {c : BitVec 32} {m : Bool}
    (hn : ¬ TakesSecond e_index secondary_seq (estimatorAt e_index secondary_seq t inp n) (inp n))
    (hx : execute e_index secondary_seq (estimatorAt e_index secondary_seq t inp n) (inp n) =
      { estimatorAt e_index secondary_seq t inp n with adj_count := c, matched_flag := m }) :
    Sampled e_index secondary_seq t inp (n + 1) := by
  obtain ⟨hfirst, hsecond, k, j, hk, hkj, hj, htri⟩ := h
  rw [Sampled, estimatorAt_succ, hx]
  exact ⟨hfirst, hsecond, k, j, hk.succ hn, hkj, by omega, htri⟩

/-- A careful iteration keeps the invariant. -/
theorem Inv.succ {n : ℕ} (h : Inv e_index secondary_seq t inp n)
    (hc : Careful e_index secondary_seq t inp n) :
    Inv e_index secondary_seq t inp (n + 1) := by
  rcases execute_cases e_index secondary_seq (estimatorAt e_index secondary_seq t inp n) (inp n) with
    ⟨-, hx⟩ | ⟨htake, hx⟩ | ⟨hclose, hx⟩ | ⟨-, hn, -, c, hx⟩
  · constructor <;> intro hf <;> rw [estimatorAt_succ, hx] at hf <;> cases hf
  · constructor
    · intro _
      rw [estimatorAt_succ, hx]
      exact ⟨htake.2.1, rfl, n, Nat.lt_succ_self n, htake, fun i h1 h2 => by omega⟩
    · intro hf
      rw [estimatorAt_succ, hx] at hf
      rw [hc.1 htake] at hf
      cases hf
  · have hn : ¬ TakesSecond e_index secondary_seq (estimatorAt e_index secondary_seq t inp n) (inp n) :=
      fun htake => hclose.2.2.2.1 htake.2.2.2
    obtain ⟨hfirst, hmatch, k, hk⟩ := h.second hclose.2.2.2.2.1
    have hclosed := hclose.2.2.2.2.2
    rw [hmatch, (hc.2 hclose).isClose_iff] at hclosed
    constructor
    · intro _
      rw [estimatorAt_succ, hx]
      exact ⟨hfirst, hmatch, k, hk.succ hn⟩
    · intro _
      rw [Sampled, estimatorAt_succ, hx]
      exact ⟨hfirst, hclose.2.2.2.2.1, k, n, hk.succ hn, hk.1, Nat.lt_succ_self n, hclosed⟩
  · constructor
    · intro hf
      rw [estimatorAt_succ, hx] at hf ⊢
      obtain ⟨hfirst, hmatch, k, hk⟩ := h.second hf
      exact ⟨hfirst, hmatch, k, hk.succ hn⟩
    · intro hf
      rw [estimatorAt_succ, hx] at hf
      exact (h.matched hf).succ hn hx

/-- An iteration that is not careful leaves a match without a sample. -/
theorem careful_of_sampled {n : ℕ}
    (h : (estimatorAt e_index secondary_seq t inp (n + 1)).matched_flag = FLAG_SET →
      Sampled e_index secondary_seq t inp (n + 1)) : Careful e_index secondary_seq t inp n := by
  rw [estimatorAt_succ] at h
  constructor
  · intro htake
    by_contra hset
    rw [Bool.not_eq_false] at hset
    exact not_sampled_of_takesSecond htake (h (htake.matched_flag.trans hset))
  · intro hclose
    rw [hclose.execute_eq] at h
    obtain ⟨-, -, k, j, -, -, -, htri⟩ := h rfl
    rw [estimatorAt_succ, hclose.execute_eq] at htri
    exact htri.sides

/-- The result differs from what came in only under a match. -/
theorem matched_of_res_ne {i : ℕ} (h : (reservoirSampling e_index secondary_seq t inp i).res ≠ (inp i).res) :
    (estimatorAt e_index secondary_seq t inp (i + 1)).matched_flag = FLAG_SET := by
  by_contra hne
  exact h (if_neg hne)

end

theorem inv_zero (e_index secondary_seq : BitVec 32) (first second closing : Edge) (inp : ℕ → Packet) :
    Inv e_index secondary_seq (.init first second closing) inp 0 := by
  constructor <;> intro hf <;> cases hf

/-- **Matches are triangles**: along a run, every match stands for a triangle of the current sample, and only such a
    match changes the result, iff every iteration is careful. -/
theorem matches_iff (e_index secondary_seq : BitVec 32) (first second closing : Edge) (inp : ℕ → Packet) (n : ℕ) :
    ((∀ i ≤ n, (estimatorAt e_index secondary_seq (.init first second closing) inp i).matched_flag = FLAG_SET →
        Sampled e_index secondary_seq (.init first second closing) inp i) ∧
      (∀ i < n, (reservoirSampling e_index secondary_seq (.init first second closing) inp i).res ≠ (inp i).res →
        Sampled e_index secondary_seq (.init first second closing) inp (i + 1))) ↔
      ∀ i < n, Careful e_index secondary_seq (.init first second closing) inp i := by
  constructor
  · rintro ⟨h, -⟩ i hi
    exact careful_of_sampled (h (i + 1) hi)
  · intro hc
    have hinv : ∀ i ≤ n, Inv e_index secondary_seq (.init first second closing) inp i := by
      intro i
      induction i with
      | zero => exact fun _ => inv_zero e_index secondary_seq first second closing inp
      | succ i ih => exact fun hi => (ih (by omega)).succ (hc i hi)
    constructor
    · intro i hi
      exact (hinv i hi).matched
    · intro i hi hres
      exact (hinv (i + 1) hi).matched (matched_of_res_ne hres)

/-- A triangle 1-2-3, three edges elsewhere, and the edge 2-4, for which the root stream draws a new second edge. -/
def stalePackets (i : ℕ) : Packet where
  edge := [⟨1, 2⟩, ⟨2, 3⟩, ⟨1, 3⟩, ⟨8, 9⟩, ⟨8, 9⟩, ⟨8, 9⟩].getD i ⟨2, 4⟩
  primary := rootState Mpcg.RNG_INIT_STATE i
  fe := if i = 0 then 0 else 1
  res := 0

/-- After the seventh packet the match of 1-2-3 still stands, for the sample 1-2, 2-4. -/
theorem matches_stale :
    ¬ ∀ (e_index secondary_seq : BitVec 32) (first second closing : Edge) (inp : ℕ → Packet) (n : ℕ),
      ((∀ i ≤ n, (estimatorAt e_index secondary_seq (.init first second closing) inp i).matched_flag = FLAG_SET →
          Sampled e_index secondary_seq (.init first second closing) inp i) ∧
        (∀ i < n, (reservoirSampling e_index secondary_seq (.init first second closing) inp i).res ≠ (inp i).res →
          Sampled e_index secondary_seq (.init first second closing) inp (i + 1))) := by
  intro h
  have hstale := (h 0 SECONDARY_SEQ ⟨0, 0⟩ ⟨0, 0⟩ ⟨0, 0⟩ stalePackets 7).1 7 le_rfl (by decide +kernel)
  exact not_sampled_of_takesSecond (by decide +kernel) hstale

end ThundeRiNG.Misc
