import Mathlib.Algebra.Field.GeomSum
import Mathlib.Data.BitVec
import ThundeRiNG.Lib.Generator
import ThundeRiNG.Lib.Tally
import ThundeRiNG.Rng.Functions

/-!
# The Hamming-weight test's tables (`test/hwd/hwd.c`)

The test looks at each word's Hamming weight next to the trits of the `DIM` words before it, which are the digits of its
*signature*. `scan_batch` keeps for each signature a 13-bit count and a 19-bit sum of weights in one word of `cs`; `desat`
moves these into the 64-bit `count_sum` after each batch and gives up when the counts do not add up to the batch.

* `runTest_exact` — in every run, what has been moved is what the words read so far have of each signature, and all of
  them have been moved.
* `runTest_overflowed_iff` — it gives up after exactly those batches in which some signature occurs more than 8191 times:
  sums never overflow unless counts do, and no overflow goes unseen.

This is the test of 32-bit words of a 32-bit generator (`HWD_BITS` and `HWD_PRNG_BITS` 32), for each `DIM` and both with
and without `-t`. The generator is any `next`, in any state `S`. What becomes of the totals is floating-point and is left
out: `analyze` stands for it and says whether the program ends there.
-/

namespace ThundeRiNG.Hwd

open Function Finset Tally

/-! ## Counters and sums in one word -/

def SUM_BITS : ℕ := 19

def getCount (cs : Rng32) : Rng32 := cs >>> SUM_BITS

def getSum (cs : Rng32) : Rng32 := cs &&& (((1 : Rng32) <<< SUM_BITS) - 1)

def updateCs (bc : ℕ) (cs : ℕ → Rng32) (p : ℕ) : ℕ → Rng32 :=
  update cs p (cs p + (BitVec.ofNat 32 bc + ((1 : Rng32) <<< SUM_BITS)))

/-- An element of `count_sum`. -/
structure CountSum where
  c : BitVec 64
  s : BitVec 64

/-! ## The signature -/

/-- `3^DIM`. -/
def SIZE (DIM : ℕ) : ℕ := 3 ^ DIM

/-- The product has 64 bits. -/
def DIV3 (x : ℕ) : ℕ := x * 1431655766 % 2 ^ 64 / 2 ^ 32

/-- `batch_size`, for 32 bits. -/
def batchSize (DIM : ℕ) : ℤ :=
  [-1, 16904, 37848, 88680, 213360, 520784, 1280664, 3160976, 7815952, 19342248, 47885112, 118569000, 293614056, 727107408,
    1800643824, 4459239480, 11043223056, 27348419104, 67728213816, 167728896072].getD DIM (-1)

/-- `__builtin_popcount`. -/
def popcount32 (x : Rng32) : ℕ := x.cpop.toNat

/-- `(bc >= 15) + (bc >= 18)`. -/
def trit (bc : ℕ) : ℕ := (if 15 ≤ bc then 1 else 0) + if 18 ≤ bc then 1 else 0

/-! ## `scan_batch` -/

variable {S : Type*}

/-- What the loop of `scan_batch` works on; `next` is at `rng`. -/
structure Scan (S : Type*) where
  cs : ℕ → Rng32
  sig : ℕ
  t : Rng32
  rng : S

section
variable (DIM : ℕ) (next : S → Rng32 × S) (trans : Bool)

/-- One turn of the loop; `trans` says that `ts` is no null pointer. -/
def scanWord (b : Scan S) : Scan S :=
  let (w, rng) := next b.rng
  let bc := if trans then popcount32 (w ^^^ w <<< 1 ^^^ b.t) else popcount32 w
  { cs := updateCs bc b.cs b.sig
    sig := (DIV3 b.sig + trit bc * (SIZE DIM / 3)) % 2 ^ 32
    t := if trans then w >>> 31 else b.t
    rng := rng }

end

/-- The variables of the program; `rng` is the generator under test. -/
structure State (S : Type*) where
  cs : ℕ → Rng32
  count_sum : ℕ → CountSum
  pos : ℤ
  last_sig : ℕ
  ts : Rng32
  progsize : ℕ → ℤ
  progr_index : ℕ
  next_progr : ℤ
  rng : S

/-- `scan_batch(last_sig, n, p)`, and the assignment of what it returns. -/
def scanBatch (DIM : ℕ) (next : S → Rng32 × S) (trans : Bool) (n : ℕ) (st : State S) : State S :=
  let b := (scanWord DIM next trans)^[n] ⟨st.cs, st.last_sig, if trans then st.ts else 0, st.rng⟩
  { st with cs := b.cs, last_sig := b.sig, ts := if trans then b.t else st.ts, rng := b.rng }

/-! ## `desat` -/

/-- What becomes of `count_sum[i]`. -/
def addCell (st : Rng32) (large : CountSum) : CountSum where
  c := large.c + BitVec.ofNat 64 (getCount st).toNat
  s := large.s + BitVec.ofInt 64 ((getSum st).toNat - 16 * (getCount st).toNat)

/-- The body of the loop, with `c`. -/
def desatCell (p : ℤ × State S) (i : ℕ) : ℤ × State S :=
  let (c, st) := p
  (c + (getCount (st.cs i)).toNat, { st with
    count_sum := update st.count_sum i (addCell (st.cs i) (st.count_sum i))
    cs := update st.cs i 0 })

/-- `none`: the message that the counters overflowed, and the end of the program. -/
def desat (DIM : ℕ) (next_batch_size : ℤ) (st : State S) : Option (State S) :=
  let (c, st) := (List.range (SIZE DIM)).foldl desatCell (0, st)
  if c = next_batch_size then some st else none

/-! ## `run_test` -/

def progsizes : List ℤ :=
  [100000000, 125000000, 150000000, 175000000, 200000000, 250000000, 300000000, 400000000, 500000000, 600000000,
    700000000, 850000000, 0]

/-- The program's start; the first signature has all trits 1. -/
def State.init (DIM : ℕ) (rng : S) : State S where
  cs := fun _ => 0
  count_sum := fun _ => ⟨0, 0⟩
  pos := 0
  last_sig := (SIZE DIM - 1) / 2
  ts := 0
  progsize := fun i => progsizes.getD i 0
  progr_index := 0
  next_progr := 100000000
  rng := rng

/-- `x & ~7` is `x / 8 * 8`. -/
def nextBatchSize (DIM : ℕ) (n pos : ℤ) : ℤ :=
  if 0 ≤ n ∧ (n - pos) / 4 < batchSize DIM then (n - pos) / 4 / 8 * 8 else batchSize DIM

/-- The next time to report, ten times as late on each round of the table. -/
def nextReport (st : State S) : State S :=
  let progsize := update st.progsize st.progr_index (st.progsize st.progr_index * 10)
  let progr_index := st.progr_index + 1
  if progsize progr_index = 0 then { st with progsize, progr_index := 0, next_progr := progsize 0 }
  else { st with progsize, progr_index, next_progr := progsize progr_index }

inductive Exit
  | overflowed
  | analyzed
  deriving DecidableEq

/-- Where a run stands: in the loop, after it, or at an `exit`. -/
inductive Outcome (S : Type*)
  | running (st : State S)
  | done (st : State S)
  | exited (e : Exit)

section
variable (DIM : ℕ) (next : S → Rng32 × S) (trans progress : Bool) (analyze : ℤ → (ℕ → CountSum) → Bool) (n : ℤ)

/-- The end of the loop's body. -/
def report (st : State S) : Outcome S :=
  if progress ∧ st.next_progr ≤ st.pos then
    if analyze st.pos st.count_sum then .exited .analyzed else .running (nextReport st)
  else .running st

/-- One turn of the loop. -/
def testRound (st : State S) : Outcome S :=
  if n < 0 ∨ st.pos < n then
    let next_batch_size := nextBatchSize DIM n st.pos
    if next_batch_size = 0 then .done st
    else
      match desat DIM next_batch_size (scanBatch DIM next trans next_batch_size.toNat st) with
      | none => .exited .overflowed
      | some st => report progress analyze { st with pos := st.pos + next_batch_size * 4 }
  else .done st

/-- So many turns of the loop. -/
def runTest : ℕ → State S → Outcome S
  | 0, st => .running st
  | rounds + 1, st =>
    match testRound DIM next trans progress analyze n st with
    | .running st => runTest rounds st
    | o => o

end

/-! ## What the words are -/

section
variable (next : S → Rng32 × S) (trans : Bool) (seed : S)

/-- Word `i` of the generator. -/
def word (i : ℕ) : Rng32 := (next (Generator.after next i seed)).1

/-- The last bit of the word before, zero at the start. -/
def lastBit : ℕ → Rng32
  | 0 => 0
  | i + 1 => word next seed i >>> 31

/-- The Hamming weight of word `i` or, with `trans`, of its changes from bit to bit. -/
def weight (i : ℕ) : ℕ :=
  popcount32 (if trans then word next seed i ^^^ word next seed i <<< 1 ^^^ lastBit next seed i else word next seed i)

/-- The trits in a row, `DIM` ones and then those of the words. -/
def digit (DIM k : ℕ) : ℕ := if k < DIM then 1 else trit (weight next trans seed (k - DIM))

/-- The trits of the `DIM` words before word `i`, the latest the most significant. -/
def signature (DIM i : ℕ) : ℕ := window 3 DIM (digit next trans seed DIM) i

/-- How many of the words `m` to `n` have signature `j`. -/
abbrev occurs (DIM m n j : ℕ) : ℕ := count (signature next trans seed DIM) m n j

/-- The sum of their weights. -/
abbrev weights (DIM m n j : ℕ) : ℕ := tally (signature next trans seed DIM) (weight next trans seed) m n j

/-- What `count_sum` should hold after `n` words. -/
def totals (DIM n j : ℕ) : CountSum where
  c := BitVec.ofNat 64 (occurs next trans seed DIM 0 n j)
  s := BitVec.ofInt 64 (tally (signature next trans seed DIM) (fun i => (weight next trans seed i : ℤ) - 16) 0 n j)

end

section
variable {next : S → Rng32 × S} {trans : Bool} {seed : S} {DIM : ℕ}

theorem popcount32_le (x : Rng32) : popcount32 x ≤ 32 := x.toNat_cpop_le

theorem weight_le (i : ℕ) : weight next trans seed i ≤ 32 := popcount32_le _

theorem trit_lt (bc : ℕ) : trit bc < 3 := by
  rw [trit]
  split <;> split <;> omega

theorem digit_lt (k : ℕ) : digit next trans seed DIM k < 3 := by
  rw [digit]
  split
  · omega
  · exact trit_lt _

theorem signature_lt (i : ℕ) : signature next trans seed DIM i < SIZE DIM := window_lt digit_lt DIM i

theorem signature_zero : signature next trans seed DIM 0 = (SIZE DIM - 1) / 2 := by
  rw [SIZE, ← Nat.geomSum_eq (by omega), signature, window]
  refine sum_congr rfl fun d hd => ?_
  rw [digit, if_pos (by simpa using hd), Nat.one_mul]

theorem DIV3_eq {x : ℕ} (hx : x < 3 ^ 19) : DIV3 x = x / 3 := by
  rw [DIV3, Nat.mod_eq_of_lt (by omega)]
  omega

/-- The fast division is exact up to `DIM = 19`. -/
theorem signature_succ (hD : DIM ≠ 0) (hD' : DIM ≤ 19) (i : ℕ) :
    signature next trans seed DIM (i + 1) =
      (DIV3 (signature next trans seed DIM i) + trit (weight next trans seed i) * (SIZE DIM / 3)) % 2 ^ 32 := by
  obtain ⟨D, rfl⟩ := Nat.exists_eq_succ_of_ne_zero hD
  have hpow : 3 ^ (D + 1) ≤ 3 ^ 19 := Nat.pow_le_pow_right (by omega) hD'
  have hsig : ∀ i, signature next trans seed (D + 1) i < SIZE (D + 1) := signature_lt
  have hstep : signature next trans seed (D + 1) (i + 1) =
      signature next trans seed (D + 1) i / 3 + trit (weight next trans seed i) * (SIZE (D + 1) / 3) := by
    refine (window_succ digit_lt D i).trans ?_
    rw [digit, if_neg (by omega), show i + 1 + D - (D + 1) = i by omega, SIZE, pow_succ, Nat.mul_div_cancel _ (by omega)]
    rfl
  rw [DIV3_eq ((hsig i).trans_le hpow), ← hstep, Nat.mod_eq_of_lt]
  exact ((hsig (i + 1)).trans_le hpow).trans (by decide)

/-! ## A batch -/

theorem ofNat_packed_succ (c s bc : ℕ) :
    BitVec.ofNat 32 (c * 2 ^ 19 + s) + (BitVec.ofNat 32 bc + ((1 : Rng32) <<< SUM_BITS)) =
      BitVec.ofNat 32 ((c + 1) * 2 ^ 19 + (s + bc)) := by
  have hone : (1 : Rng32) <<< SUM_BITS = BitVec.ofNat 32 (2 ^ 19) := rfl
  rw [hone, ← BitVec.ofNat_add, ← BitVec.ofNat_add]
  exact congrArg _ (by omega)

/-- The loop of `scan_batch` at word `M`, in a batch that began with word `N`. -/
def scanned (next : S → Rng32 × S) (trans : Bool) (seed : S) (DIM N M : ℕ) : Scan S where
  cs := fun j => BitVec.ofNat 32 (occurs next trans seed DIM N M j * 2 ^ 19 + weights next trans seed DIM N M j)
  sig := signature next trans seed DIM M
  t := if trans then lastBit next seed M else 0
  rng := Generator.after next M seed

theorem scanWord_scanned (hD : DIM ≠ 0) (hD' : DIM ≤ 19) {N M : ℕ} (h : N ≤ M) :
    scanWord DIM next trans (scanned next trans seed DIM N M) = scanned next trans seed DIM N (M + 1) := by
  have hafter : Generator.after next (M + 1) seed = (next (Generator.after next M seed)).2 :=
    Generator.after_add next M 1 seed
  have hbc : (if trans then popcount32 (word next seed M ^^^ word next seed M <<< 1 ^^^
        if trans then lastBit next seed M else 0) else popcount32 (word next seed M)) = weight next trans seed M := by
    cases trans <;> rfl
  have hcs : updateCs (weight next trans seed M) (scanned next trans seed DIM N M).cs (signature next trans seed DIM M) =
      (scanned next trans seed DIM N (M + 1)).cs := by
    funext j
    simp only [updateCs, scanned, occurs, weights, count, tally_succ _ _ h]
    by_cases hj : signature next trans seed DIM M = j
    · rw [← hj, update_self, ofNat_packed_succ, if_pos rfl, if_pos rfl]
    · rw [update_of_ne (Ne.symm hj), if_neg hj, if_neg hj, Nat.add_zero, Nat.add_zero]
  have ht : (if trans then word next seed M >>> 31 else if trans then lastBit next seed M else 0) =
      if trans then lastBit next seed (M + 1) else 0 := by
    cases trans <;> rfl
  simp only [scanWord, scanned] at *
  rw [show (next (Generator.after next M seed)).1 = word next seed M from rfl, hbc, hcs, ht, hafter, ← signature_succ hD hD']

theorem iterate_scanWord (hD : DIM ≠ 0) (hD' : DIM ≤ 19) (N m : ℕ) :
    (scanWord DIM next trans)^[m] (scanned next trans seed DIM N N) = scanned next trans seed DIM N (N + m) := by
  induction m with
  | zero => rfl
  | succ m ih => rw [iterate_succ_apply', ih, scanWord_scanned hD hD' (Nat.le_add_right N m)]; rfl

/-! ## Moving the totals -/

theorem foldl_desatCell (m : ℕ) (st : State S) :
    (List.range m).foldl desatCell (0, st) =
      (((∑ i ∈ range m, (getCount (st.cs i)).toNat : ℕ) : ℤ), { st with
        count_sum := fun i => if i < m then addCell (st.cs i) (st.count_sum i) else st.count_sum i
        cs := fun i => if i < m then 0 else st.cs i }) := by
  induction m with
  | zero => simp
  | succ m ih =>
    rw [List.range_succ, List.foldl_append, ih, List.foldl_cons, List.foldl_nil, desatCell]
    simp only [sum_range_succ, Nat.cast_add, lt_irrefl, if_false, Prod.mk.injEq, State.mk.injEq, true_and, and_true]
    constructor
    · funext i
      rcases Nat.lt_trichotomy i m with h | rfl | h
      · rw [update_of_ne h.ne, if_pos h, if_pos (by omega)]
      · rw [update_self, if_pos (by omega)]
      · rw [update_of_ne h.ne', if_neg (by omega), if_neg (by omega)]
    · funext i
      rcases Nat.lt_trichotomy i m with h | rfl | h
      · rw [update_of_ne h.ne, if_pos h, if_pos (by omega)]
      · rw [update_self, if_pos (by omega)]
      · rw [update_of_ne h.ne', if_neg (by omega), if_neg (by omega)]

theorem toNat_getCount (x : ℕ) : (getCount (BitVec.ofNat 32 x)).toNat = x % 2 ^ (19 + 13) / 2 ^ 19 := by
  rw [getCount, BitVec.toNat_ushiftRight, BitVec.toNat_ofNat, Nat.shiftRight_eq_div_pow]; rfl

theorem toNat_getSum (x : ℕ) : (getSum (BitVec.ofNat 32 x)).toNat = x % 2 ^ (19 + 13) % 2 ^ 19 := by
  have hmask : (((1 : Rng32) <<< SUM_BITS) - 1).toNat = 2 ^ 19 - 1 := by decide
  rw [getSum, BitVec.toNat_and, hmask, Nat.and_two_pow_sub_one_eq_mod, BitVec.toNat_ofNat]

section
variable {N M j : ℕ}

theorem weights_le : weights next trans seed DIM N M j ≤ 32 * occurs next trans seed DIM N M j :=
  tally_le _ weight_le N M j

/-- No count is read too high, and it is read right exactly when it has room. -/
theorem getCount_le_and_eq_iff :
    (getCount ((scanned next trans seed DIM N M).cs j)).toNat ≤ occurs next trans seed DIM N M j ∧
      ((getCount ((scanned next trans seed DIM N M).cs j)).toNat = occurs next trans seed DIM N M j ↔
        occurs next trans seed DIM N M j < 2 ^ 13) := by
  rw [scanned, toNat_getCount]
  by_cases h : occurs next trans seed DIM N M j < 2 ^ 13
  · have heq := (packed_of_lt (a := 19) weights_le (by decide) h).1
    exact ⟨heq.le, fun _ => h, fun _ => heq⟩
  · have hlt := packed_upper_lt (a := 19) (s := weights next trans seed DIM N M j) (Nat.le_of_not_lt h)
    exact ⟨hlt.le, fun heq => absurd heq hlt.ne, fun hn => absurd hn h⟩

theorem addCell_scanned (hN : N ≤ M) (h : occurs next trans seed DIM N M j < 2 ^ 13) :
    addCell ((scanned next trans seed DIM N M).cs j) (totals next trans seed DIM N j) =
      totals next trans seed DIM M j := by
  have hle : weights next trans seed DIM N M j ≤ 32 * occurs next trans seed DIM N M j := weights_le
  obtain ⟨hcount, hsum⟩ := packed_of_lt (a := 19) hle (by decide) h
  have hexcess : tally (signature next trans seed DIM) (fun i => (weight next trans seed i : ℤ) - 16) N M j =
      weights next trans seed DIM N M j - 16 * occurs next trans seed DIM N M j := mod_cast tally_sub _ _ 16 N M j
  rw [addCell, scanned, toNat_getCount, toNat_getSum, hcount, hsum, totals, totals, ← BitVec.ofNat_add,
    ← BitVec.ofInt_add, ← hexcess, tally_append _ _ (Nat.zero_le N) hN, tally_append _ _ (Nat.zero_le N) hN]

end

/-- Signatures from `SIZE` on do not exist. -/
theorem tally_of_le {A : Type*} [AddCommMonoid A] {j : ℕ} (hj : SIZE DIM ≤ j) (f : ℕ → A) (m n : ℕ) :
    tally (signature next trans seed DIM) f m n j = 0 :=
  tally_eq_zero f (fun i => ((signature_lt i).trans_le hj).ne) m n

/-- **`desat` after a batch**: it stops exactly when some signature has had no room, and else moves all. -/
theorem desat_scanned {N b : ℕ} {st : State S} (hcs : st.cs = (scanned next trans seed DIM N (N + b)).cs)
    (hlarge : st.count_sum = totals next trans seed DIM N) :
    desat DIM b st = if ∀ j < SIZE DIM, occurs next trans seed DIM N (N + b) j < 2 ^ 13 then
      some { st with count_sum := totals next trans seed DIM (N + b), cs := fun _ => 0 } else none := by
  have hle : ∀ j ∈ range (SIZE DIM), (getCount (st.cs j)).toNat ≤ occurs next trans seed DIM N (N + b) j := fun j _ =>
    hcs ▸ getCount_le_and_eq_iff.1
  have hall : ∑ j ∈ range (SIZE DIM), occurs next trans seed DIM N (N + b) j = b := by
    rw [sum_count signature_lt, Nat.add_sub_cancel_left]
  have hiff : ((∑ j ∈ range (SIZE DIM), (getCount (st.cs j)).toNat : ℕ) : ℤ) = b ↔
      ∀ j < SIZE DIM, occurs next trans seed DIM N (N + b) j < 2 ^ 13 := by
    rw [Nat.cast_inj, ← hall, sum_eq_sum_iff_of_le hle, hall, hcs]
    exact forall_congr' fun j => by rw [mem_range, getCount_le_and_eq_iff.2]
  rw [desat, foldl_desatCell]
  simp only [hiff]
  split
  · rename_i hroom
    simp only [Option.some.injEq, State.mk.injEq, and_true]
    constructor
    · funext j
      split
      · rfl
      · rename_i hj
        rw [hcs, scanned]
        simp only [tally_of_le (Nat.le_of_not_lt hj)]
        rfl
    · funext j
      split
      · rename_i hj
        rw [hcs, hlarge, addCell_scanned (Nat.le_add_right N b) (hroom j hj)]
      · rename_i hj
        rw [hlarge, totals, totals]
        simp only [tally_of_le (Nat.le_of_not_lt hj)]
  · rfl

/-! ## The run -/

/-- Before a batch that begins with word `N`. -/
structure Tallied (next : S → Rng32 × S) (trans : Bool) (seed : S) (DIM N : ℕ) (st : State S) : Prop where
  cs : st.cs = fun _ => 0
  count_sum : st.count_sum = totals next trans seed DIM N
  last_sig : st.last_sig = signature next trans seed DIM N
  ts : (if trans then st.ts else 0) = if trans then lastBit next seed N else 0
  rng : st.rng = Generator.after next N seed
  pos : st.pos = 4 * N

theorem tallied_init : Tallied next trans seed DIM 0 (State.init DIM seed) where
  cs := rfl
  count_sum := by funext j; simp [State.init, totals]
  last_sig := signature_zero.symm
  ts := by cases trans <;> rfl
  rng := rfl
  pos := rfl

theorem Tallied.scanBatch {N : ℕ} {st : State S} (h : Tallied next trans seed DIM N st) (hD : DIM ≠ 0)
    (hD' : DIM ≤ 19) (b : ℕ) :
    Hwd.scanBatch DIM next trans b st =
      { st with
        cs := (scanned next trans seed DIM N (N + b)).cs
        last_sig := signature next trans seed DIM (N + b)
        ts := if trans then lastBit next seed (N + b) else st.ts
        rng := Generator.after next (N + b) seed } := by
  have hstart : (⟨st.cs, st.last_sig, if trans then st.ts else 0, st.rng⟩ : Scan S) = scanned next trans seed DIM N N := by
    rw [h.cs, h.last_sig, h.ts, h.rng, scanned]
    simp
  rw [Hwd.scanBatch, hstart, iterate_scanWord hD hD']
  cases trans <;> rfl

theorem batchSize_pos (hD : DIM ≠ 0) (hD' : DIM ≤ 19) : 0 < batchSize DIM := by
  have hall : ∀ D < 20, D ≠ 0 → 0 < batchSize D := by decide
  exact hall DIM (by omega) hD

/-- A batch ends before `n` and is not empty as long as eight words are left. -/
theorem nextBatchSize_spec (hD : DIM ≠ 0) (hD' : DIM ≤ 19) {n pos : ℤ} (h : n < 0 ∨ pos < n) :
    ∃ b : ℕ, nextBatchSize DIM n pos = b ∧ (0 ≤ n → pos + b * 4 ≤ n) ∧ (b = 0 → 0 ≤ n ∧ n - pos < 32) := by
  have hpos := batchSize_pos hD hD'
  have hnonneg : 0 ≤ nextBatchSize DIM n pos := by
    rw [nextBatchSize]
    split <;> omega
  refine ⟨_, (Int.toNat_of_nonneg hnonneg).symm, ?_, ?_⟩
  · rw [Int.toNat_of_nonneg hnonneg, nextBatchSize]
    split <;> omega
  · rw [Int.toNat_eq_zero, nextBatchSize]
    split <;> omega

section
variable {progress : Bool} {analyze : ℤ → (ℕ → CountSum) → Bool} {n : ℤ}

/-- What one turn of the loop can do before word `N`: leave the loop near `n`, stop for lack of room, stop after a report,
    or have the whole batch moved. -/
inductive Turn (next : S → Rng32 × S) (trans : Bool) (seed : S) (DIM : ℕ) (n : ℤ) (N : ℕ) (st : State S) : Outcome S → Prop
  | done (hn : 0 ≤ n) (hend : n - st.pos < 32) (hzero : ¬(n < 0 ∨ st.pos < n) ∨ nextBatchSize DIM n st.pos = 0) :
      Turn next trans seed DIM n N st (.done st)
  | overflowed (hpos : n < 0 ∨ st.pos < n)
      (hfull : ∃ j, 8191 < occurs next trans seed DIM N (N + (nextBatchSize DIM n st.pos).toNat) j) :
      Turn next trans seed DIM n N st (.exited .overflowed)
  | analyzed (hroom : ∀ j, occurs next trans seed DIM N (N + (nextBatchSize DIM n st.pos).toNat) j ≤ 8191) :
      Turn next trans seed DIM n N st (.exited .analyzed)
  | running {st' : State S} {b : ℕ} (hb : nextBatchSize DIM n st.pos = b) (hne : b ≠ 0)
      (hroom : ∀ j, occurs next trans seed DIM N (N + b) j ≤ 8191)
      (hend : 0 ≤ n → st'.pos ≤ n) (htallied : Tallied next trans seed DIM (N + b) st') :
      Turn next trans seed DIM n N st (.running st')

theorem Tallied.nextReport {N : ℕ} {st : State S} (h : Tallied next trans seed DIM N st) :
    Tallied next trans seed DIM N (Hwd.nextReport st) := by
  obtain ⟨hcs, hcount, hsig, hts, hrng, hpos⟩ := h
  rw [Hwd.nextReport]
  split <;> exact ⟨hcs, hcount, hsig, hts, hrng, hpos⟩

theorem pos_nextReport (st : State S) : (nextReport st).pos = st.pos := by
  rw [nextReport]
  split <;> rfl

/-- A whole batch: either some signature has no room, or all is moved. -/
theorem Tallied.batch (hD : DIM ≠ 0) (hD' : DIM ≤ 19) {N : ℕ} {st : State S}
    (h : Tallied next trans seed DIM N st) (b : ℕ) :
    (desat DIM b (Hwd.scanBatch DIM next trans b st) = none ∧ ∃ j, 8191 < occurs next trans seed DIM N (N + b) j) ∨
    ∃ st', desat DIM b (Hwd.scanBatch DIM next trans b st) = some st' ∧
      (∀ j, occurs next trans seed DIM N (N + b) j ≤ 8191) ∧ st'.pos = st.pos ∧
      Tallied next trans seed DIM (N + b) { st' with pos := st'.pos + b * 4 } := by
  have hscan := h.scanBatch hD hD' b
  have hroom : (∀ j < SIZE DIM, occurs next trans seed DIM N (N + b) j < 2 ^ 13) ↔
      ∀ j, occurs next trans seed DIM N (N + b) j ≤ 8191 := by
    refine ⟨fun hall j => ?_, fun hall j _ => Nat.lt_succ_of_le (hall j)⟩
    rcases Nat.lt_or_ge j (SIZE DIM) with hj | hj
    · exact Nat.le_of_lt_succ (hall j hj)
    · rw [occurs, count, tally_of_le hj]
      exact Nat.zero_le _
  rw [desat_scanned (by rw [hscan]) (by rw [hscan, h.count_sum])]
  split
  · rename_i hall
    refine .inr ⟨_, rfl, hroom.1 hall, by rw [hscan], rfl, rfl, by rw [hscan], ?_, by rw [hscan], ?_⟩
    · rw [hscan]
      cases trans <;> rfl
    · rw [hscan, h.pos, Nat.cast_add]
      ring
  · rename_i hall
    rw [hroom] at hall
    push Not at hall
    exact .inl ⟨rfl, hall⟩

theorem Tallied.testRound (hD : DIM ≠ 0) (hD' : DIM ≤ 19) {N : ℕ} {st : State S} (h : Tallied next trans seed DIM N st)
    (hle : 0 ≤ n → st.pos ≤ n) :
    Turn next trans seed DIM n N st (Hwd.testRound DIM next trans progress analyze n st) := by
  rw [Hwd.testRound]
  split
  · rename_i hpos
    obtain ⟨b, hb, hend, hzero⟩ := nextBatchSize_spec hD hD' hpos
    have htoNat : (nextBatchSize DIM n st.pos).toNat = b := by rw [hb]; rfl
    simp only [hb, Int.toNat_natCast, Nat.cast_eq_zero]
    split
    · rename_i hb0
      exact .done (hzero hb0).1 (hzero hb0).2 (.inr (by rw [hb, hb0]; rfl))
    · rename_i hb0
      obtain ⟨hnone, hfull⟩ | ⟨st', hsome, hroom, hpos', htallied⟩ := h.batch hD hD' b
      · rw [hnone]
        exact .overflowed hpos (htoNat ▸ hfull)
      · rw [hsome]
        simp only [report]
        have hend' : 0 ≤ n → st'.pos + b * 4 ≤ n := fun hn => hpos' ▸ hend hn
        split
        · split
          · exact .analyzed (htoNat ▸ hroom)
          · exact .running hb hb0 hroom (fun hn => (pos_nextReport _).trans_le (hend' hn)) htallied.nextReport
        · exact .running hb hb0 hroom hend' htallied
  · rename_i hpos
    have hn : 0 ≤ n := by omega
    have hend := hle hn
    exact .done hn (by omega) (.inl hpos)

/-! ## Runs -/

theorem runTest_succ (rounds : ℕ) (st : State S) :
    runTest DIM next trans progress analyze n (rounds + 1) st =
      match runTest DIM next trans progress analyze n rounds st with
      | .running st => Hwd.testRound DIM next trans progress analyze n st
      | o => o := by
  induction rounds generalizing st with
  | zero =>
    simp only [runTest]
    cases Hwd.testRound DIM next trans progress analyze n st <;> rfl
  | succ rounds ih =>
    rw [runTest]
    conv_rhs => rw [runTest]
    cases Hwd.testRound DIM next trans progress analyze n st with
    | running st => exact ih st
    | done st => rfl
    | exited e => rfl

/-- What a run has come to. -/
inductive Reached (next : S → Rng32 × S) (trans : Bool) (seed : S) (DIM : ℕ) (n : ℤ) (rounds : ℕ) : Outcome S → Prop
  | running {N : ℕ} {st : State S} (h : Tallied next trans seed DIM N st) (hle : 0 ≤ n → st.pos ≤ n) (hr : rounds ≤ N) :
      Reached next trans seed DIM n rounds (.running st)
  | done {N : ℕ} {st : State S} (h : Tallied next trans seed DIM N st) (hle : 0 ≤ n → st.pos ≤ n) (hn : 0 ≤ n)
      (hend : n - st.pos < 32) : Reached next trans seed DIM n rounds (.done st)
  | exited (e : Exit) : Reached next trans seed DIM n rounds (.exited e)

theorem reached (hD : DIM ≠ 0) (hD' : DIM ≤ 19) (rounds : ℕ) :
    Reached next trans seed DIM n rounds
      (runTest DIM next trans progress analyze n rounds (State.init DIM seed)) := by
  induction rounds with
  | zero => exact .running tallied_init (fun hn => hn) le_rfl
  | succ rounds ih =>
    rw [runTest_succ]
    generalize runTest DIM next trans progress analyze n rounds (State.init DIM seed) = o at ih
    cases ih with
    | running h hle hr =>
      rename_i N st
      have hturn : Turn next trans seed DIM n N st (Hwd.testRound DIM next trans progress analyze n st) :=
        h.testRound hD hD' hle
      simp only
      generalize Hwd.testRound DIM next trans progress analyze n st = o at hturn
      cases hturn with
      | done hn hend hzero => exact .done h hle hn hend
      | overflowed hpos hfull => exact .exited _
      | analyzed hroom => exact .exited _
      | running hb hne hroom hend htallied => exact .running htallied hend (by omega)
    | done h hle hn hend => exact .done h hle hn hend
    | exited e => exact .exited e

/-- What a run ends or is interrupted with. -/
def Outcome.state? : Outcome S → Option (State S)
  | .running st => some st
  | .done st => some st
  | .exited _ => none

/-- **The tables are exact**: as long as the program has not stopped, `count_sum` holds, for all words read so far, how
    often each signature came and by how much the weights after it differ from 16 in all, and the signature lies in the
    tables; and a test of `n` bytes ends, if nothing stops it, with less than eight words left. `pos` and the entries
    of `progsize`, which are `int64_t`, are taken not to overflow. -/
theorem runTest_exact (hD : DIM ≠ 0) (hD' : DIM ≤ 19) :
    (∀ rounds st, (runTest DIM next trans progress analyze n rounds (State.init DIM seed)).state? = some st →
      st.last_sig < SIZE DIM ∧
      ∃ N : ℕ, st.pos = 4 * N ∧ (0 ≤ n → st.pos ≤ n) ∧ st.rng = Generator.after next N seed ∧
        ∀ j, st.count_sum j = totals next trans seed DIM N j) ∧
    (0 ≤ n → ∃ rounds, ∀ st, runTest DIM next trans progress analyze n rounds (State.init DIM seed) ≠ .running st ∧
      (runTest DIM next trans progress analyze n rounds (State.init DIM seed) = .done st → n - st.pos < 32)) := by
  have hsig : ∀ {N : ℕ} {st : State S}, Tallied next trans seed DIM N st → st.last_sig < SIZE DIM := fun h => by
    rw [h.last_sig]
    exact signature_lt _
  constructor
  · intro rounds st hst
    have hreached : Reached next trans seed DIM n rounds
      (runTest DIM next trans progress analyze n rounds (State.init DIM seed)) := reached hD hD' rounds
    generalize runTest DIM next trans progress analyze n rounds (State.init DIM seed) = o at hst hreached
    cases hreached with
    | running h hle hr =>
      obtain rfl := Option.some.inj hst
      exact ⟨hsig h, _, h.pos, hle, h.rng, fun j => by rw [h.count_sum]⟩
    | done h hle hn hend =>
      obtain rfl := Option.some.inj hst
      exact ⟨hsig h, _, h.pos, hle, h.rng, fun j => by rw [h.count_sum]⟩
    | exited e => exact absurd hst (by simp [Outcome.state?])
  · intro hn
    refine ⟨n.toNat + 1, fun st => ?_⟩
    have hreached : Reached next trans seed DIM n (n.toNat + 1)
      (runTest DIM next trans progress analyze n (n.toNat + 1) (State.init DIM seed)) := reached hD hD' (n.toNat + 1)
    generalize runTest DIM next trans progress analyze n (n.toNat + 1) (State.init DIM seed) = o at hreached
    cases hreached with
    | running h hle hr =>
      have := hle hn
      have := h.pos
      omega
    | done h hle hn hend =>
      refine ⟨by simp, fun hst => ?_⟩
      cases hst
      exact hend
    | exited e => simp

/-- The 8-trit test of the changes in a counter's words, over a million bytes. -/
theorem runTest_exact_counter :
    (∀ rounds st, (runTest 8 (fun w : Rng32 => (w, w + 1)) true true (fun _ _ => false) 1000000 rounds
        (State.init 8 0)).state? = some st →
      st.last_sig < SIZE 8 ∧
      ∃ N : ℕ, st.pos = 4 * N ∧ (0 ≤ (1000000 : ℤ) → st.pos ≤ 1000000) ∧
        st.rng = Generator.after (fun w : Rng32 => (w, w + 1)) N 0 ∧
        ∀ j, st.count_sum j = totals (fun w : Rng32 => (w, w + 1)) true 0 8 N j) ∧
    (0 ≤ (1000000 : ℤ) → ∃ rounds, ∀ st,
      runTest 8 (fun w : Rng32 => (w, w + 1)) true true (fun _ _ => false) 1000000 rounds (State.init 8 0) ≠ .running st ∧
      (runTest 8 (fun w : Rng32 => (w, w + 1)) true true (fun _ _ => false) 1000000 rounds (State.init 8 0) = .done st →
        1000000 - st.pos < 32)) :=
  runTest_exact (by decide) (by decide)

/-- Before a batch in which some signature occurs more often than 13 bits can count. -/
def NoRoom (next : S → Rng32 × S) (trans : Bool) (seed : S) (DIM : ℕ) (n : ℤ) (o : Outcome S) : Prop :=
  ∃ (N : ℕ) (st : State S), o = .running st ∧ st.pos = 4 * N ∧ (n < 0 ∨ st.pos < n) ∧
    ∃ j, 8191 < occurs next trans seed DIM N (N + (nextBatchSize DIM n st.pos).toNat) j

theorem noRoom_iff (hD : DIM ≠ 0) (hD' : DIM ≤ 19) {N : ℕ} {st : State S} (h : Tallied next trans seed DIM N st)
    (hle : 0 ≤ n → st.pos ≤ n) :
    NoRoom next trans seed DIM n (.running st) ↔
      Hwd.testRound DIM next trans progress analyze n st = .exited .overflowed := by
  have hturn : Turn next trans seed DIM n N st (Hwd.testRound DIM next trans progress analyze n st) :=
    h.testRound hD hD' hle
  generalize Hwd.testRound DIM next trans progress analyze n st = o at hturn
  have hroom : NoRoom next trans seed DIM n (.running st) ↔ (n < 0 ∨ st.pos < n) ∧
      ∃ j, 8191 < occurs next trans seed DIM N (N + (nextBatchSize DIM n st.pos).toNat) j := by
    constructor
    · rintro ⟨N', st', hst, hpos, hfull⟩
      cases hst
      obtain rfl : N' = N := by have := h.pos; omega
      exact hfull
    · exact fun hfull => ⟨N, st, rfl, h.pos, hfull⟩
  rw [hroom]
  cases hturn with
  | done hn hend hzero =>
    rcases hzero with hpos | hzero
    · simp [hpos]
    · simp [hzero]
  | overflowed hpos hfull => exact ⟨fun _ => rfl, fun _ => ⟨hpos, hfull⟩⟩
  | analyzed hroom => simpa using fun _ => hroom
  | running hb hne hroom hend htallied => simpa [hb] using fun _ => hroom

/-- **Overflows are all seen, and nothing else is taken for one**: the program gives up after exactly the batches that
    have no room. -/
theorem runTest_overflowed_iff (hD : DIM ≠ 0) (hD' : DIM ≤ 19) (rounds : ℕ) :
    runTest DIM next trans progress analyze n rounds (State.init DIM seed) = .exited .overflowed ↔
      ∃ r < rounds, NoRoom next trans seed DIM n (runTest DIM next trans progress analyze n r (State.init DIM seed)) := by
  induction rounds with
  | zero => simp [runTest]
  | succ rounds ih =>
    have hreached : Reached next trans seed DIM n rounds
      (runTest DIM next trans progress analyze n rounds (State.init DIM seed)) := reached hD hD' rounds
    simp only [Nat.lt_succ_iff_lt_or_eq, or_and_right, exists_or, exists_eq_left, ← ih]
    rw [runTest_succ]
    generalize runTest DIM next trans progress analyze n rounds (State.init DIM seed) = o at hreached
    cases hreached with
    | running h hle hr =>
      rename_i N st
      have hno : NoRoom next trans seed DIM n (.running st) ↔
        Hwd.testRound DIM next trans progress analyze n st = .exited .overflowed := noRoom_iff hD hD' h hle
      simp [hno]
    | done h hle hn hend => simp [NoRoom]
    | exited e => simp [NoRoom]

/-- A generator that only puts out zeros. -/
def zeros (w : Rng32) : Rng32 × Rng32 := (0, w)

theorem signature_zeros (seed : Rng32) (i : ℕ) : signature zeros false seed 1 (i + 1) = 0 := by
  have hweight : weight zeros false seed i = 0 := show popcount32 0 = 0 by decide
  rw [signature, window, sum_range_one, digit, if_neg (by omega), Nat.add_zero, Nat.add_sub_cancel, hweight]
  rfl

theorem occurs_zeros (seed : Rng32) {n : ℕ} (hn : 1 ≤ n) : n - 1 ≤ occurs zeros false seed 1 0 n 0 := by
  have hlater : occurs zeros false seed 1 1 n 0 = n - 1 := by
    have hone : occurs zeros false seed 1 1 n 0 = ∑ i ∈ Ico 1 n, 1 := by
      refine sum_congr rfl fun i hi => if_pos ?_
      obtain ⟨k, rfl⟩ : ∃ k, i = k + 1 := ⟨i - 1, by have := (mem_Ico.1 hi).1; omega⟩
      exact signature_zeros seed k
    rw [hone]; simp
  rw [occurs, count, ← tally_append _ _ (Nat.zero_le 1) hn]
  exact hlater ▸ Nat.le_add_left _ _

/-- It fails the shortest test in the first batch. -/
theorem runTest_overflowed_iff_zeros :
    runTest 1 zeros false false (fun _ _ => false) (-1) 1 (State.init 1 0) = .exited .overflowed := by
  refine (runTest_overflowed_iff (by decide) (by decide) 1).2
    ⟨0, by decide, 0, State.init 1 0, rfl, rfl, .inl (by decide), 0, ?_⟩
  have hb : (nextBatchSize 1 (-1) (State.init 1 (0 : Rng32)).pos).toNat = 16904 := by decide
  rw [hb, Nat.zero_add]
  exact (show 8191 < 16904 - 1 by decide).trans_le (occurs_zeros 0 (by decide))

end

end

end ThundeRiNG.Hwd
