import Mathlib.Data.Fintype.Card
import ThundeRiNG.Gpu.Sobol

/-!
# Direction numbers, and how evenly their points lie (`gpu/4_Finance/SobolQRNG/sobol_gold.cpp:95-145`)

The first numbers of a dimension are the `m` of its table entry, the others come out of a recurrence over them. Number `i`
has no bit below `31 - i` (`Leads`), and bit `31 - i` itself is the lowest bit of one of the `m`. When all of these are
odd, the points of every aligned stretch of `2 ^ k` are spread over all `2 ^ k` intervals of that length; when one of
them is even, some interval is missed (`stratified_iff`). The table has such entries: in 22 of them an `m` is even,
as in that of dimension 447, where it is 2014. All this is about the integers `X`: `output` has them as `float`, which
rounds to 24 bits, so that the largest are written as `1.0f`.
-/

namespace ThundeRiNG.Sobol

open Gf2 Gray Function

/-! ## The direction numbers -/

def max_m : ℕ := 17

/-- `struct primitive`; what the braces of an entry leave out is zero. Entry 0 is not used. -/
structure Primitive where
  degree : ℕ
  a : Rng32
  m : List Rng32
  pos : 0 < degree
  le : degree ≤ max_m

/-- The first dimension, `:104-108`. -/
def firstDirections (v : ℕ → Rng32) : ℕ → Rng32 :=
  (List.range 32).foldl (fun v i => update v i ((1 : Rng32) <<< (31 - i))) v

/-- The inner loop, `:136-139`. -/
def addTerms (p : Primitive) (v : ℕ → Rng32) (i : ℕ) : ℕ → Rng32 :=
  (List.range' 1 (p.degree - 1)).foldl (fun v j =>
    update v i (v i ^^^ (((p.a >>> (p.degree - 1 - j)) &&& 1) * v (i - j)))) v

/-- The other dimensions, `:112-140`. -/
def primitiveDirections (p : Primitive) (v : ℕ → Rng32) : ℕ → Rng32 :=
  let d := p.degree
  let v := (List.range d).foldl (fun v i => update v i (p.m.getD i 0 <<< (31 - i))) v
  (List.range' d (32 - d)).foldl (fun v i => addTerms p (update v i (v (i - d) ^^^ (v (i - d) >>> d))) i) v

/-- `v` points to the 32 numbers of the dimension. -/
def initSobolDirectionVectors (sobol_primitives : ℕ → Primitive) (n_dimensions : ℕ) (directions : ℕ → Rng32) :
    ℕ → Rng32 :=
  (List.range n_dimensions).foldl (fun directions dim =>
    let v := fun i => directions (32 * dim + i)
    let v := if dim = 0 then firstDirections v else primitiveDirections (sobol_primitives dim) v
    fun k => if 32 * dim ≤ k ∧ k < 32 * dim + 32 then v (k - 32 * dim) else directions k) directions

/-! ## Their lowest bits -/

/-- No bit below `31 - i`, and that bit is `b`. -/
structure Leads (i : ℕ) (x : Rng32) (b : Bool) : Prop where
  low : ∀ k < 31 - i, x.getLsbD k = false
  lead : x.getLsbD (31 - i) = b

theorem leads_zero (i : ℕ) : Leads i 0 false := ⟨fun k _ => by simp, by simp⟩

theorem leads_shiftLeft {i : ℕ} (hi : i < 32) (m : Rng32) : Leads i (m <<< (31 - i)) (m.getLsbD 0) :=
  ⟨fun k hk => by simp [hk], by simp [show 31 - i < 32 by omega]⟩

theorem Leads.xor {i : ℕ} {x y : Rng32} {b c : Bool} (hx : Leads i x b) (hy : Leads i y c) :
    Leads i (x ^^^ y) (b ^^ c) :=
  ⟨fun k hk => by rw [BitVec.getLsbD_xor, hx.low k hk, hy.low k hk]; rfl, by
    rw [BitVec.getLsbD_xor, hx.lead, hy.lead]⟩

/-- An earlier number has only zeros where a later one leads. -/
theorem Leads.of_lt {i j : ℕ} {x : Rng32} {b : Bool} (h : Leads j x b) (hj : j < i) (hi : i < 32) : Leads i x false :=
  ⟨fun k hk => h.low k (by omega), h.low _ (by omega)⟩

theorem Leads.ushiftRight {i d : ℕ} {x : Rng32} {b : Bool} (h : Leads (i - d) x b) (hd : d ≤ i) (hi : i < 32) :
    Leads i (x >>> d) b :=
  ⟨fun k hk => by rw [BitVec.getLsbD_ushiftRight, h.low _ (by omega)], by
    rw [BitVec.getLsbD_ushiftRight, show d + (31 - i) = 31 - (i - d) by omega, h.lead]⟩

theorem Leads.bit_mul {i : ℕ} {y : Rng32} (h : Leads i y false) (c : Rng32) : Leads i ((c &&& 1) * y) false := by
  have hc : c &&& 1 = if c.getLsbD 0 then 1 else 0 := by
    rw [show (1 : Rng32) = BitVec.twoPow 32 0 from rfl, BitVec.and_twoPow]; rfl
  rw [hc]
  split
  · rwa [one_mul]
  · rw [zero_mul]
    exact leads_zero i

/-- The inner loop changes number `i` only, and not where it leads. -/
theorem leads_addTerms {p : Primitive} {v : ℕ → Rng32} {i : ℕ} {b : Bool} {o : ℕ → Bool} (hd : p.degree ≤ i) (hi : i < 32)
    (hv : ∀ j < i, Leads j (v j) (o j)) (hb : Leads i (v i) b) :
    (∀ j < i, Leads j (addTerms p v i j) (o j)) ∧ Leads i (addTerms p v i i) b := by
  refine List.foldlRecOn (motive := fun v : ℕ → Rng32 => (∀ j < i, Leads j (v j) (o j)) ∧ Leads i (v i) b) _ _ ⟨hv, hb⟩ ?_
  rintro v ⟨hv, hb⟩ j hj
  have hj := List.mem_range'_1.1 hj
  constructor
  · intro j' hj'
    rw [update_of_ne (by omega)]
    exact hv j' hj'
  · have hterm := ((hv (i - j) (by omega)).of_lt (i := i) (by omega) hi).bit_mul (p.a >>> (p.degree - 1 - j))
    rw [update_self]
    simpa using hb.xor hterm

/-- **Loop invariant**: number `i` leads with the lowest bit of `m[i % degree]`. -/
theorem leads_primitiveDirections (p : Primitive) (v : ℕ → Rng32) :
    ∀ i < 32, Leads i (primitiveDirections p v i) ((p.m.getD (i % p.degree) 0).getLsbD 0) := by
  have hpos := p.pos
  have hle : p.degree ≤ 17 := p.le
  have hfirst : ∀ n ≤ p.degree, ∀ i < n,
      Leads i ((List.range n).foldl (fun v i => update v i (p.m.getD i 0 <<< (31 - i))) v i)
        ((p.m.getD (i % p.degree) 0).getLsbD 0) := by
    intro n
    induction n with
    | zero => intro _ i hi; omega
    | succ n ih =>
      intro hn i hi
      rw [List.range_succ, List.foldl_append, List.foldl_cons, List.foldl_nil]
      rcases Nat.lt_succ_iff_lt_or_eq.1 hi with hlt | rfl
      · rw [update_of_ne (by omega)]
        exact ih (by omega) i hlt
      · rw [update_self, Nat.mod_eq_of_lt (by omega)]
        exact leads_shiftLeft (by omega) _
  have hrest : ∀ n ≤ 32 - p.degree, ∀ i < p.degree + n,
      Leads i ((List.range' p.degree n).foldl (fun v i =>
          addTerms p (update v i (v (i - p.degree) ^^^ (v (i - p.degree) >>> p.degree))) i)
        ((List.range p.degree).foldl (fun v i => update v i (p.m.getD i 0 <<< (31 - i))) v) i)
        ((p.m.getD (i % p.degree) 0).getLsbD 0) := by
    intro n
    induction n with
    | zero => intro _ i hi; exact hfirst p.degree le_rfl i (by omega)
    | succ n ih =>
      intro hn i hi
      rw [List.range'_concat, List.foldl_append, List.foldl_cons, List.foldl_nil, Nat.one_mul]
      have hprev := ih (by omega)
      generalize (List.range' p.degree n).foldl _ _ = u at hprev ⊢
      -- the number `degree` places back does not reach down to where this one leads, shifted it does
      have hold := hprev (p.degree + n - p.degree) (by omega)
      have hmod : (p.degree + n - p.degree) % p.degree = (p.degree + n) % p.degree := by
        rw [Nat.add_sub_cancel_left, Nat.add_mod_left]
      rw [hmod] at hold
      have hnew := (hold.of_lt (i := p.degree + n) (by omega) (by omega)).xor (hold.ushiftRight (by omega) (by omega))
      rw [Bool.false_xor] at hnew
      obtain ⟨hbelow, hself⟩ := leads_addTerms (p := p)
        (v := update u (p.degree + n) (u (p.degree + n - p.degree) ^^^ (u (p.degree + n - p.degree) >>> p.degree)))
        (o := fun i => (p.m.getD (i % p.degree) 0).getLsbD 0) (i := p.degree + n) (by omega) (by omega)
        (fun j hj => by rw [update_of_ne (by omega)]; exact hprev j hj) (by rw [update_self]; exact hnew)
      rcases Nat.lt_succ_iff_lt_or_eq.1 (show i < (p.degree + n) + 1 by omega) with hlt | rfl
      · exact hbelow i hlt
      · exact hself
  intro i hi
  exact hrest _ le_rfl i (by omega)

theorem leads_firstDirections (v : ℕ → Rng32) : ∀ i < 32, Leads i (firstDirections v i) true := by
  have hloop : ∀ n ≤ 32, ∀ i < n,
      Leads i ((List.range n).foldl (fun v i => update v i ((1 : Rng32) <<< (31 - i))) v i) true := by
    intro n
    induction n with
    | zero => intro _ i hi; omega
    | succ n ih =>
      intro hn i hi
      rw [List.range_succ, List.foldl_append, List.foldl_cons, List.foldl_nil]
      rcases Nat.lt_succ_iff_lt_or_eq.1 hi with hlt | rfl
      · rw [update_of_ne (by omega)]
        exact ih (by omega) i hlt
      · rw [update_self]
        exact leads_shiftLeft (by omega) 1
  exact hloop 32 le_rfl

/-- What a dimension finds in its place. -/
theorem initSobolDirectionVectors_eq (sobol_primitives : ℕ → Primitive) {n_dimensions dim : ℕ} (hdim : dim < n_dimensions)
    (directions : ℕ → Rng32) : ∃ v, ∀ i < 32,
      initSobolDirectionVectors sobol_primitives n_dimensions directions (32 * dim + i) =
        (if dim = 0 then firstDirections v else primitiveDirections (sobol_primitives dim) v) i := by
  unfold initSobolDirectionVectors
  induction n_dimensions with
  | zero => omega
  | succ n ih =>
    rw [List.range_succ, List.foldl_append, List.foldl_cons, List.foldl_nil]
    rcases Nat.lt_succ_iff_lt_or_eq.1 hdim with hlt | rfl
    · obtain ⟨v, hv⟩ := ih hlt
      refine ⟨v, fun i hi => ?_⟩
      rw [if_neg (by omega)]
      exact hv i hi
    · generalize (List.range dim).foldl _ _ = u
      refine ⟨fun i => u (32 * dim + i), fun i hi => ?_⟩
      rw [if_pos (by omega), Nat.add_sub_cancel_left]

/-! ## How evenly the points lie -/

variable {v : ℕ → Rng32} {o : ℕ → Bool}

/-- Numbers before the `j`-th have nothing where the `j`-th leads. -/
theorem leads_bitSum {w j : ℕ} (hv : ∀ i < w, Leads i (v i) (o i)) (hw : w ≤ j) (hj : j < 32) (g : ℕ) :
    Leads j (bitSum w v g) false := by
  induction w with
  | zero => exact leads_zero j
  | succ w ih =>
    have hrest := ih (fun i hi => hv i (by omega)) (by omega)
    rw [bitSum_succ]
    split
    · exact hrest.xor ((hv w (by omega)).of_lt (by omega) hj)
    · exact hrest.xor (leads_zero j)

/-- The highest number that takes part leaves its leading bit. -/
theorem exists_getLsbD_bitSum {k : ℕ} (hk : k ≤ 32) (hv : ∀ i < k, Leads i (v i) true) {g : ℕ} (hg : g < 2 ^ k)
    (hg0 : g ≠ 0) : ∃ j < k, (bitSum 32 v g).getLsbD (31 - j) = true := by
  have hlog : g.log2 < k := (Nat.log2_lt hg0).2 hg
  refine ⟨g.log2, hlog, ?_⟩
  have htop : g.testBit g.log2 = true := Nat.testBit_log2 hg0
  have hlow := leads_bitSum (fun i (hi : i < g.log2) => hv i (by omega)) le_rfl (show g.log2 < 32 by omega) g
  rw [bitSum_of_lt (show g.log2 + 1 ≤ 32 by omega) v Nat.lt_log2_self, bitSum_succ, htop, if_pos rfl]
  exact (hlow.xor (hv _ hlog)).lead

/-- Every aligned stretch of `2 ^ k` points has one in each of the `2 ^ k` intervals of that length. -/
def Stratified (n_vectors : ℕ) (x : ℕ → Rng32) : Prop :=
  ∀ k c, (c + 1) * 2 ^ k ≤ n_vectors → ∀ t < 2 ^ k,
    ∃! n, (c * 2 ^ k ≤ n ∧ n < (c + 1) * 2 ^ k) ∧ (x n).toNat / 2 ^ (32 - k) = t

theorem xor_lt_of_aligned {c k a b : ℕ} (ha : a < 2 ^ k) (hb : b < 2 ^ k) : (c * 2 ^ k + a) ^^^ (c * 2 ^ k + b) < 2 ^ k := by
  refine Nat.lt_pow_two_of_testBit _ fun j hj => ?_
  rw [Nat.testBit_xor, Nat.mul_comm, Nat.testBit_two_pow_mul_add _ ha, Nat.testBit_two_pow_mul_add _ hb,
    if_neg (by omega), if_neg (by omega), Bool.xor_self]

/-- Two points of a stretch lie in different intervals. -/
theorem sobolX_top_injective {k : ℕ} (hk : k ≤ 32) (hv : ∀ i < k, Leads i (v i) true) {c a b : ℕ} (ha : a < 2 ^ k)
    (hb : b < 2 ^ k)
    (h : (sobolX v (c * 2 ^ k + a)).toNat / 2 ^ (32 - k) = (sobolX v (c * 2 ^ k + b)).toNat / 2 ^ (32 - k)) : a = b := by
  by_contra hne
  have hgray0 : gray ((c * 2 ^ k + a) ^^^ (c * 2 ^ k + b)) ≠ 0 := fun h0 => by
    have heq := Nat.xor_eq_zero_iff.1 (gray_eq_zero h0)
    omega
  obtain ⟨j, hj, hbit⟩ := exists_getLsbD_bitSum hk hv (gray_lt (xor_lt_of_aligned ha hb)) hgray0
  have hshift : sobolX v (c * 2 ^ k + a) >>> (32 - k) = sobolX v (c * 2 ^ k + b) >>> (32 - k) := by
    apply BitVec.eq_of_toNat_eq
    rw [BitVec.toNat_ushiftRight, BitVec.toNat_ushiftRight, Nat.shiftRight_eq_div_pow, Nat.shiftRight_eq_div_pow, h]
  have hbits := congrArg (·.getLsbD (k - 1 - j)) hshift
  simp only [BitVec.getLsbD_ushiftRight, show 32 - k + (k - 1 - j) = 31 - j by omega] at hbits
  rw [gray_xor, bitSum_xor, BitVec.getLsbD_xor] at hbit
  rw [show bitSum 32 v (gray (c * 2 ^ k + a)) = sobolX v (c * 2 ^ k + a) from rfl, hbits,
    show bitSum 32 v (gray (c * 2 ^ k + b)) = sobolX v (c * 2 ^ k + b) from rfl, Bool.xor_self] at hbit
  exact absurd hbit Bool.false_ne_true

theorem stratified_of_leads {n_vectors : ℕ} (hn : n_vectors < 2 ^ 31) (hv : ∀ i < 32, Leads i (v i) true) :
    Stratified n_vectors (sobolX v) := by
  intro k c hc t ht
  have hk : k ≤ 32 := by
    by_contra hlt
    have h1 : 2 ^ 32 ≤ 2 ^ k := Nat.pow_le_pow_right (by omega) (by omega)
    have h2 : 2 ^ k ≤ (c + 1) * 2 ^ k := Nat.le_mul_of_pos_left _ (by omega)
    omega
  have htop : ∀ x : Rng32, x.toNat / 2 ^ (32 - k) < 2 ^ k := fun x => by
    rw [Nat.div_lt_iff_lt_mul (Nat.two_pow_pos _), ← Nat.pow_add, Nat.add_sub_cancel' hk]
    exact x.isLt
  -- as many intervals as points, and no two points in one
  have hinj : Injective fun a : Fin (2 ^ k) =>
      (⟨(sobolX v (c * 2 ^ k + a)).toNat / 2 ^ (32 - k), htop _⟩ : Fin (2 ^ k)) := fun a b h =>
    Fin.ext (sobolX_top_injective hk (fun i hi => hv i (by omega)) a.isLt b.isLt (congrArg Fin.val h))
  obtain ⟨a, ha⟩ := (Finite.injective_iff_surjective.1 hinj) ⟨t, ht⟩
  have hsucc : (c + 1) * 2 ^ k = c * 2 ^ k + 2 ^ k := Nat.succ_mul c (2 ^ k)
  refine ⟨c * 2 ^ k + a, ⟨⟨by omega, by have := a.isLt; omega⟩, congrArg Fin.val ha⟩, ?_⟩
  rintro n ⟨⟨hle, hlt⟩, hn'⟩
  obtain ⟨b, rfl⟩ := Nat.exists_eq_add_of_le hle
  have hab := sobolX_top_injective hk (fun i hi => hv i (by omega)) (a := b) (b := a) (by omega) a.isLt
    (hn'.trans (congrArg Fin.val ha).symm)
  rw [hab]

/-- Where a number does not lead, its half of the intervals stays empty. -/
theorem not_stratified_of_leads {i : ℕ} (hi : i < 30) (hv : ∀ j ≤ i, Leads j (v j) (o j)) (ho : o i = false) :
    ¬ Stratified (2 ^ (i + 1)) (sobolX v) := by
  intro h
  obtain ⟨n, ⟨⟨-, hn⟩, hx⟩, -⟩ := h (i + 1) 0 (by rw [Nat.zero_add, Nat.one_mul]) 1 (Nat.one_lt_two_pow (by omega))
  rw [Nat.zero_add, Nat.one_mul] at hn
  have hlead : Leads i (sobolX v n) false := by
    have hrest := leads_bitSum (fun j (hj : j < i) => hv j hj.le) le_rfl (show i < 32 by omega) (gray n)
    rw [sobolX, bitSum_of_lt (show i + 1 ≤ 32 by omega) v (gray_lt hn), bitSum_succ]
    split
    · have hi' := hv i le_rfl
      rw [ho] at hi'
      exact hrest.xor hi'
    · exact hrest.xor (leads_zero i)
  have hbit : (sobolX v n).toNat.testBit (31 - i) = false := hlead.lead
  rw [Nat.testBit_eq_decide_div_mod_eq, show 31 - i = 32 - (i + 1) by omega, hx] at hbit
  exact absurd hbit (by decide)

/-- The integer `X` of point `n` of a dimension, before `sobolCPU` converts it. -/
def pointX (n_vectors d : ℕ) (v : ℕ → Rng32) (n : ℕ) : Rng32 := ((sobolCPUDimension n_vectors d v).getD n (0, 0)).2

theorem pointX_eq {n_vectors n : ℕ} (hn : 1 ≤ n_vectors) (hn' : n_vectors < 2 ^ 31) (hlt : n < n_vectors) (d : ℕ)
    (v : ℕ → Rng32) : pointX n_vectors d v n = sobolX v n := by
  rw [pointX, sobolCPUDimension_eq hn hn']
  simp [List.getD_eq_getElem?_getD, hlt]

theorem sobolX_congr {v v' : ℕ → Rng32} (h : ∀ i < 32, v i = v' i) (n : ℕ) : sobolX v n = sobolX v' n := by
  unfold sobolX bitSum xorSum
  refine List.foldl_ext _ _ _ fun x i hi => ?_
  simp only [h i (List.mem_range.1 hi)]

theorem stratified_congr {n_vectors : ℕ} {x x' : ℕ → Rng32} (h : ∀ n < n_vectors, x n = x' n) :
    Stratified n_vectors x ↔ Stratified n_vectors x' := by
  unfold Stratified
  refine forall_congr' fun k => forall_congr' fun c => forall_congr' fun hc => forall_congr' fun t => forall_congr' fun _ =>
    existsUnique_congr fun n => and_congr_right fun hn => ?_
  rw [h n (by omega)]

/-- **Even points exactly for odd `m`**: from the table to the integers `X` that `sobolCPU` goes through (before their
    conversion to `float`), for the second dimension on; the first is always even. -/
theorem stratified_iff (sobol_primitives : ℕ → Primitive) {n_dimensions d : ℕ} (hd : d < n_dimensions)
    (directions : ℕ → Rng32) :
    (∀ n_vectors, 1 ≤ n_vectors → n_vectors < 2 ^ 31 → Stratified n_vectors (pointX n_vectors d fun k =>
      initSobolDirectionVectors sobol_primitives n_dimensions directions (32 * d + k))) ↔
    d = 0 ∨ ∀ i < (sobol_primitives d).degree, ((sobol_primitives d).m.getD i 0).getLsbD 0 = true := by
  obtain ⟨u, hu⟩ := initSobolDirectionVectors_eq sobol_primitives hd directions
  have hout : ∀ n_vectors, 1 ≤ n_vectors → n_vectors < 2 ^ 31 →
      ((Stratified n_vectors (pointX n_vectors d fun k =>
        initSobolDirectionVectors sobol_primitives n_dimensions directions (32 * d + k))) ↔
      Stratified n_vectors
        (sobolX (if d = 0 then firstDirections u else primitiveDirections (sobol_primitives d) u))) := by
    intro n_vectors hn hn'
    refine stratified_congr fun n hlt => ?_
    rw [pointX_eq hn hn' hlt]
    exact sobolX_congr hu n
  have hprim := leads_primitiveDirections (sobol_primitives d) u
  constructor
  · intro h
    by_cases hd0 : d = 0
    · exact .inl hd0
    · refine .inr fun i hi => ?_
      by_contra heven
      have hi17 : i < 17 := hi.trans_le (sobol_primitives d).le
      have hpow : 2 ^ (i + 1) ≤ 2 ^ 17 := Nat.pow_le_pow_right (by omega) (by omega)
      have hbad := (hout (2 ^ (i + 1)) Nat.one_le_two_pow (by omega)).1 (h _ Nat.one_le_two_pow (by omega))
      rw [if_neg hd0] at hbad
      refine not_stratified_of_leads (by omega) (fun j hj => hprim j (by omega)) ?_ hbad
      rw [Nat.mod_eq_of_lt hi]
      simpa using heven
  · intro h n_vectors hn hn'
    rw [hout n_vectors hn hn']
    refine stratified_of_leads hn' fun i hi => ?_
    rcases h with rfl | hodd
    · rw [if_pos rfl]
      exact leads_firstDirections u i hi
    · split
      · exact leads_firstDirections u i hi
      · have hlead := hprim i hi
        rwa [hodd _ (Nat.mod_lt _ (sobol_primitives d).pos)] at hlead

/-- `sobol_primitives[446]`, the entry of dimension 447: its eleventh `m` is even. -/
def primitive447 : Primitive where
  degree := 12
  a := 1555
  m := [1, 1, 7, 13, 15, 19, 57, 11, 151, 405, 2014, 2607]
  pos := by decide
  le := by decide

/-- The points of its dimension are not spread evenly. -/
theorem stratified_iff_primitive447 :
    ¬ ∀ n_vectors, 1 ≤ n_vectors → n_vectors < 2 ^ 31 → Stratified n_vectors (pointX n_vectors 446 fun k =>
      initSobolDirectionVectors (fun _ => primitive447) 447 (fun _ => 0) (32 * 446 + k)) := by
  rw [stratified_iff (fun _ => primitive447) (by decide)]
  decide

end ThundeRiNG.Sobol
