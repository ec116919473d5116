import Mathlib.Algebra.Ring.Parity
import Mathlib.Data.List.Prime
import Mathlib.Data.Nat.Bitwise
import Mathlib.Data.Nat.Prime.Basic
import ThundeRiNG.Lib.Orbit
import ThundeRiNG.Lib.XorLinear

/-!
# GF(2) polynomials coded as bits, and exact periods of xor-linear maps

`2 ^ i` in a natural number codes the monomial `X ^ i`. `eval x m` is the value of the coded
polynomial at an element of a ring of characteristic two, and `mulMod`/`powMod` multiply and raise `X`
to a power modulo a polynomial `P` that vanishes at that element: `eval_mulMod`, `eval_powMod`.

The kernel runs these functions on `Nat` literals, so `X ^ e mod P` is checked for any `e` in `log e`
multiplications. `minimalPeriod_of_certificate` turns such checks into the exact period of a map.
-/

namespace Gf2

/-! ## Evaluation -/

section
variable {R : Type*} [Ring R] (x : R)

/-- The polynomial coded by `m`, at `x`. -/
def eval (m : ℕ) : R := if m = 0 then 0 else ((m % 2 : ℕ) : R) + x * eval (m / 2)
termination_by m
decreasing_by omega

theorem eval_zero : eval x 0 = 0 := by rw [eval]; simp

theorem eval_eq (m : ℕ) : eval x m = ((m % 2 : ℕ) : R) + x * eval x (m / 2) := by
  by_cases h : m = 0
  · subst h; simp [eval_zero]
  · rw [eval, if_neg h]

theorem eval_one : eval x 1 = 1 := by rw [eval_eq]; simp [eval_zero]

theorem eval_two_mul (m : ℕ) : eval x (2 * m) = x * eval x m := by rw [eval_eq]; simp

theorem eval_mod_two_mul (b m : ℕ) : eval x (b % 2 * m) = ((b % 2 : ℕ) : R) * eval x m := by
  rcases Nat.mod_two_eq_zero_or_one b with h | h <;> simp [h, eval_zero]

/-- Low bits and high bits. -/
theorem eval_add_two_pow_mul {n a : ℕ} (ha : a < 2 ^ n) (b : ℕ) :
    eval x (a + 2 ^ n * b) = eval x a + x ^ n * eval x b := by
  induction n generalizing a with
  | zero =>
    obtain rfl : a = 0 := by simpa using ha
    simp [eval_zero]
  | succ n ih =>
    have hmul : 2 ^ (n + 1) * b = 2 * (2 ^ n * b) := by ring
    have hmod : (a + 2 ^ (n + 1) * b) % 2 = a % 2 := by omega
    have hdiv : (a + 2 ^ (n + 1) * b) / 2 = a / 2 + 2 ^ n * b := by omega
    rw [eval_eq, hmod, hdiv, ih (by omega), eval_eq x a, pow_succ']
    rw [mul_add, mul_assoc, add_assoc]

variable {x} (h2 : ∀ r : R, r + r = 0)
include h2

theorem natCast_xor_mod_two (a b : ℕ) : (((a ^^^ b) % 2 : ℕ) : R) = ((a % 2 : ℕ) : R) + ((b % 2 : ℕ) : R) := by
  have hx : (a ^^^ b) % 2 = (a + b) % 2 := by
    rw [← pow_one 2, Nat.xor_mod_two_pow]
    rcases Nat.mod_two_eq_zero_or_one a with ha | ha <;> rcases Nat.mod_two_eq_zero_or_one b with hb | hb <;>
      simp [Nat.add_mod, ha, hb]
  rw [hx, Nat.add_mod]
  rcases Nat.mod_two_eq_zero_or_one a with ha | ha <;> rcases Nat.mod_two_eq_zero_or_one b with hb | hb <;>
    simp [ha, hb, h2]

theorem eval_xor (a b : ℕ) : eval x (a ^^^ b) = eval x a + eval x b := by
  induction a using Nat.strong_induction_on generalizing b with
  | _ a ih =>
    by_cases ha : a = 0
    · subst ha; simp [eval_zero]
    · have hdiv : (a ^^^ b) / 2 = a / 2 ^^^ b / 2 := by
        have := Nat.xor_div_two_pow (a := a) (b := b) (n := 1); simpa using this
      rw [eval_eq x (a ^^^ b), natCast_xor_mod_two h2, hdiv, ih (a / 2) (by omega), eval_eq x a, eval_eq x b,
        mul_add]
      abel

/-! ## Arithmetic modulo a polynomial -/

omit h2 in
/-- `2 * r`, reduced once if it has reached degree `n`. -/
def mulX (P n r : ℕ) : ℕ := (2 * r) ^^^ (r / 2 ^ (n - 1) % 2 * P)

theorem eval_mulX {P : ℕ} (hP : eval x P = 0) (n r : ℕ) : eval x (mulX P n r) = x * eval x r := by
  rw [mulX, eval_xor h2, eval_two_mul, eval_mod_two_mul, hP, mul_zero, add_zero]

omit h2 in
/-- Horner's rule over the low `i` bits of `b`: the code of `b * a mod P`. -/
def mulLow (P n a : ℕ) : ℕ → ℕ → ℕ
  | 0, _ => 0
  | i + 1, b => mulX P n (mulLow P n a i (b / 2)) ^^^ (b % 2 * a)

omit h2 in
def mulMod (P n b a : ℕ) : ℕ := mulLow P n a (Nat.log2 b + 1) b

theorem eval_mulLow {P : ℕ} (hP : eval x P = 0) (n a : ℕ) :
    ∀ i b, b < 2 ^ i → eval x (mulLow P n a i b) = eval x b * eval x a
  | 0, b, hb => by
    obtain rfl : b = 0 := by simpa using hb
    simp [mulLow, eval_zero]
  | i + 1, b, hb => by
    have hb' : b / 2 < 2 ^ i := by rw [Nat.div_lt_iff_lt_mul (by omega)]; rwa [pow_succ] at hb
    rw [mulLow, eval_xor h2, eval_mulX h2 hP, eval_mulLow hP n a i _ hb', eval_mod_two_mul, eval_eq x b,
      add_mul, mul_assoc, add_comm]

theorem eval_mulMod {P : ℕ} (hP : eval x P = 0) (n b a : ℕ) :
    eval x (mulMod P n b a) = eval x b * eval x a :=
  eval_mulLow h2 hP n a _ b Nat.lt_log2_self

omit h2 in
/-- The code of `X ^ (e mod 2 ^ i) mod P`. -/
def powLow (P n : ℕ) : ℕ → ℕ → ℕ
  | 0, _ => 1
  | i + 1, e =>
    let r := powLow P n i (e / 2)
    let s := mulMod P n r r
    if e % 2 = 1 then mulX P n s else s

omit h2 in
def powMod (P n e : ℕ) : ℕ := powLow P n (Nat.log2 e + 1) e

theorem eval_powLow {P : ℕ} (hP : eval x P = 0) (n : ℕ) :
    ∀ i e, e < 2 ^ i → eval x (powLow P n i e) = x ^ e
  | 0, e, he => by
    obtain rfl : e = 0 := by simpa using he
    simp [powLow, eval_one]
  | i + 1, e, he => by
    have he' : e / 2 < 2 ^ i := by rw [Nat.div_lt_iff_lt_mul (by omega)]; rwa [pow_succ] at he
    have hsq : eval x (mulMod P n (powLow P n i (e / 2)) (powLow P n i (e / 2))) = x ^ (2 * (e / 2)) := by
      rw [eval_mulMod h2 hP, eval_powLow hP n i _ he', ← pow_add, two_mul]
    simp only [powLow]
    split
    · rename_i hodd
      rw [eval_mulX h2 hP, hsq, ← pow_succ']; congr 1; omega
    · rw [hsq]; congr 1; omega

theorem eval_powMod {P : ℕ} (hP : eval x P = 0) (n e : ℕ) : eval x (powMod P n e) = x ^ e :=
  eval_powLow h2 hP n _ e Nat.lt_log2_self

end

/-! ## Acting on a vector -/

section
variable {α : Type*} [XorOp α] [Zero α] [LawfulXor α]

/-- Horner's rule for the coded polynomial of a map, on one vector. -/
def applyLow (f : α → α) (v : α) : ℕ → ℕ → α
  | 0, _ => 0
  | i + 1, m => (if m % 2 = 1 then v else 0) ^^^ f (applyLow f v i (m / 2))

def apply (f : α → α) (m : ℕ) (v : α) : α := applyLow f v (Nat.log2 m + 1) m

variable {f : α → α} (hf : XorLinear f)
include hf

theorem eval_toEnd_eq_applyLow (v : α) : ∀ i m, m < 2 ^ i → eval hf.toEnd m v = applyLow f v i m
  | 0, m, hm => by
    obtain rfl : m = 0 := by simpa using hm
    rw [eval_zero]; rfl
  | i + 1, m, hm => by
    have hm' : m / 2 < 2 ^ i := by rw [Nat.div_lt_iff_lt_mul (by omega)]; rwa [pow_succ] at hm
    have hrec : (hf.toEnd * eval hf.toEnd (m / 2)) v = f (applyLow f v i (m / 2)) :=
      congrArg f (eval_toEnd_eq_applyLow v i _ hm')
    have hlow : ((m % 2 : ℕ) : AddMonoid.End (Vec α)) v = if m % 2 = 1 then v else (0 : α) := by
      rcases Nat.mod_two_eq_zero_or_one m with h | h <;> rw [h] <;> simp <;> rfl
    rw [eval_eq]
    exact (End.add_apply _ _ v).trans (congrArg₂ (@XorOp.xor α _) hlow hrec)

theorem eval_toEnd_apply (m : ℕ) (v : α) : eval hf.toEnd m v = apply f m v :=
  eval_toEnd_eq_applyLow hf v _ m Nat.lt_log2_self

/-- A polynomial in a xor-linear map is xor-linear. -/
theorem xorLinear_apply (m : ℕ) : XorLinear (apply f m) := by
  intro a b
  rw [← eval_toEnd_apply hf, ← eval_toEnd_apply hf, ← eval_toEnd_apply hf]
  exact (eval hf.toEnd m).map_add a b

theorem eval_toEnd_comm (m : ℕ) : Commute (eval hf.toEnd m) hf.toEnd := by
  induction m using Nat.strong_induction_on with
  | _ m ih =>
    by_cases h : m = 0
    · subst h; rw [eval_zero]; exact Commute.zero_left _
    · rw [eval_eq]
      exact (Nat.cast_commute _ _).add_left ((Commute.refl _).mul_left (ih _ (by omega)))

/-- …and commutes with it. -/
theorem apply_comm (m : ℕ) (v : α) : apply f m (f v) = f (apply f m v) := by
  rw [← eval_toEnd_apply hf, ← eval_toEnd_apply hf]
  exact DFunLike.congr_fun (eval_toEnd_comm hf m).eq v

/-- A nonzero vector that comes back has never been zero: from zero there is no way out. -/
theorem iterate_ne_zero {v : α} (hv : v ≠ 0) {N : ℕ} (hN : 0 < N) (hper : Function.minimalPeriod f v = N) (k : ℕ) :
    f^[k] v ≠ 0 := by
  intro h
  have hret : f^[N * (k + 1)] v = v := (Orbit.iterate_eq_self_iff hper _).2 (Dvd.intro _ rfl)
  have hle : k ≤ N * (k + 1) := k.le_succ.trans (Nat.le_mul_of_pos_left _ hN)
  rw [← Nat.sub_add_cancel hle, Function.iterate_add_apply, h, (hf.iterate _).map_zero] at hret
  exact hv hret.symm

theorem apply_zero (v : α) : apply f 0 v = 0 := by
  rw [← eval_toEnd_apply hf, eval_zero]; rfl

theorem apply_one (v : α) : apply f 1 v = v := by
  rw [← eval_toEnd_apply hf, eval_one]; rfl

theorem apply_add_two_pow_mul {n a : ℕ} (ha : a < 2 ^ n) (b : ℕ) (v : α) :
    apply f (a + 2 ^ n * b) v = apply f a v ^^^ apply f b (f^[n] v) := by
  have hcomm : Commute (hf.toEnd ^ n) (eval hf.toEnd b) :=
    (Commute.pow_left (eval_toEnd_comm hf b).symm n)
  rw [← eval_toEnd_apply hf, eval_add_two_pow_mul _ ha, hcomm.eq, ← eval_toEnd_apply hf, ← eval_toEnd_apply hf,
    ← hf.pow_toEnd_apply]
  rfl

variable {P : ℕ} (hP : ∀ v, apply f P v = 0)
include hP

theorem eval_toEnd_eq_zero : eval hf.toEnd P = 0 :=
  AddMonoidHom.ext fun v => (eval_toEnd_apply hf P v).trans (hP v)

/-- **Jump-ahead**: `k` steps are the action of `X ^ k mod P`. -/
theorem iterate_eq_apply_powMod (n k : ℕ) (v : α) : f^[k] v = apply f (powMod P n k) v := by
  rw [← eval_toEnd_apply hf, eval_powMod End.add_self (eval_toEnd_eq_zero hf hP), hf.pow_toEnd_apply]

theorem iterate_eq_of_powMod {n k : ℕ} (h : powMod P n k = 1) (v : α) : f^[k] v = v := by
  rw [iterate_eq_apply_powMod hf hP n, h, ← eval_toEnd_apply hf, eval_one]; rfl

/-- If `X ^ k - 1` is a unit modulo `P`, no nonzero vector returns after `k` steps. -/
theorem iterate_ne_of_unit {n k u : ℕ} (hu : mulMod P n u (powMod P n k ^^^ 1) = 1) {v : α} (hv : v ≠ 0) :
    f^[k] v ≠ v := by
  intro hk
  have h0 := eval_toEnd_eq_zero hf hP
  have hinv : eval hf.toEnd u * (hf.toEnd ^ k + 1) = 1 := by
    rw [← eval_powMod End.add_self h0 n, ← eval_one hf.toEnd, ← eval_xor End.add_self,
      ← eval_mulMod End.add_self h0 n, hu]
  have hkill : (hf.toEnd ^ k + 1) v = (0 : Vec α) :=
    (congrArg (@XorOp.xor α _ · v) ((hf.pow_toEnd_apply k v).trans hk)).trans (Vec.add_self v)
  have h1 : eval hf.toEnd u ((hf.toEnd ^ k + 1) v) = v := DFunLike.congr_fun hinv v
  rw [hkill, map_zero] at h1
  exact hv h1.symm

/-- **Exact period from a certificate**: `c` lists the primes of the period `N` with an inverse of
    `X ^ (N / q) - 1` for each. -/
theorem minimalPeriod_of_certificate {n N : ℕ} {c : List (ℕ × ℕ)} (hprod : (c.map Prod.fst).prod = N)
    (hprime : ∀ q ∈ c.map Prod.fst, q.Prime) (hN : powMod P n N = 1)
    (hq : ∀ q ∈ c, mulMod P n q.2 (powMod P n (N / q.1) ^^^ 1) = 1) {v : α} (hv : v ≠ 0) :
    Function.minimalPeriod f v = N := by
  apply Orbit.minimalPeriod_eq_of_quotients (iterate_eq_of_powMod hf hP hN v)
  intro p hp hpN
  have hmem : p ∈ c.map Prod.fst :=
    mem_list_primes_of_dvd_prod hp.prime (fun q h => (hprime q h).prime) (hprod ▸ hpN)
  obtain ⟨⟨q, u⟩, hqu, rfl⟩ := List.mem_map.1 hmem
  exact iterate_ne_of_unit hf hP (hq _ hqu) hv

end

/-! ## Evaluating while stepping

The usual jump loop keeps no power of the map: it steps the vector itself, once for each coefficient, and adds
it to a sum where the coefficient is set. Coefficients come as a list of words, low bits first. -/

section
variable {α : Type*} [XorOp α] [Zero α] [LawfulXor α] {w : ℕ}

/-- The coefficients of a word list as one number. -/
def ofWords : List (BitVec w) → ℕ
  | [] => 0
  | word :: words => word.toNat + 2 ^ w * ofWords words

/-- One coefficient: the sum so far and the stepped vector. -/
def jumpBit (f : α → α) (word : BitVec w) (p : α × α) (b : ℕ) : α × α :=
  (if word.getLsbD b then p.1 ^^^ p.2 else p.1, f p.2)

def jumpWords (f : α → α) (words : List (BitVec w)) (p : α × α) : α × α :=
  words.foldl (fun p word => (List.range w).foldl (jumpBit f word) p) p

variable {f : α → α} (hf : XorLinear f)
include hf

theorem foldl_jumpBit (word : BitVec w) (n : ℕ) (p : α × α) :
    (List.range n).foldl (jumpBit f word) p = (p.1 ^^^ apply f (word.toNat % 2 ^ n) p.2, f^[n] p.2) := by
  induction n with
  | zero => simp [Nat.mod_one, apply_zero hf]
  | succ n ih =>
    have hlt : word.toNat % 2 ^ n < 2 ^ n := Nat.mod_lt _ (Nat.two_pow_pos n)
    have hbit : word.toNat / 2 ^ n % 2 = if word.getLsbD n then 1 else 0 := by
      rw [BitVec.getLsbD, ← Nat.toNat_testBit]; cases word.toNat.testBit n <;> rfl
    rw [List.range_succ, List.foldl_append, ih, List.foldl_cons, List.foldl_nil, jumpBit,
      Function.iterate_succ_apply', Nat.mod_pow_succ, apply_add_two_pow_mul hf hlt, hbit]
    cases word.getLsbD n
    · simp [apply_zero hf]
    · simp [apply_one hf, xor_assoc]

/-- **Jump loop**: it evaluates the coded polynomial. -/
theorem jumpWords_eq (words : List (BitVec w)) (p : α × α) :
    jumpWords f words p = (p.1 ^^^ apply f (ofWords words) p.2, f^[w * words.length] p.2) := by
  induction words generalizing p with
  | nil => simp [jumpWords, ofWords, apply_zero hf]
  | cons word words ih =>
    have hmod : word.toNat % 2 ^ w = word.toNat := Nat.mod_eq_of_lt word.isLt
    have hlen : w * (word :: words).length = w * words.length + w := by rw [List.length_cons]; ring
    rw [jumpWords, List.foldl_cons, ← jumpWords, foldl_jumpBit hf, ih, hmod, ofWords,
      apply_add_two_pow_mul hf word.isLt, hlen, Function.iterate_add_apply, xor_assoc]

/-- If the coefficients are those of `X ^ k mod P`, the loop jumps `k` steps. -/
theorem jumpWords_of_powMod {P n k : ℕ} (hP : ∀ v, apply f P v = 0) {words : List (BitVec w)}
    (h : powMod P n k = ofWords words) (v : α) : (jumpWords f words (0, v)).1 = f^[k] v := by
  rw [jumpWords_eq hf, iterate_eq_apply_powMod hf hP n k, h, zero_xor]

end

end Gf2
