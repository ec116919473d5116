import Mathlib.Algebra.Group.Hom.End
import Mathlib.Algebra.Group.Prod
import Mathlib.Data.BitVec
import Mathlib.Data.LawfulXor.Basic
import Mathlib.Tactic.Abel

/-!
# Xor-linear maps as an endomorphism ring

A type with a lawful `^^^` is an abelian group in which every element is its own inverse (`Vec`). The
maps that commute with `^^^` are the endomorphisms of that group, so they form a ring of
characteristic two, where the powers of a map are its iterates (`pow_toEnd_apply`). On words a
xor-linear map is determined by the single-bit words (`XorLinear.eq_zero_of_twoPow`).
-/

namespace Gf2

/-- `α` seen as the additive group of its `^^^`. -/
def Vec (α : Type*) := α

section
variable {α : Type*} [XorOp α] [Zero α] [LawfulXor α]

instance : Add (Vec α) := ⟨fun a b => (XorOp.xor a b : α)⟩
instance : Zero (Vec α) := ⟨(0 : α)⟩
instance : Neg (Vec α) := ⟨fun a => a⟩

instance : AddCommGroup (Vec α) where
  nsmul := nsmulRec
  zsmul := zsmulRec
  add_assoc := xor_assoc (α := α)
  zero_add := zero_xor (α := α)
  add_zero := xor_zero (α := α)
  neg_add_cancel := LawfulXor.xor_self (α := α)
  add_comm := xor_comm (α := α)

theorem Vec.add_self (v : Vec α) : v + v = 0 := LawfulXor.xor_self (α := α) v

theorem xor_xor_xor_comm (a b c d : α) : a ^^^ b ^^^ (c ^^^ d) = a ^^^ c ^^^ (b ^^^ d) := by
  have h : ∀ p q r s : Vec α, p + q + (r + s) = p + r + (q + s) := by
    intro p q r s
    abel
  exact h a b c d

end

/-- `f` commutes with `^^^`. -/
def XorLinear {α β : Type*} [XorOp α] [XorOp β] (f : α → β) : Prop := ∀ a b, f (a ^^^ b) = f a ^^^ f b

namespace XorLinear

section
variable {α β : Type*} [XorOp α] [XorOp β]

theorem id : XorLinear fun a : α => a := fun _ _ => rfl

theorem comp {γ : Type*} [XorOp γ] {h : β → γ} {f : α → β} (hh : XorLinear h) (hf : XorLinear f) :
    XorLinear fun a => h (f a) := by
  intro a b
  simp only [hf a b, hh (f a)]

theorem iterate {g : α → α} (hg : XorLinear g) : ∀ n, XorLinear g^[n]
  | 0 => fun _ _ => rfl
  | n + 1 => fun a b => by rw [Function.iterate_succ_apply, hg a b, iterate hg n]; rfl

theorem xor [Zero β] [LawfulXor β] {f f' : α → β} (hf : XorLinear f) (hf' : XorLinear f') :
    XorLinear fun a => f a ^^^ f' a := by
  intro a b
  simp only [hf a b, hf' a b]
  exact xor_xor_xor_comm (f a) (f b) (f' a) (f' b)

end

variable {α β : Type*} [XorOp α] [Zero α] [LawfulXor α] [XorOp β] [Zero β] [LawfulXor β] {f : α → β} {g : α → α}

theorem map_zero (hf : XorLinear f) : f 0 = 0 := by
  rw [← LawfulXor.xor_self (0 : α), hf, LawfulXor.xor_self]

theorem injective (hf : XorLinear f) (hker : ∀ a, f a = 0 → a = 0) : Function.Injective f := by
  intro a b hab
  have hzero : a ^^^ b = 0 := hker _ (by rw [hf, hab, LawfulXor.xor_self])
  calc a = (a ^^^ b) ^^^ b := by rw [xor_assoc, LawfulXor.xor_self, xor_zero]
    _ = b := by rw [hzero, zero_xor]

/-- The map as an element of the endomorphism ring. -/
def toEnd (hg : XorLinear g) : AddMonoid.End (Vec α) where
  toFun := g
  map_zero' := hg.map_zero
  map_add' := hg

theorem pow_toEnd_apply (hg : XorLinear g) (n : ℕ) (v : α) : (hg.toEnd ^ n) v = g^[n] v := by
  induction n generalizing v with
  | zero => rfl
  | succ n ih => rw [pow_succ, Function.iterate_succ_apply]; exact ih (g v)

end XorLinear

/-- The endomorphism ring has characteristic two. -/
theorem End.add_self {α : Type*} [XorOp α] [Zero α] [LawfulXor α] (r : AddMonoid.End (Vec α)) : r + r = 0 :=
  AddMonoidHom.ext fun v => Vec.add_self (r v)

/-- Addition of endomorphisms, back on `α`. -/
theorem End.add_apply {α : Type*} [XorOp α] [Zero α] [LawfulXor α] (r s : AddMonoid.End (Vec α)) (v : α) :
    (r + s) v = @XorOp.xor α _ (r v) (s v) := rfl

/-! ## Words -/

section
variable {w : ℕ} {β : Type*} [XorOp β] [Zero β] [LawfulXor β] {f : BitVec w → β} {w' : ℕ} {f' : BitVec w → BitVec w'}

theorem xorLinear_shiftLeft (n : ℕ) : XorLinear fun x : BitVec w => x <<< n :=
  fun a b => BitVec.shiftLeft_xor_distrib a b n

theorem xorLinear_ushiftRight (n : ℕ) : XorLinear fun x : BitVec w => x >>> n :=
  fun a b => BitVec.ushiftRight_xor_distrib a b n

/-- Bit `b` of `x` is bit `b - k` of it or none, so all are zero. -/
theorem eq_zero_of_xor_shiftLeft {k : ℕ} (hk : 0 < k) {x : BitVec w} (h : x ^^^ (x <<< k) = 0) : x = 0 := by
  have hbit : ∀ b, x.getLsbD b = false := by
    intro b
    induction b using Nat.strong_induction_on with
    | _ b ih =>
      have hb := congrArg (·.getLsbD b) (BitVec.xor_eq_zero_iff.1 h)
      simp only [BitVec.getLsbD_shiftLeft] at hb
      by_cases hbk : b < k
      · simpa [hbk] using hb
      · simpa [ih (b - k) (by omega)] using hb
  exact BitVec.eq_of_getLsbD_eq fun b _ => (hbit b).trans BitVec.getLsbD_zero.symm

theorem xor_shiftLeft_injective {k : ℕ} (hk : 0 < k) : Function.Injective fun x : BitVec w => x ^^^ (x <<< k) :=
  (XorLinear.xor .id (xorLinear_shiftLeft k)).injective fun _ => eq_zero_of_xor_shiftLeft hk

theorem and_one_shiftLeft_ne_zero (x : BitVec w) (j : ℕ) : x &&& ((1 : BitVec w) <<< j) ≠ 0 ↔ x.getLsbD j = true := by
  have htwo : (1 : BitVec w) <<< j = BitVec.twoPow w j := rfl
  rw [htwo, BitVec.and_twoPow]
  by_cases hx : x.getLsbD j = true
  · have hne : BitVec.twoPow w j ≠ 0 := by
      intro h
      have hval := congrArg BitVec.toNat h
      rw [BitVec.toNat_twoPow_of_lt (BitVec.lt_of_getLsbD hx)] at hval
      exact absurd hval (Nat.two_pow_pos j).ne'
    simpa [hx] using hne
  · simp [hx]

/-- The low `k` bits, one bit longer. -/
theorem setWidth_succ_eq (x : BitVec w) (k : ℕ) :
    (x.setWidth (k + 1)).setWidth w =
      (x.setWidth k).setWidth w ^^^ (if x.getLsbD k then BitVec.twoPow w k else 0) := by
  ext i hi
  by_cases hik : i = k
  · subst hik
    cases hx : x.getLsbD i <;> simp_all [BitVec.getElem_twoPow]
  · have hlt : i < k + 1 ↔ i < k := by omega
    split <;> simp [BitVec.getElem_twoPow, hik, hlt]

/-- **Single bits determine a xor-linear map**: one that kills every `2 ^ j` kills every word. -/
theorem XorLinear.eq_zero_of_twoPow (hf : XorLinear f) (h : ∀ j < w, f (BitVec.twoPow w j) = 0) (x : BitVec w) :
    f x = 0 := by
  have hlow : ∀ k ≤ w, f ((x.setWidth k).setWidth w) = 0 := by
    intro k
    induction k with
    | zero =>
      have h0 : (x.setWidth 0).setWidth w = 0 := by ext i hi; simp
      intro _; rw [h0, hf.map_zero]
    | succ k ih =>
      intro hk
      rw [setWidth_succ_eq, hf, ih (by omega), zero_xor]
      split
      · exact h k hk
      · exact hf.map_zero
  simpa using hlow w le_rfl

/-- A matrix, given by its columns, times a vector: the sum of the columns that the bits of `n` select. -/
def matVec : List ℕ → ℕ → ℕ
  | [], _ => 0
  | c :: cs, n => (n % 2 * c) ^^^ matVec cs (n / 2)

/-- The lowest bit of a shifted word, and the rest. -/
theorem ofNat_two_pow_mul (k n : ℕ) :
    BitVec.ofNat w (2 ^ k * n) =
      (if n % 2 = 1 then BitVec.twoPow w k else 0) ^^^ BitVec.ofNat w (2 ^ (k + 1) * (n / 2)) := by
  apply BitVec.eq_of_getLsbD_eq
  intro i hi
  have hlow : (if n % 2 = 1 then BitVec.twoPow w k else 0).getLsbD i = (decide (k = i) && decide (n % 2 = 1)) := by
    split <;> simp [*]
    omega
  have hrest : (n / 2).testBit (i - (k + 1)) = n.testBit (i - (k + 1) + 1) := (Nat.testBit_succ n _).symm
  rw [BitVec.getLsbD_xor, hlow, BitVec.getLsbD_ofNat, BitVec.getLsbD_ofNat, Nat.testBit_two_pow_mul,
    Nat.testBit_two_pow_mul, hrest]
  rcases lt_trichotomy i k with h | rfl | h
  · have hk : ¬ k ≤ i := by omega
    have hk' : ¬ k + 1 ≤ i := by omega
    have hne : k ≠ i := by omega
    simp [hk, hk', hne]
  · have hk' : ¬ i + 1 ≤ i := by omega
    simp [Nat.testBit_zero, hi, hk']
  · have hk : k ≤ i := by omega
    have hk' : k + 1 ≤ i := by omega
    have hidx : i - (k + 1) + 1 = i - k := by omega
    have hne : k ≠ i := by omega
    simp [hk, hk', hidx, hne]

theorem matVec_range' (hf : XorLinear f') (m k n : ℕ) (hn : n < 2 ^ m) :
    matVec ((List.range' k m).map fun i => (f' (BitVec.twoPow w i)).toNat) n =
      (f' (BitVec.ofNat w (2 ^ k * n))).toNat := by
  induction m generalizing k n with
  | zero =>
    obtain rfl : n = 0 := by simpa using hn
    have h0 := hf.map_zero
    simpa [matVec] using (congrArg BitVec.toNat h0).symm
  | succ m ih =>
    have hdiv : n / 2 < 2 ^ m := by rw [pow_succ] at hn; omega
    have hlow : (n % 2 * (f' (BitVec.twoPow w k)).toNat) =
        (f' (if n % 2 = 1 then BitVec.twoPow w k else 0)).toNat := by
      rcases Nat.mod_two_eq_zero_or_one n with h | h
      · rw [h, Nat.zero_mul, if_neg (by omega), hf.map_zero]; rfl
      · rw [h, Nat.one_mul, if_pos rfl]
    rw [List.range'_succ, List.map_cons, matVec, ih (k + 1) (n / 2) hdiv, hlow, ← BitVec.toNat_xor, ← hf,
      ← ofNat_two_pow_mul]

/-- A xor-linear map is its columns, the values at the single bits. -/
theorem matVec_columns (hf : XorLinear f') (x : BitVec w) :
    matVec ((List.range w).map fun i => (f' (BitVec.twoPow w i)).toNat) x.toNat = (f' x).toNat := by
  rw [List.range_eq_range', matVec_range' hf w 0 x.toNat x.isLt, pow_zero, Nat.one_mul, BitVec.ofNat_toNat,
    BitVec.setWidth_eq]

end

/-! ## Pairs -/

section
variable {α β γ : Type*} [XorOp α] [XorOp β] [XorOp γ]

instance xorOpProd : XorOp (α × β) := ⟨fun a b => (a.1 ^^^ b.1, a.2 ^^^ b.2)⟩

theorem prod_xor (a b : α × β) : a ^^^ b = (a.1 ^^^ b.1, a.2 ^^^ b.2) := rfl

instance lawfulXorProd [Zero α] [Zero β] [LawfulXor α] [LawfulXor β] : LawfulXor (α × β) where
  xor_assoc _ _ _ := Prod.ext (LawfulXor.xor_assoc _ _ _) (LawfulXor.xor_assoc _ _ _)
  xor_self _ := Prod.ext (LawfulXor.xor_self _) (LawfulXor.xor_self _)
  xor_zero _ := Prod.ext (LawfulXor.xor_zero _) (LawfulXor.xor_zero _)
  xor_comm _ _ := Prod.ext (LawfulXor.xor_comm _ _) (LawfulXor.xor_comm _ _)

theorem xorLinear_fst : XorLinear (Prod.fst : α × β → α) := fun _ _ => rfl
theorem xorLinear_snd : XorLinear (Prod.snd : α × β → β) := fun _ _ => rfl

theorem XorLinear.prodMk {f : γ → α} {g : γ → β} (hf : XorLinear f) (hg : XorLinear g) :
    XorLinear fun c => (f c, g c) := by
  intro a b
  simp only [hf a b, hg a b, prod_xor]

/-- A xor-linear map on pairs of words is determined by the pairs with a single bit. -/
theorem XorLinear.eq_zero_of_twoPow_prod [Zero γ] [LawfulXor γ] {w w' : ℕ} {f : BitVec w × BitVec w' → γ}
    (hf : XorLinear f) (h : ∀ j < w, f (BitVec.twoPow w j, 0) = 0) (h' : ∀ j < w', f (0, BitVec.twoPow w' j) = 0)
    (x : BitVec w × BitVec w') : f x = 0 := by
  have hfst : XorLinear fun y : BitVec w => f (y, 0) := by
    intro a b
    rw [← hf, prod_xor, xor_zero]
  have hsnd : XorLinear fun y : BitVec w' => f (0, y) := by
    intro a b
    rw [← hf, prod_xor, xor_zero]
  have hx : x = (x.1, 0) ^^^ (0, x.2) := by rw [prod_xor, xor_zero, zero_xor]
  rw [hx, hf, hfst.eq_zero_of_twoPow h, hsnd.eq_zero_of_twoPow h', xor_zero]

end

/-! ## Tuples -/

section
variable {ι α γ : Type*} [XorOp α] [XorOp γ]

instance xorOpPi : XorOp (ι → α) := ⟨fun a b i => a i ^^^ b i⟩

theorem pi_xor (a b : ι → α) (i : ι) : (a ^^^ b) i = a i ^^^ b i := rfl

instance lawfulXorPi [Zero α] [LawfulXor α] : LawfulXor (ι → α) where
  xor_assoc _ _ _ := funext fun _ => LawfulXor.xor_assoc _ _ _
  xor_self _ := funext fun _ => LawfulXor.xor_self _
  xor_zero _ := funext fun _ => LawfulXor.xor_zero _
  xor_comm _ _ := funext fun _ => LawfulXor.xor_comm _ _

theorem xorLinear_proj (i : ι) : XorLinear fun a : ι → α => a i := fun _ _ => rfl

theorem XorLinear.pi {f : γ → ι → α} (hf : ∀ i, XorLinear fun c => f c i) : XorLinear f :=
  fun a b => funext fun i => hf i a b

/-- `x` in place `i`, and nothing elsewhere. -/
def only [DecidableEq ι] [Zero α] (i : ι) (x : α) : ι → α := fun k => if i = k then x else 0

theorem xorLinear_only [DecidableEq ι] [Zero α] [LawfulXor α] (i : ι) : XorLinear (only i : α → ι → α) := by
  intro a b
  funext k
  by_cases hk : i = k
  · simp only [only, pi_xor, if_pos hk]
  · simp only [only, pi_xor, if_neg hk, xor_zero]

end

end Gf2
