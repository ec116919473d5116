import Mathlib.Data.FinEnum
import Mathlib.Data.Fin.VecNotation
import Mathlib.Data.Fintype.EquivFin
import Mathlib.Data.Fintype.Pi
import Mathlib.Tactic.FinCases
import ThundeRiNG.Lib.Generator
import ThundeRiNG.Rng.Functions

/-!
# The counter based generator (`test/rngs/philox.h`)

`philox` mixes a block of four words in ten rounds; `PhiloxRNG` feeds it the blocks of a 128-bit counter and hands out
the four words of each. A round loses nothing, so the mixing is a permutation of the blocks, and one turn of the counter
hands out every block once. The counter is the caller's: what is said about starting again from it ("the index will be
incremented as its used up, so it can be used to initalise a future PhiloxRNG instance", `:58`) is `next_resume`.
-/

namespace ThundeRiNG.Philox

open Function

/-- `unsigned int[4]` -/
abbrev Block := Fin 4 → Rng32

/-- For the literals of `Fin 2` and `Fin 4`. -/
local instance neZeroTwo : NeZero 2 := ⟨by decide⟩
local instance neZeroFour : NeZero 4 := ⟨by decide⟩

/-! ## Ten rounds -/

def mulHi (a b : Rng32) : Rng32 := ((a.setWidth 64 * b.setWidth 64) >>> 32).setWidth 32

def key : Fin 2 → Rng32 := ![0x4edbf6fa, 0x6aa1107f]

def mult : Fin 2 → Rng32 := ![0xCD9E8D57, 0xD2511F53]

/-- The body of the loop, `:98-115`. -/
def round (out : Block) (rnd : ℕ) : Block :=
  let keyWeyl0 := key 0 * rnd
  let keyWeyl1 := key 1 * rnd
  ![out 1 * mult 0,
    mulHi (out 3) (mult 1) ^^^ keyWeyl1 ^^^ out 2,
    out 3 * mult 1,
    mulHi (out 1) (mult 0) ^^^ keyWeyl0 ^^^ out 0]

def philox (out : Block) : Block := (List.range' 1 10).foldl round out

/-- Both multipliers are odd. -/
theorem mul_mult_injective (i : Fin 2) : Injective (· * mult i) := by
  have hinv : mult i * ![0x6d7cae67, 0x991a7cdb] i = 1 := by fin_cases i <;> decide
  intro x y h
  calc x = x * (mult i * ![0x6d7cae67, 0x991a7cdb] i) := by rw [hinv, mul_one]
    _ = y * (mult i * ![0x6d7cae67, 0x991a7cdb] i) := by rw [← mul_assoc, ← mul_assoc, show x * mult i = y * mult i from h]
    _ = y := by rw [hinv, mul_one]

/-- The low halves of the products give back two words, and these unmask the other two. -/
theorem round_injective (rnd : ℕ) : Injective (round · rnd) := by
  intro x y h
  have h1 : x 1 = y 1 := mul_mult_injective 0 (congrFun h 0)
  have h3 : x 3 = y 3 := mul_mult_injective 1 (congrFun h 2)
  have h2 : mulHi (x 3) (mult 1) ^^^ key 1 * rnd ^^^ x 2 = mulHi (y 3) (mult 1) ^^^ key 1 * rnd ^^^ y 2 := congrFun h 1
  have h0 : mulHi (x 1) (mult 0) ^^^ key 0 * rnd ^^^ x 0 = mulHi (y 1) (mult 0) ^^^ key 0 * rnd ^^^ y 0 := congrFun h 3
  rw [h3, BitVec.xor_right_inj] at h2
  rw [h1, BitVec.xor_right_inj] at h0
  funext i
  fin_cases i <;> assumption

theorem foldl_injective {α β : Type*} {f : α → β → α} (hf : ∀ b, Injective (f · b)) (bs : List β) :
    Injective fun a => bs.foldl f a := by
  induction bs with
  | nil => exact injective_id
  | cons b bs ih => exact ih.comp (hf b)

theorem philox_bijective : Bijective philox :=
  Finite.injective_iff_bijective.1 (foldl_injective round_injective _)

/-! ## The counter -/

/-- The carries of `PhiloxRNG_next`, `:158-170`: word 3 is the lowest. -/
def moveIndex (index : Block) : Block :=
  let index := update index 3 (index 3 + 1)
  if index 3 = 0 then
    let index := update index 2 (index 2 + 1)
    if index 2 = 0 then
      let index := update index 1 (index 1 + 1)
      if index 1 = 0 then update index 0 (index 0 + 1) else index
    else index
  else index

/-- The number an index stands for, and the index of a number. -/
def counter (index : Block) : ℕ :=
  ((((index 0).toNat * 2 ^ 32 + (index 1).toNat) * 2 ^ 32) + (index 2).toNat) * 2 ^ 32 + (index 3).toNat

def ofCounter (v : ℕ) : Block :=
  ![BitVec.ofNat 32 (v / 2 ^ 96), BitVec.ofNat 32 (v / 2 ^ 64), BitVec.ofNat 32 (v / 2 ^ 32), BitVec.ofNat 32 v]

theorem counter_lt (index : Block) : counter index < 2 ^ 128 := by
  have h0 := (index 0).isLt
  have h1 := (index 1).isLt
  have h2 := (index 2).isLt
  have h3 := (index 3).isLt
  unfold counter
  omega

theorem ofCounter_counter (index : Block) : ofCounter (counter index) = index := by
  have h1 := (index 1).isLt
  have h2 := (index 2).isLt
  have h3 := (index 3).isLt
  have h0 := (index 0).isLt
  funext i
  apply BitVec.eq_of_toNat_eq
  fin_cases i <;> simp [ofCounter, counter] <;> omega

theorem ofCounter_mod (v : ℕ) : ofCounter (v % 2 ^ 128) = ofCounter v := by
  funext i
  apply BitVec.eq_of_toNat_eq
  fin_cases i <;> simp [ofCounter] <;> omega

theorem counter_ofCounter (v : ℕ) : counter (ofCounter v) = v % 2 ^ 128 := by
  simp [counter, ofCounter]
  omega

theorem add_one_eq_zero_iff (x : Rng32) : x + 1 = 0 ↔ x.toNat = 2 ^ 32 - 1 := by
  have hx := x.isLt
  rw [← BitVec.toNat_inj, BitVec.toNat_add, show (1 : Rng32).toNat = 1 from rfl, show (0 : Rng32).toNat = 0 from rfl]
  omega

/-- Every word with whether the carry reaches it. -/
theorem moveIndex_eq (index : Block) : moveIndex index =
    ![if index 3 + 1 = 0 ∧ index 2 + 1 = 0 ∧ index 1 + 1 = 0 then index 0 + 1 else index 0,
      if index 3 + 1 = 0 ∧ index 2 + 1 = 0 then index 1 + 1 else index 1,
      if index 3 + 1 = 0 then index 2 + 1 else index 2,
      index 3 + 1] := by
  funext i
  by_cases c3 : index 3 + 1#32 = 0#32
  · by_cases c2 : index 2 + 1#32 = 0#32
    · by_cases c1 : index 1 + 1#32 = 0#32 <;> fin_cases i <;> simp [moveIndex, update, c1, c2, c3]
    · fin_cases i <;> simp [moveIndex, update, c2, c3]
  · fin_cases i <;> simp [moveIndex, update, c3]

/-- The carries count. -/
theorem counter_moveIndex (index : Block) : counter (moveIndex index) = (counter index + 1) % 2 ^ 128 := by
  have h0 := (index 0).isLt
  have h1 := (index 1).isLt
  have h2 := (index 2).isLt
  have h3 := (index 3).isLt
  have hadd : ∀ (c : Prop) [Decidable c] (x : Rng32), (if c then x + 1 else x).toNat =
      if c then (x.toNat + 1) % 2 ^ 32 else x.toNat := fun c _ x => by split <;> rfl
  rw [moveIndex_eq]
  simp only [counter, Matrix.cons_val, hadd, add_one_eq_zero_iff, BitVec.toNat_add, show (1 : Rng32).toNat = 1 from rfl]
  split_ifs <;> omega

theorem moveIndex_ofCounter (v : ℕ) : moveIndex (ofCounter v) = ofCounter (v + 1) := by
  rw [← ofCounter_counter (moveIndex _), counter_moveIndex, counter_ofCounter, ofCounter_mod, ← ofCounter_mod,
    Nat.mod_add_mod, ofCounter_mod]

/-! ## Handing out the words -/

/-- The struct, with what `index` points to. -/
structure PhiloxRNG where
  index : Block
  data : Block
  next : Rng32

/-- `data` stays as it was found. -/
def philoxRNGInit (data index : Block) : PhiloxRNG := ⟨index, data, 4⟩

def philoxRNGNext (this : PhiloxRNG) : Rng32 × PhiloxRNG :=
  let this := if this.next > 3 then ⟨moveIndex this.index, philox this.index, 0⟩ else this
  (this.data (Fin.ofNat 4 this.next.toNat), { this with next := this.next + 1 })

/-- After `n` words: `q` blocks have been started, of the last of them `k` words are out. -/
def Serving (index : Block) (n : ℕ) (this : PhiloxRNG) : Prop :=
  ∃ q k, 0 < k ∧ k ≤ 4 ∧ n + 4 = 4 * q + k ∧ this.index = ofCounter (counter index + q) ∧ this.next = BitVec.ofNat 32 k ∧
    (k < 4 → this.data = philox (ofCounter (counter index + (q - 1))))

theorem serving_init (data index : Block) : Serving index 0 (philoxRNGInit data index) :=
  ⟨0, 4, by omega, le_rfl, rfl, by rw [Nat.add_zero, ofCounter_counter]; rfl, rfl, fun h => absurd h (lt_irrefl 4)⟩

/-- What a call returns, and what it keeps. -/
theorem next_of_serving {index : Block} {n : ℕ} {this : PhiloxRNG} (h : Serving index n this) :
    (philoxRNGNext this).1 = philox (ofCounter (counter index + n / 4)) (Fin.ofNat 4 n) ∧
      Serving index (n + 1) (philoxRNGNext this).2 := by
  obtain ⟨q, k, hpos, hk, hn, hindex, hnext, hdata⟩ := h
  have hto : this.next.toNat = k := by rw [hnext, BitVec.toNat_ofNat, Nat.mod_eq_of_lt (by omega)]
  have hsucc : ∀ j < 4, BitVec.ofNat 32 j + 1 = BitVec.ofNat 32 (j + 1) := fun j _ => by rw [BitVec.ofNat_add]; rfl
  rcases Nat.lt_or_eq_of_le hk with hlt | rfl
  · have hgt : ¬ this.next > 3 := fun h => absurd (show 3 < this.next.toNat from h) (by omega)
    simp only [philoxRNGNext, if_neg hgt]
    constructor
    · rw [hdata hlt, hto, show q - 1 = n / 4 by omega]
      rw [show Fin.ofNat 4 k = Fin.ofNat 4 n from Fin.ext (show k % 4 = n % 4 by omega)]
    · exact ⟨q, k + 1, by omega, hlt, by omega, hindex, by rw [hnext, hsucc k hlt], fun _ => hdata hlt⟩
  · have hgt : this.next > 3 := show 3 < this.next.toNat by omega
    simp only [philoxRNGNext, if_pos hgt]
    constructor
    · rw [hindex, show q = n / 4 by omega]
      rw [show Fin.ofNat 4 (0 : Rng32).toNat = Fin.ofNat 4 n from Fin.ext (show 0 = n % 4 by omega)]
    · exact ⟨q + 1, 1, by omega, by omega, by omega, by rw [hindex, moveIndex_ofCounter, Nat.add_assoc], rfl,
        fun _ => by rw [hindex, Nat.add_sub_cancel]⟩

theorem serving_after (data index : Block) (n : ℕ) :
    Serving index n (Generator.after philoxRNGNext n (philoxRNGInit data index)) := by
  induction n with
  | zero => exact serving_init data index
  | succ n ih =>
    rw [Generator.after_add]
    exact (next_of_serving ih).2

/-- Word `n` after `PhiloxRNG_init`. -/
def word (data index : Block) (n : ℕ) : Rng32 :=
  (philoxRNGNext (Generator.after philoxRNGNext n (philoxRNGInit data index))).1

theorem word_eq (data index : Block) (n : ℕ) :
    word data index n = philox (ofCounter (counter index + n / 4)) (Fin.ofNat 4 n) :=
  (next_of_serving (serving_after data index n)).1

/-- **Straight from a position to its word**, whatever was in `data`; and an instance begun with the index that another
    leaves behind goes on with the block after the last one that was started. -/
theorem next_resume (data data' index : Block) (n m : ℕ) :
    word data index n = philox (ofCounter (counter index + n / 4)) (Fin.ofNat 4 n) ∧
    word data' (Generator.after philoxRNGNext n (philoxRNGInit data index)).index m =
      word data index (4 * ((n + 3) / 4) + m) := by
  refine ⟨word_eq data index n, ?_⟩
  obtain ⟨q, k, hpos, hk, hn, hindex, -⟩ := serving_after data index n
  have hblock : counter index + q + m / 4 = counter index + (4 * ((n + 3) / 4) + m) / 4 := by omega
  have hword : Fin.ofNat 4 m = Fin.ofNat 4 (4 * ((n + 3) / 4) + m) :=
    Fin.ext (show m % 4 = (4 * ((n + 3) / 4) + m) % 4 by omega)
  rw [word_eq, word_eq, hindex, counter_ofCounter, ← ofCounter_mod, Nat.mod_add_mod, ofCounter_mod, hblock, hword]

/-- The block that `q` turns of the counter lead to is the one asked for, for one `q` in each round. -/
theorem existsUnique_ofCounter (v : ℕ) (b : Block) : ∃! q, q < 2 ^ 128 ∧ ofCounter (v + q) = b := by
  have hb := counter_lt b
  have hiff : ∀ q, ofCounter (v + q) = b ↔ (v + q) % 2 ^ 128 = counter b := by
    intro q
    rw [← counter_ofCounter]
    exact ⟨fun h => by rw [h], fun h => by rw [← ofCounter_counter (ofCounter _), h, ofCounter_counter]⟩
  simp only [hiff]
  refine ⟨(counter b + (2 ^ 128 - v % 2 ^ 128)) % 2 ^ 128, ⟨Nat.mod_lt _ (Nat.two_pow_pos _), by omega⟩, ?_⟩
  rintro q ⟨hlt, hq⟩
  omega

/-- **Every block once**: in one turn of the counter each block of four words is handed out exactly once. -/
theorem blocks_once (data index b : Block) :
    ∃! q, q < 2 ^ 128 ∧ ∀ i : Fin 4, word data index (4 * q + i) = b i := by
  obtain ⟨c, hc⟩ := philox_bijective.2 b
  have hword : ∀ q, (∀ i : Fin 4, word data index (4 * q + i) = b i) ↔ ofCounter (counter index + q) = c := by
    intro q
    have hi : ∀ i : Fin 4, word data index (4 * q + i) = philox (ofCounter (counter index + q)) i := fun i => by
      rw [word_eq, show (4 * q + i : ℕ) / 4 = q by omega,
        show Fin.ofNat 4 (4 * q + i) = i from Fin.ext (show (4 * q + i : ℕ) % 4 = i by omega)]
    simp only [hi, ← funext_iff, ← hc, philox_bijective.1.eq_iff]
  simp only [hword]
  exact existsUnique_ofCounter (counter index) c

end ThundeRiNG.Philox
