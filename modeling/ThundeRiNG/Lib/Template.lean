import Mathlib.Data.List.Chain
import Mathlib.Logic.Function.Basic
import ThundeRiNG.Lib.Text

/-!
# Templates: letters and holes

`render fill` writes the letters of a template and `fill i` for each hole `i`: one substitution of all holes at once.
Replacing the holes of one name by search (`rewriteLoop`) does the same as long as the result has no mark of a hole
in it, for marks of two different letters (`rewriteLoop_render`). Text with the mark in it never lets the loop end
(`rewriteLoop_eq_none`).
-/

namespace Text

variable {α ι : Type*} {x y : α} {pat rep s s' u v : List α}

/-! ## Marks of two letters -/

/-- A mark in a joined text is in one of the parts, or it is made where they meet. -/
theorem pair_infix_append (h : [x, y] <:+: u ++ v) :
    [x, y] <:+: u ∨ [x, y] <:+: v ∨ u.getLast? = some x ∧ v.head? = some y := by
  induction u with
  | nil => exact Or.inr (Or.inl h)
  | cons c u ih =>
    rw [List.cons_append, List.infix_cons_iff] at h
    rcases h with h | h
    · obtain ⟨rfl, hy⟩ := List.cons_prefix_cons.1 h
      cases u with
      | nil =>
        -- the mark starts with the last letter of the first part
        obtain ⟨w, rfl⟩ := hy
        exact Or.inr (Or.inr ⟨rfl, rfl⟩)
      | cons d u =>
        obtain ⟨rfl, _⟩ := List.cons_prefix_cons.1 hy
        exact Or.inl ⟨[], u, rfl⟩
    · rcases ih h with h | h | ⟨hu, hv⟩
      · exact Or.inl (List.infix_cons h)
      · exact Or.inr (Or.inl h)
      · refine Or.inr (Or.inr ⟨?_, hv⟩)
        rw [List.getLast?_cons, hu]
        rfl

theorem pair_not_infix_append_singleton (hxy : x ≠ y) (h : ¬ [x, y] <:+: u) : ¬ [x, y] <:+: u ++ [x] := by
  intro hi
  rcases pair_infix_append hi with hi | hi | ⟨_, hy⟩
  · exact h hi
  · exact absurd hi.length_le (by simp)
  · exact hxy (Option.some.inj hy)

section

variable [DecidableEq α]

/-- After text without the mark, the mark stands first where it is written. -/
theorem dropInfix_pair (hxy : x ≠ y) (h : ¬ [x, y] <:+: u) : (u ++ [x, y] ++ v).dropInfix? [x, y] = some (u, v) := by
  refine dropInfix_eq_some.2 ⟨rfl, fun a b hab => ?_⟩
  by_contra hlt
  rw [Nat.not_le] at hlt
  -- an earlier one would end inside `u` or with the first letter of this one
  obtain ⟨w, hw⟩ : a ++ [x, y] <+: u ++ [x] := List.prefix_of_prefix_length_le ⟨b, hab.symm⟩
    ⟨[y] ++ v, by simp⟩ (by simp only [List.length_append, List.length_cons, List.length_nil]; omega)
  exact pair_not_infix_append_singleton hxy h ⟨a, w, hw⟩

theorem rewriteLoop_pair (hxy : x ≠ y) (h : ¬ [x, y] <:+: u) (fuel : ℕ) :
    rewriteLoop [x, y] rep (fuel + 1) (u ++ [x, y] ++ v) = rewriteLoop [x, y] rep fuel (u ++ rep ++ v) := by
  rw [rewriteLoop, replaceFirst, dropInfix_pair hxy h]
  rfl

/-! ## When the loop does not end, and what it ends with -/

theorem rewriteLoop_eq_none (hrep : pat <:+: rep) (h : pat <:+: s) (fuel : ℕ) : rewriteLoop pat rep fuel s = none := by
  induction fuel generalizing s with
  | zero => rfl
  | succ fuel ih =>
    cases hs : s.dropInfix? pat with
    | none => exact absurd h (dropInfix_eq_none.1 hs)
    | some p =>
      rw [rewriteLoop, replaceFirst, hs]
      exact ih (hrep.trans ⟨p.1, p.2, rfl⟩)

theorem not_infix_of_rewriteLoop {fuel : ℕ} (h : rewriteLoop pat rep fuel s = some s') : ¬ pat <:+: s' := by
  induction fuel generalizing s with
  | zero => exact absurd h (by simp [rewriteLoop])
  | succ fuel ih =>
    rw [rewriteLoop, replaceFirst] at h
    cases hs : s.dropInfix? pat with
    | none =>
      rw [hs] at h
      obtain rfl := Option.some.inj h
      exact dropInfix_eq_none.1 hs
    | some p =>
      rw [hs] at h
      exact ih h

end

/-! ## Templates -/

inductive Piece (α ι : Type*) where
  | lit (c : α)
  | hole (i : ι)
deriving DecidableEq, Repr

def Piece.fill (fill : ι → List α) : Piece α ι → List α
  | .lit c => [c]
  | .hole i => fill i

def render (fill : ι → List α) (ps : List (Piece α ι)) : List α := ps.flatMap (Piece.fill fill)

@[simp] theorem render_nil (fill : ι → List α) : render fill ([] : List (Piece α ι)) = [] := rfl

@[simp] theorem render_cons (fill : ι → List α) (p : Piece α ι) (ps : List (Piece α ι)) :
    render fill (p :: ps) = p.fill fill ++ render fill ps := rfl

theorem infix_render (fill : ι → List α) {i : ι} {ps : List (Piece α ι)} (h : Piece.hole i ∈ ps) :
    fill i <:+: render fill ps := by
  obtain ⟨ps₁, ps₂, rfl⟩ := List.append_of_mem h
  exact ⟨render fill ps₁, render fill ps₂, by simp [render, Piece.fill]⟩

/-- After a hole there is no hole, and no letter of `ys`. -/
def Piece.Apart (ys : List α) : Piece α ι → Piece α ι → Prop
  | .lit _, _ => True
  | .hole _, .lit c => c ∉ ys
  | .hole _, .hole _ => False

instance [DecidableEq α] (ys : List α) : DecidableRel (Piece.Apart (ι := ι) ys)
  | .lit _, _ => isTrue trivial
  | .hole _, .lit c => inferInstanceAs (Decidable (c ∉ ys))
  | .hole _, .hole _ => isFalse id

/-- The letter `x` is not used, and each hole ends before a letter that is not in `ys`. -/
def Spaced (x : α) (ys : List α) (ps : List (Piece α ι)) : Prop := Piece.lit x ∉ ps ∧ ps.IsChain (Piece.Apart ys)

instance [DecidableEq α] [DecidableEq ι] (x : α) (ys : List α) (ps : List (Piece α ι)) : Decidable (Spaced x ys ps) :=
  inferInstanceAs (Decidable (_ ∧ _))

variable {ps : List (Piece α ι)} {ys : List α} {fill : ι → List α}

/-- A mark in the rendered text is in the text of a hole. -/
theorem Spaced.not_infix_render (hps : Spaced x ys ps) (hy : y ∈ ys) (h : ∀ i, ¬ [x, y] <:+: fill i) :
    ¬ [x, y] <:+: render fill ps := by
  obtain ⟨hlit, hchain⟩ := hps
  induction ps with
  | nil => simp [render]
  | cons p ps ih =>
    rw [List.mem_cons, not_or] at hlit
    rw [List.isChain_cons] at hchain
    intro hi
    rcases pair_infix_append hi with hi | hi | ⟨hx, hhead⟩
    · cases p with
      | lit c => exact absurd hi.length_le (by simp [Piece.fill])
      | hole i => exact h i hi
    · exact ih hlit.2 hchain.2 hi
    · cases p with
      | lit c => exact hlit.1 (congrArg Piece.lit (Option.some.inj hx).symm)
      | hole i =>
        -- the text of the hole is followed by a letter of the template, which is not `y`
        cases ps with
        | nil => exact absurd hhead (by simp)
        | cons q ps =>
          have hq := hchain.1 q rfl
          cases q with
          | hole j => exact hq
          | lit c =>
            obtain rfl : c = y := Option.some.inj hhead
            exact hq hy

variable [DecidableEq α] [DecidableEq ι]

/-- The loop fills one hole after another, when the filled template has no mark in it. -/
theorem rewriteLoop_render_append (done : List α) {i : ι} {fuel : ℕ} (hxy : x ≠ y) (hmark : fill i = [x, y])
    (h : ¬ [x, y] <:+: done ++ render (Function.update fill i rep) ps) (hfuel : ps.length < fuel) :
    rewriteLoop [x, y] rep fuel (done ++ render fill ps) =
      some (done ++ render (Function.update fill i rep) ps) := by
  induction ps generalizing done fuel with
  | nil =>
    obtain ⟨fuel, rfl⟩ := Nat.exists_eq_succ_of_ne_zero (Nat.ne_of_gt hfuel)
    simp only [render_nil, List.append_nil] at h ⊢
    rw [rewriteLoop, replaceFirst, dropInfix_eq_none.2 h]
    rfl
  | cons p ps ih =>
    obtain ⟨fuel, rfl⟩ := Nat.exists_eq_succ_of_ne_zero (Nat.ne_of_gt (Nat.lt_of_le_of_lt (Nat.zero_le _) hfuel))
    rw [List.length_cons] at hfuel
    rw [render_cons, ← List.append_assoc] at h
    rw [render_cons, render_cons, ← List.append_assoc, ← List.append_assoc]
    by_cases hp : p = .hole i
    · subst hp
      have hdone : ¬ [x, y] <:+: done := by
        rw [List.append_assoc] at h
        exact fun hi => h (hi.trans (List.prefix_append _ _).isInfix)
      simp only [Piece.fill, hmark, Function.update_self] at h ⊢
      rw [rewriteLoop_pair hxy hdone]
      exact ih _ h (by omega)
    · -- any other piece reads the same in both
      have hfill : p.fill (Function.update fill i rep) = p.fill fill := by
        cases p with
        | lit c => rfl
        | hole j => exact Function.update_of_ne (fun e => hp (congrArg Piece.hole e)) _ _
      rw [hfill] at h ⊢
      exact ih _ h (by omega)

theorem rewriteLoop_render {i : ι} {fuel : ℕ} (hxy : x ≠ y) (hmark : fill i = [x, y])
    (h : ¬ [x, y] <:+: render (Function.update fill i rep) ps) (hfuel : ps.length < fuel) :
    rewriteLoop [x, y] rep fuel (render fill ps) = some (render (Function.update fill i rep) ps) :=
  rewriteLoop_render_append [] hxy hmark h hfuel

end Text
