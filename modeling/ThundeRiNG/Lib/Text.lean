import Mathlib.Data.List.Infix
import Mathlib.Data.Nat.Find

/-!
# Text as a list of characters

First occurrences are `List.dropInfix?`: the text before and the text after. `rewriteLoop` replaces the first
occurrence of a pattern until there is none, so it may read what it has written; `subst` goes over the text once
and replaces the leftmost non-overlapping occurrences. They agree when the pattern and the replacement have no
letter in common (`rewriteLoop_eq_subst`), and then the loop ends; it also does when each replacement takes away a letter
for good (`exists_rewriteLoop`).

Lines are what `getline` reads (`getlines`) and what printing each with a newline writes (`unlines`).
-/

namespace Text

variable {α : Type*} [DecidableEq α] {pat rep s a b : List α}

/-! ## The first occurrence -/

theorem dropInfix_eq_some : s.dropInfix? pat = some (a, b) ↔
    s = a ++ pat ++ b ∧ ∀ a' b', s = a' ++ pat ++ b' → a.length ≤ a'.length := by
  rw [List.dropInfix?_eq_some_iff]
  constructor
  · rintro ⟨⟨i, h, hi⟩, hmin⟩
    obtain rfl := eq_of_beq hi
    exact ⟨h, fun a' b' h' => hmin a' i b' h' (beq_self_eq_true i)⟩
  · rintro ⟨h, hmin⟩
    refine ⟨⟨pat, h, beq_self_eq_true pat⟩, fun a' i b' h' hi => ?_⟩
    obtain rfl := eq_of_beq hi
    exact hmin a' b' h'

theorem dropInfix_eq_none : s.dropInfix? pat = none ↔ ¬ pat <:+: s := by
  constructor
  · rintro h ⟨a, b, hab⟩
    -- among the places where the pattern stands there is a first one
    have hex : ∃ n, ∃ a b, s = a ++ pat ++ b ∧ a.length = n := ⟨_, a, b, hab.symm, rfl⟩
    classical
    obtain ⟨a₀, b₀, h₀, hlen⟩ := Nat.find_spec hex
    have hfirst : s.dropInfix? pat = some (a₀, b₀) := by
      refine dropInfix_eq_some.2 ⟨h₀, fun a' b' h' => ?_⟩
      rw [hlen]
      exact Nat.find_min' hex ⟨a', b', h', rfl⟩
    rw [h] at hfirst
    exact absurd hfirst (by simp)
  · intro h
    cases hs : s.dropInfix? pat with
    | none => rfl
    | some p => exact absurd ⟨p.1, p.2, (dropInfix_eq_some.1 hs).1.symm⟩ h

omit [DecidableEq α] in
/-- Two blocks of one text that share no letter do not overlap. -/
theorem blocks_apart {x y : List α} (hrep : rep ≠ []) (hpat : pat ≠ []) (hdisj : ∀ c ∈ rep, c ∉ pat)
    (h : a ++ rep ++ b = x ++ pat ++ y) : a.length + rep.length ≤ x.length ∨ x.length + pat.length ≤ a.length := by
  have hrep' := List.length_pos_iff.2 hrep
  have hpat' := List.length_pos_iff.2 hpat
  by_contra hover
  rw [not_or, Nat.not_le, Nat.not_le] at hover
  -- the later of the two starts lies in both blocks
  have hi := congrArg (fun l => l[max a.length x.length]?) h
  have hl : (a ++ rep ++ b)[max a.length x.length]? = rep[max a.length x.length - a.length]? := by
    rw [List.getElem?_append_left (by rw [List.length_append]; omega), List.getElem?_append_right (by omega)]
  have hr : (x ++ pat ++ y)[max a.length x.length]? = pat[max a.length x.length - x.length]? := by
    rw [List.getElem?_append_left (by rw [List.length_append]; omega), List.getElem?_append_right (by omega)]
  have hlt : max a.length x.length - a.length < rep.length := by omega
  simp only [hl, hr, List.getElem?_eq_getElem hlt] at hi
  exact hdisj _ (List.getElem_mem hlt) (List.mem_of_getElem? hi.symm)

/-! ## One pass over the text -/

/-- `k` letters of an occurrence are still to be skipped. -/
def substGo (pat rep : List α) : ℕ → List α → List α
  | _, [] => []
  | k + 1, _ :: s => substGo pat rep k s
  | 0, c :: s => if pat.isPrefixOf (c :: s) then rep ++ substGo pat rep (pat.length - 1) s else c :: substGo pat rep 0 s

/-- Every leftmost non-overlapping occurrence of `pat` becomes `rep`. -/
def subst (pat rep s : List α) : List α := substGo pat rep 0 s

@[simp] theorem subst_nil : subst pat rep [] = [] := by simp [subst, substGo]

theorem substGo_eq_subst_drop : ∀ (k : ℕ) (s : List α), substGo pat rep k s = subst pat rep (s.drop k)
  | k, [] => by simp [substGo]
  | 0, c :: s => rfl
  | k + 1, c :: s => by simp [substGo, substGo_eq_subst_drop k s]

theorem subst_needle_append (hpat : pat ≠ []) : subst pat rep (pat ++ b) = rep ++ subst pat rep b := by
  obtain ⟨c, w, rfl⟩ := List.exists_cons_of_ne_nil hpat
  have hp : (c :: w).isPrefixOf (c :: (w ++ b)) = true := List.isPrefixOf_iff_prefix.2 ⟨b, rfl⟩
  rw [List.cons_append, subst, substGo, if_pos hp, substGo_eq_subst_drop]
  simp

theorem subst_cons_of_ne {c : α} (h : ¬ pat <+: c :: s) : subst pat rep (c :: s) = c :: subst pat rep s := by
  have hp : ¬ pat.isPrefixOf (c :: s) = true := fun hp => h (List.isPrefixOf_iff_prefix.1 hp)
  rw [subst, substGo, if_neg hp, subst]

theorem subst_eq_self (h : ¬ pat <:+: s) : subst pat rep s = s := by
  induction s with
  | nil => rw [subst_nil]
  | cons c s ih =>
    rw [subst_cons_of_ne fun hp => h hp.isInfix, ih fun hi => h (List.infix_cons hi)]

/-- Up to the first occurrence nothing changes. -/
theorem subst_of_dropInfix (hpat : pat ≠ []) (h : s.dropInfix? pat = some (a, b)) :
    subst pat rep s = a ++ rep ++ subst pat rep b := by
  induction a generalizing s with
  | nil =>
    obtain ⟨rfl, _⟩ := dropInfix_eq_some.1 h
    rw [List.nil_append, List.nil_append, subst_needle_append hpat]
  | cons c a ih =>
    obtain ⟨rfl, hmin⟩ := dropInfix_eq_some.1 h
    have hnot : ¬ pat <+: c :: (a ++ pat ++ b) := fun ⟨r, hr⟩ => absurd (hmin [] r (by simpa using hr.symm)) (by simp)
    have htail : (a ++ pat ++ b).dropInfix? pat = some (a, b) := by
      refine dropInfix_eq_some.2 ⟨rfl, fun a' b' h' => ?_⟩
      have := hmin (c :: a') b' (by simpa using h')
      simpa using this
    rw [List.cons_append, List.cons_append, subst_cons_of_ne hnot, ih htail]
    simp

theorem mem_substGo {c : α} {k : ℕ} (h : c ∈ substGo pat rep k s) : c ∈ rep ∨ c ∈ s := by
  induction s generalizing k with
  | nil => simp [substGo] at h
  | cons d s ih =>
    cases k with
    | succ k => exact (ih h).imp_right (List.mem_cons_of_mem d)
    | zero =>
      rw [substGo] at h
      split at h
      · rcases List.mem_append.1 h with h | h
        · exact Or.inl h
        · exact (ih h).imp_right (List.mem_cons_of_mem d)
      · rcases List.mem_cons.1 h with rfl | h
        · exact Or.inr List.mem_cons_self
        · exact (ih h).imp_right (List.mem_cons_of_mem d)

theorem mem_subst {c : α} (h : c ∈ subst pat rep s) : c ∈ rep ∨ c ∈ s := mem_substGo h

/-! ## Replacing the first occurrence, again and again -/

def replaceFirst (pat rep s : List α) : Option (List α) := (s.dropInfix? pat).map fun p => p.1 ++ rep ++ p.2

/-- `none`: still going on after `fuel` searches. -/
def rewriteLoop (pat rep : List α) : ℕ → List α → Option (List α)
  | 0, _ => none
  | fuel + 1, s =>
    match replaceFirst pat rep s with
    | none => some s
    | some s' => rewriteLoop pat rep fuel s'

/-- No occurrence of `pat` in `pre ++ s` starts in `pre`. -/
def Clean (pat pre s : List α) : Prop := ∀ x y, pre ++ s = x ++ pat ++ y → pre.length ≤ x.length

theorem Clean.dropInfix_append {pre : List α} (hc : Clean pat pre s) :
    (pre ++ s).dropInfix? pat = (s.dropInfix? pat).map fun p => (pre ++ p.1, p.2) := by
  cases hs : s.dropInfix? pat with
  | none =>
    refine dropInfix_eq_none.2 fun ⟨x, y, hxy⟩ => dropInfix_eq_none.1 hs ?_
    obtain ⟨z, rfl⟩ : pre <+: x := List.prefix_of_prefix_length_le (List.prefix_append pre s)
      ⟨pat ++ y, by rw [← List.append_assoc, hxy]⟩ (hc x y hxy.symm)
    refine ⟨z, y, (List.append_right_inj pre).1 ?_⟩
    simpa using hxy
  | some p =>
    obtain ⟨rfl, hmin⟩ := dropInfix_eq_some.1 hs
    refine dropInfix_eq_some.2 ⟨by simp, fun x y hxy => ?_⟩
    obtain ⟨z, rfl⟩ : pre <+: x := List.prefix_of_prefix_length_le (List.prefix_append pre _)
      ⟨pat ++ y, by rw [← List.append_assoc, hxy]⟩ (hc x y hxy)
    have := hmin z y ((List.append_right_inj pre).1 (by simpa using hxy))
    simpa using this

/-- After a step of the loop no occurrence starts before the end of what was written. -/
theorem Clean.step {pre : List α} (hrep : rep ≠ []) (hpat : pat ≠ []) (hdisj : ∀ c ∈ rep, c ∉ pat)
    (hc : Clean pat pre s) (hs : s.dropInfix? pat = some (a, b)) : Clean pat (pre ++ a ++ rep) b := by
  obtain ⟨rfl, hmin⟩ := dropInfix_eq_some.1 hs
  intro x y hxy
  rcases blocks_apart hrep hpat hdisj hxy with h | h
  · rwa [List.length_append]
  · -- an occurrence that ends before `rep` stood in the text before the step, and earlier than the first one
    obtain ⟨z, hz⟩ : x ++ pat <+: pre ++ a := List.prefix_of_prefix_length_le ⟨y, hxy.symm⟩
      ⟨rep ++ b, by simp⟩ (by simpa using h)
    have hold : pre ++ (a ++ pat ++ b) = x ++ pat ++ (z ++ pat ++ b) := by
      rw [← List.append_assoc, ← List.append_assoc, ← hz]; simp
    obtain ⟨w, rfl⟩ : pre <+: x := List.prefix_of_prefix_length_le (List.prefix_append pre _)
      ⟨pat ++ (z ++ pat ++ b), by rw [← List.append_assoc, hold]⟩ (hc x _ hold)
    have hw := hmin w (z ++ pat ++ b) ((List.append_right_inj pre).1 (by simpa using hold))
    have hlen := congrArg List.length hz
    have hpos := List.length_pos_iff.2 hpat
    simp only [List.length_append] at hlen
    omega

theorem rewriteLoop_append (hrep : rep ≠ []) (hpat : pat ≠ []) (hdisj : ∀ c ∈ rep, c ∉ pat) (fuel : ℕ) (pre : List α)
    (hc : Clean pat pre s) (hfuel : s.length < fuel) :
    rewriteLoop pat rep fuel (pre ++ s) = some (pre ++ subst pat rep s) := by
  induction fuel generalizing pre s with
  | zero => omega
  | succ fuel ih =>
    rw [rewriteLoop, replaceFirst, hc.dropInfix_append]
    cases hs : s.dropInfix? pat with
    | none => simp [subst_eq_self (dropInfix_eq_none.1 hs)]
    | some p =>
      obtain ⟨a, b⟩ := p
      have hlen : b.length < fuel := by
        have := congrArg List.length (dropInfix_eq_some.1 hs).1
        have hpos := List.length_pos_iff.2 hpat
        simp only [List.length_append] at this
        omega
      simp only [Option.map_some]
      rw [ih _ (hc.step hrep hpat hdisj hs) hlen, subst_of_dropInfix hpat hs]
      simp

/-- The loop ends, with the one-pass replacement, when nothing it writes can be part of an occurrence. -/
theorem rewriteLoop_eq_subst (hrep : rep ≠ []) (hpat : pat ≠ []) (hdisj : ∀ c ∈ rep, c ∉ pat) {fuel : ℕ}
    (hfuel : s.length < fuel) : rewriteLoop pat rep fuel s = some (subst pat rep s) :=
  rewriteLoop_append hrep hpat hdisj fuel [] (fun _ _ _ => Nat.zero_le _) hfuel

/-- It ends whenever each replacement takes away a letter that does not come back. -/
theorem exists_rewriteLoop {c : α} (hpat : c ∈ pat) (hrep : c ∉ rep) {fuel : ℕ} (hfuel : s.count c < fuel) :
    ∃ s', rewriteLoop pat rep fuel s = some s' ∧ s'.count c ≤ s.count c := by
  induction fuel generalizing s with
  | zero => exact absurd hfuel (Nat.not_lt_zero _)
  | succ fuel ih =>
    rw [rewriteLoop, replaceFirst]
    cases hs : s.dropInfix? pat with
    | none => exact ⟨s, rfl, le_rfl⟩
    | some p =>
      obtain ⟨a, b⟩ := p
      have hbefore : s.count c = a.count c + pat.count c + b.count c := by
        rw [(dropInfix_eq_some.1 hs).1, List.count_append, List.count_append]
      have hafter : (a ++ rep ++ b).count c = a.count c + b.count c := by
        rw [List.count_append, List.count_append, List.count_eq_zero.2 hrep, Nat.add_zero]
      have hpos := List.count_pos_iff.2 hpat
      obtain ⟨s', hs', hle⟩ := ih (s := a ++ rep ++ b) (by omega)
      exact ⟨s', hs', by omega⟩

/-! ## Up to a letter -/

theorem decide_ne_of_notMem {c : α} (h : c ∉ s) : ∀ d ∈ s, decide (d ≠ c) = true :=
  fun _ hd => decide_eq_true fun e => h (e ▸ hd)

theorem takeWhile_ne {c : α} (h : c ∉ a) (b : List α) : (a ++ c :: b).takeWhile (· ≠ c) = a := by
  rw [List.takeWhile_append_of_pos (decide_ne_of_notMem h), List.takeWhile_cons_of_neg (by simp),
    List.append_nil]

theorem dropWhile_ne {c : α} (h : c ∉ a) (b : List α) : (a ++ b).dropWhile (· ≠ c) = b.dropWhile (· ≠ c) :=
  List.dropWhile_append_of_pos (decide_ne_of_notMem h)

/-! ## Lines -/

def getlines : List Char → List (List Char)
  | [] => []
  | c :: s =>
    if c = '\n' then [] :: getlines s
    else
      match getlines s with
      | [] => [[c]]
      | l :: ls => (c :: l) :: ls

def unlines (ls : List (List Char)) : List Char := ls.flatMap (· ++ ['\n'])

@[simp] theorem unlines_nil : unlines [] = [] := rfl

@[simp] theorem unlines_cons (l : List Char) (ls : List (List Char)) :
    unlines (l :: ls) = l ++ '\n' :: unlines ls := by simp [unlines]

theorem getlines_append_newline {l : List Char} (h : '\n' ∉ l) (s : List Char) :
    getlines (l ++ '\n' :: s) = l :: getlines s := by
  induction l with
  | nil => simp [getlines]
  | cons c l ih =>
    rw [List.mem_cons, not_or] at h
    rw [List.cons_append, getlines, if_neg (Ne.symm h.1), ih h.2]

theorem getlines_unlines {ls : List (List Char)} (h : ∀ l ∈ ls, '\n' ∉ l) : getlines (unlines ls) = ls := by
  induction ls with
  | nil => rfl
  | cons l ls ih =>
    rw [unlines_cons, getlines_append_newline (h l List.mem_cons_self), ih fun l hl => h l (List.mem_cons_of_mem _ hl)]

/-- The text is empty, or its last line is finished. -/
def EndsLine (s : List Char) : Prop := s ≠ [] → s.getLast? = some '\n'

instance (s : List Char) : Decidable (EndsLine s) := inferInstanceAs (Decidable (_ → _))

theorem EndsLine.append_left {s' : List Char} (s : List Char) (h' : EndsLine s') (hne : s' ≠ []) :
    EndsLine (s ++ s') := by
  intro _
  rw [List.getLast?_append_of_ne_nil _ hne]
  exact h' hne

theorem EndsLine.append {s s' : List Char} (h : EndsLine s) (h' : EndsLine s') : EndsLine (s ++ s') := by
  by_cases hne : s' = []
  · rwa [hne, List.append_nil]
  · exact h'.append_left s hne

theorem EndsLine.flatMap {ι : Type*} {l : List ι} {f : ι → List Char} (h : ∀ i, EndsLine (f i)) :
    EndsLine (l.flatMap f) := by
  induction l with
  | nil => simp [EndsLine]
  | cons i l ih => rw [List.flatMap_cons]; exact (h i).append ih

theorem endsLine_newline (s : List Char) : EndsLine (s ++ ['\n']) := by simp [EndsLine]

theorem eq_nil_of_getlines_eq_nil {s : List Char} (h : getlines s = []) : s = [] := by
  cases s with
  | nil => rfl
  | cons c s =>
    rw [getlines] at h
    split at h
    · simp at h
    · split at h <;> simp at h

theorem getlines_append {s s' : List Char} (h : EndsLine s) : getlines (s ++ s') = getlines s ++ getlines s' := by
  induction s with
  | nil => rfl
  | cons c s ih =>
    have hs : EndsLine s := fun hne => by rw [← h (by simp), List.getLast?_cons, List.getLast?_eq_some_getLast hne]; rfl
    rw [List.cons_append, getlines, ih hs, getlines]
    split
    · simp
    · rename_i hc
      -- the line has not ended, so it does later in `s`
      cases hl : getlines s with
      | cons l ls => simp
      | nil =>
        obtain rfl := eq_nil_of_getlines_eq_nil hl
        exact absurd (by simpa using h (by simp)) hc

theorem newline_notMem_getlines {s l : List Char} (h : l ∈ getlines s) : '\n' ∉ l := by
  induction s generalizing l with
  | nil => simp [getlines] at h
  | cons c s ih =>
    rw [getlines] at h
    split at h
    · rcases List.mem_cons.1 h with rfl | h
      · simp
      · exact ih h
    · rename_i hc
      split at h
      · obtain rfl := List.mem_singleton.1 h
        simpa using Ne.symm hc
      · rename_i l' ls hls
        rcases List.mem_cons.1 h with rfl | h
        · have := ih (l := l') (by simp [hls])
          simpa using ⟨Ne.symm hc, this⟩
        · exact ih (by simp [hls, h])

/-! ## Texts written piece by piece -/

/-- One finished line. -/
def IsLine (s : List Char) : Prop := ∃ l, '\n' ∉ l ∧ s = l ++ ['\n']

theorem IsLine.count {s : List Char} (h : IsLine s) : s.count '\n' = 1 := by
  obtain ⟨l, hl, rfl⟩ := h
  rw [List.count_append, List.count_eq_zero.2 hl]
  rfl

theorem IsLine.append_inj {p q s t : List Char} (hp : IsLine p) (hq : IsLine q) (h : p ++ s = q ++ t) :
    p = q ∧ s = t := by
  obtain ⟨l, hl, rfl⟩ := hp
  obtain ⟨l', hl', rfl⟩ := hq
  simp only [List.append_assoc, List.singleton_append] at h
  obtain rfl : l = l' := by
    rw [← takeWhile_ne hl s, h, takeWhile_ne hl' t]
  exact ⟨rfl, by simpa using h⟩

section
variable {ι : Type*} {l : List ι} {f g : ι → List Char}

/-- Texts of which corresponding pieces are one line each, or the same, are equal piece by piece. -/
theorem flatMap_eq_iff (h : ∀ x ∈ l, f x = g x ∨ IsLine (f x) ∧ IsLine (g x)) :
    l.flatMap f = l.flatMap g ↔ ∀ x ∈ l, f x = g x := by
  refine ⟨fun heq => ?_, fun heq => List.flatMap_congr heq⟩
  induction l with
  | nil => simp
  | cons x l ih =>
    rw [List.flatMap_cons, List.flatMap_cons] at heq
    obtain ⟨hx, hrest⟩ : f x = g x ∧ l.flatMap f = l.flatMap g := by
      rcases h x List.mem_cons_self with hx | ⟨hf, hg⟩
      · rw [hx] at heq
        exact ⟨hx, List.append_cancel_left heq⟩
      · exact hf.append_inj hg heq
    exact List.forall_mem_cons.2 ⟨hx, ih (fun y hy => h y (List.mem_cons_of_mem _ hy)) hrest⟩

/-- Pieces that differ in a letter by one at most, more by `p` and less by `q`. -/
theorem count_flatMap_add {c : Char} {p q : ι → Bool}
    (h : ∀ x ∈ l, (f x).count c + (p x).toNat = (g x).count c + (q x).toNat) :
    (l.flatMap f).count c + l.countP p = (l.flatMap g).count c + l.countP q := by
  induction l with
  | nil => rfl
  | cons x l ih =>
    have hx := h x List.mem_cons_self
    have hl := ih fun y hy => h y (List.mem_cons_of_mem _ hy)
    rw [List.flatMap_cons, List.flatMap_cons, List.count_append, List.count_append, List.countP_cons, List.countP_cons]
    cases hp : p x <;> cases hq : q x <;> rw [hp, hq] at hx <;> simp at hx ⊢ <;> omega

end

/-! ## Decimal numbers -/

def decimal (n : ℕ) : List Char := Nat.toDigits 10 n

theorem decimal_ne_nil (n : ℕ) : decimal n ≠ [] := Nat.toDigits_ne_nil

theorem decimal_injective : Function.Injective decimal := fun m n h => by
  rw [← Nat.ofDigitChars_ten_toDigits (n := m), ← Nat.ofDigitChars_ten_toDigits (n := n)]
  exact congrArg (Nat.ofDigitChars 10 · 0) h

theorem isDigit_of_mem_decimal {n : ℕ} {c : Char} (h : c ∈ decimal n) : c.isDigit :=
  Nat.isDigit_of_mem_toDigits (by omega) (by omega) h

theorem notMem_decimal {n : ℕ} {c : Char} (h : c.isDigit = false) : c ∉ decimal n := fun hc => by
  rw [isDigit_of_mem_decimal hc] at h
  exact absurd h (by decide)

theorem notMem_append_decimal {p : List Char} {c : Char} (hp : c ∉ p) (hc : c.isDigit = false) (n : ℕ) :
    c ∉ p ++ decimal n := fun h => (List.mem_append.1 h).elim hp (notMem_decimal hc)

end Text
