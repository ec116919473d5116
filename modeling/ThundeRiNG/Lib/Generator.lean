import Mathlib.Data.List.Basic
import Mathlib.Logic.Function.Iterate

/-!
# Generators, and drawing again until a value is accepted

A generator is a step `next` from a state to a value and a state. `outputs` are the values of a run, `after` its end.

`draw` is the loop of a rejection sampler over it: it draws until a value is accepted and returns it after some last
treatment `post`. What a row of calls returns is what the generator puts out, with the rejected values left out
(`calls_eq_filter`); a stretch of the generator that accepts `k` values is therefore what `k` calls return, wherever the
calls begin and end (`calls_eq_of_length`).
-/

namespace Generator

variable {S A B : Type*} (next : S → A × S)

/-- The state after `n` draws. -/
def after (n : ℕ) (s : S) : S := (fun s => (next s).2)^[n] s

/-- The next `n` values of the generator. -/
def outputs : ℕ → S → List A
  | 0, _ => []
  | n + 1, s => (next s).1 :: outputs n (next s).2

theorem after_succ (n : ℕ) (s : S) : after next (n + 1) s = after next n (next s).2 := rfl

theorem after_add (m n : ℕ) (s : S) : after next (m + n) s = after next n (after next m s) := by
  rw [after, after, after, Nat.add_comm, Function.iterate_add_apply]

theorem outputs_add (m n : ℕ) (s : S) :
    outputs next (m + n) s = outputs next m s ++ outputs next n (after next m s) := by
  induction m generalizing s with
  | zero => simp [outputs, after]
  | succ m ih => rw [Nat.succ_add, outputs, outputs, ih, after_succ, List.cons_append]

theorem outputs_eq_map (n : ℕ) (s : S) : outputs next n s = (List.range n).map fun i => (next (after next i s)).1 := by
  induction n with
  | zero => rfl
  | succ n ih => rw [outputs_add, ih, List.range_succ, List.map_append]; rfl

/-- Of two stretches from one state the shorter is a prefix. -/
theorem outputs_mono {m n : ℕ} (h : m ≤ n) (s : S) : outputs next m s <+: outputs next n s := by
  obtain ⟨k, rfl⟩ := Nat.exists_eq_add_of_le h
  exact outputs_add next m k s ▸ List.prefix_append _ _

variable (accept : A → Prop) [DecidablePred accept] (post : A → B)

/-- The loop, with `none` when `fuel` draws have all been rejected. -/
def draw : ℕ → S → Option (B × S)
  | 0, _ => none
  | fuel + 1, s => if accept (next s).1 then some (post (next s).1, (next s).2) else draw fuel (next s).2

/-- `k` calls of `f`, one after the other. -/
def calls (f : S → Option (B × S)) : ℕ → S → Option (List B × S)
  | 0, s => some ([], s)
  | k + 1, s => do
    let (b, s) ← f s
    let (bs, s) ← calls f k s
    return (b :: bs, s)

variable {next accept post}

variable (post) in
/-- What is accepted within the fuel is found. -/
theorem exists_draw {n fuel : ℕ} {s : S} (hn : n < fuel) (h : accept (next (after next n s)).1) :
    ∃ r, draw next accept post fuel s = some r := by
  induction fuel generalizing n s with
  | zero => exact absurd hn (Nat.not_lt_zero n)
  | succ fuel ih =>
    rw [draw]
    split
    · exact ⟨_, rfl⟩
    · rename_i hrej
      cases n with
      | zero => exact absurd h hrej
      | succ n => exact ih (Nat.lt_of_succ_lt_succ hn) h

/-- A call draws some values, of which one is accepted. -/
theorem draw_eq_filter {fuel : ℕ} {s s' : S} {b : B} (h : draw next accept post fuel s = some (b, s')) :
    ∃ n, s' = after next n s ∧ ((outputs next n s).filter (accept ·)).map post = [b] := by
  induction fuel generalizing s with
  | zero => simp [draw] at h
  | succ fuel ih =>
    rw [draw] at h
    split at h
    · rename_i hacc
      obtain ⟨rfl, rfl⟩ := Prod.mk.inj (Option.some.inj h)
      exact ⟨1, rfl, by simp [outputs, hacc]⟩
    · rename_i hrej
      obtain ⟨n, hs, hf⟩ := ih h
      exact ⟨n + 1, hs, by rw [outputs, List.filter_cons_of_neg (by simpa using hrej), hf]⟩

/-- **What calls return**: the generator's values with the rejected ones left out, as many as there were calls. -/
theorem calls_eq_filter {fuel k : ℕ} {s s' : S} {bs : List B} (h : calls (draw next accept post fuel) k s = some (bs, s')) :
    bs.length = k ∧ ∃ n, s' = after next n s ∧ ((outputs next n s).filter (accept ·)).map post = bs := by
  induction k generalizing s bs with
  | zero =>
    obtain ⟨rfl, rfl⟩ := Prod.mk.inj (Option.some.inj h)
    exact ⟨rfl, 0, rfl, rfl⟩
  | succ k ih =>
    simp only [calls, Option.bind_eq_bind, Option.bind_eq_some_iff, Option.pure_def, Option.some.injEq, Prod.mk.injEq,
      Prod.exists] at h
    obtain ⟨b, s₁, hdraw, bs', s₂, hcalls, rfl, rfl⟩ := h
    obtain ⟨n, rfl, hb⟩ := draw_eq_filter hdraw
    obtain ⟨hlen, m, hm, hbs⟩ := ih hcalls
    refine ⟨by rw [List.length_cons, hlen], n + m, hm.trans (after_add next n m s).symm, ?_⟩
    rw [outputs_add, List.filter_append, List.map_append, hb, hbs, List.singleton_append]

variable (next accept post) in
/-- When from everywhere an accepted value is near enough, all calls return. -/
theorem exists_calls {fuel : ℕ} (Inv : S → Prop) (hstep : ∀ s, Inv s → Inv (next s).2)
    (hnear : ∀ s, Inv s → ∃ n < fuel, accept (next (after next n s)).1) (k : ℕ) {s : S} (hs : Inv s) :
    ∃ r, calls (draw next accept post fuel) k s = some r := by
  have hafter : ∀ n s, Inv s → Inv (after next n s) := fun n => by
    induction n with
    | zero => exact fun s hs => hs
    | succ n ih => exact fun s hs => ih _ (hstep s hs)
  induction k generalizing s with
  | zero => exact ⟨_, rfl⟩
  | succ k ih =>
    obtain ⟨m, hm, hacc⟩ := hnear s hs
    obtain ⟨⟨b, s₁⟩, hdraw⟩ := exists_draw post hm hacc
    obtain ⟨n, rfl, -⟩ := draw_eq_filter hdraw
    obtain ⟨⟨bs, s₂⟩, hcalls⟩ := ih (hafter n s hs)
    exact ⟨(b :: bs, s₂), by simp [calls, hdraw, hcalls]⟩

/-- As many calls as a stretch has accepted values return just those, even if they draw further or less far. -/
theorem calls_eq_of_length {fuel k N : ℕ} {s s' : S} {bs : List B}
    (h : calls (draw next accept post fuel) k s = some (bs, s')) (hN : ((outputs next N s).filter (accept ·)).length = k) :
    bs = ((outputs next N s).filter (accept ·)).map post := by
  obtain ⟨hlen, n, -, rfl⟩ := calls_eq_filter h
  rw [List.length_map, ← hN] at hlen
  congr 1
  rcases Nat.le_total n N with hle | hle
  · exact ((outputs_mono next hle s).filter _).eq_of_length hlen
  · exact (((outputs_mono next hle s).filter _).eq_of_length hlen.symm).symm

end Generator
