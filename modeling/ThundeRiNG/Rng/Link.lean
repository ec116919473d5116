import Mathlib.Data.List.Basic

/-!
# The wiring of the sequence-output kernels (`automation/template/gen_link.c:69-97`)

`streamConnect CUs` lists the `stream_connect` lines of the state and output links in print order; the lines
of the constant `STR` connect other ports. Kernels are numbered from 1, as in the text. A link is named by the
port it starts at; `linkStart` and `linkEnd` look up the other end of a link in the list.

The state runs `merge → 1 → … → CUs → rng_end`, and the output the other way, `rng_start → CUs → … → 1 → rng_main`.
-/

namespace ThundeRiNG

inductive Port where
  | ssrngStateMergeOut
  | rngStartOutput
  | rngEndInput
  | rngMainRng
  | sIn (k : ℕ)
  | sOut (k : ℕ)
  | oIn (k : ℕ)
  | oOut (k : ℕ)
deriving DecidableEq, Repr

def streamConnect (CUs : ℕ) : List (Port × Port) :=
  [(.ssrngStateMergeOut, .sIn 1)] ++
  (List.range (CUs - 1)).flatMap (fun i => [(.sOut (i + 1), .sIn (i + 2)), (.oOut (i + 2), .oIn (i + 1))]) ++
  [(.rngStartOutput, .oIn CUs), (.sOut CUs, .rngEndInput), (.oOut 1, .rngMainRng)]

def linkStart (CUs : ℕ) (dst : Port) : Port := ((streamConnect CUs).find? (·.2 = dst)).elim dst Prod.fst

def linkEnd (CUs : ℕ) (src : Port) : Port := ((streamConnect CUs).find? (·.1 = src)).elim src Prod.snd

section
variable {CUs : ℕ} {a a' b b' : Port}

theorem mem_streamConnect : (a, b) ∈ streamConnect CUs ↔
    (a = .ssrngStateMergeOut ∧ b = .sIn 1) ∨
    (∃ i < CUs - 1, (a = .sOut (i + 1) ∧ b = .sIn (i + 2)) ∨ (a = .oOut (i + 2) ∧ b = .oIn (i + 1))) ∨
    (a = .rngStartOutput ∧ b = .oIn CUs) ∨ (a = .sOut CUs ∧ b = .rngEndInput) ∨ (a = .oOut 1 ∧ b = .rngMainRng) := by
  simp [streamConnect]

/-- A port starts at most one link. -/
theorem streamConnect_right_unique (h : (a, b) ∈ streamConnect CUs) (h' : (a, b') ∈ streamConnect CUs) : b = b' := by
  rw [mem_streamConnect] at h h'
  rcases h with ⟨rfl, rfl⟩ | ⟨i, hi, ⟨rfl, rfl⟩ | ⟨rfl, rfl⟩⟩ | ⟨rfl, rfl⟩ | ⟨rfl, rfl⟩ | ⟨rfl, rfl⟩ <;>
    rcases h' with ⟨h, rfl⟩ | ⟨j, hj, ⟨h, rfl⟩ | ⟨h, rfl⟩⟩ | ⟨h, rfl⟩ | ⟨h, rfl⟩ | ⟨h, rfl⟩ <;>
    simp at h ⊢ <;> omega

/-- A port ends at most one link. -/
theorem streamConnect_left_unique (h : (a, b) ∈ streamConnect CUs) (h' : (a', b) ∈ streamConnect CUs) : a = a' := by
  rw [mem_streamConnect] at h h'
  rcases h with ⟨rfl, rfl⟩ | ⟨i, hi, ⟨rfl, rfl⟩ | ⟨rfl, rfl⟩⟩ | ⟨rfl, rfl⟩ | ⟨rfl, rfl⟩ | ⟨rfl, rfl⟩ <;>
    rcases h' with ⟨rfl, h⟩ | ⟨j, hj, ⟨rfl, h⟩ | ⟨rfl, h⟩⟩ | ⟨rfl, h⟩ | ⟨rfl, h⟩ | ⟨rfl, h⟩ <;>
    simp at h ⊢ <;> omega

theorem linkStart_of_mem (h : (a, b) ∈ streamConnect CUs) : linkStart CUs b = a := by
  unfold linkStart
  cases hf : (streamConnect CUs).find? (·.2 = b) with
  | none => exact absurd (List.find?_eq_none.1 hf _ h) (by simp)
  | some x =>
    obtain ⟨a', b'⟩ := x
    obtain rfl : b' = b := by simpa using List.find?_some hf
    exact streamConnect_left_unique (List.mem_of_find?_eq_some hf) h

theorem linkEnd_of_mem (h : (a, b) ∈ streamConnect CUs) : linkEnd CUs a = b := by
  unfold linkEnd
  cases hf : (streamConnect CUs).find? (·.1 = a) with
  | none => exact absurd (List.find?_eq_none.1 hf _ h) (by simp)
  | some x =>
    obtain ⟨a', b'⟩ := x
    obtain rfl : a' = a := by simpa using List.find?_some hf
    exact streamConnect_right_unique (List.mem_of_find?_eq_some hf) h

/-! ## The links of kernel `k + 1` -/

theorem mem_sIn (k : Fin CUs) :
    (if k.val = 0 then .ssrngStateMergeOut else .sOut k, .sIn (k + 1)) ∈ streamConnect CUs := by
  rw [mem_streamConnect]
  obtain ⟨k, hk⟩ := k
  cases k with
  | zero => exact .inl ⟨rfl, rfl⟩
  | succ k => exact .inr (.inl ⟨k, by omega, .inl ⟨rfl, rfl⟩⟩)

theorem mem_oIn (k : Fin CUs) :
    (if k.val + 1 = CUs then .rngStartOutput else .oOut (k + 2), .oIn (k + 1)) ∈ streamConnect CUs := by
  rw [mem_streamConnect]
  by_cases h : k.val + 1 = CUs
  · rw [if_pos h]; exact .inr (.inr (.inl ⟨rfl, by rw [h]⟩))
  · rw [if_neg h]; exact .inr (.inl ⟨k, by omega, .inr ⟨rfl, rfl⟩⟩)

theorem mem_rngEndInput : (.sOut CUs, .rngEndInput) ∈ streamConnect CUs := by simp [streamConnect]

theorem mem_rngMainRng : (.oOut 1, .rngMainRng) ∈ streamConnect CUs := by simp [streamConnect]

end

end ThundeRiNG
