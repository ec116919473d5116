import Mathlib.Data.BitVec
import Mathlib.Data.Sym.Sym2

/-!
# Adjacent, closing and matching edges (`misc/fpga_edge_match.h`)

An edge is undirected: its two words may come in either order. What the comparisons of the code say is stated over
the pair of ends (`Edge.ends`), where the orientation is gone.

| here | there |
| --- | --- |
| `Edge`                         | `edge_t` (`asap_type.h:21-25`) |
| `isAdjacent`, `isClose`        | `IS_ADJACENT`, `IS_CLOSE` (`fpga_edge_match.h:5-17`) |
| `getMs`, `getMd`               | `:39-61` |
| `Path`, `Triangle`             | what a closing edge is for |
-/

namespace ThundeRiNG.Misc

structure Edge where
  s : BitVec 32
  d : BitVec 32
deriving DecidableEq

def isAdjacent (e1 e2 : Edge) : Bool := e1.s == e2.s || e1.s == e2.d || e1.d == e2.s || e1.d == e2.d

def isClose (e1 e2 : Edge) : Bool := (e1.s == e2.s && e1.d == e2.d) || (e1.d == e2.s && e1.s == e2.d)

def getMs (e1 e2 : Edge) : BitVec 32 := if e1.s = e2.s ∨ e1.s = e2.d then e1.d else e1.s

def getMd (e1 e2 : Edge) : BitVec 32 := if e2.s = e1.s ∨ e2.s = e1.d then e2.d else e2.s

/-! ## Without orientation -/

/-- The ends of an edge, in no order. -/
def Edge.ends (e : Edge) : Sym2 (BitVec 32) := s(e.s, e.d)

/-- Two edges without self-loop that share the vertex `y` and no other. -/
def Path (e1 e2 : Edge) (x y z : BitVec 32) : Prop :=
  e1.ends = s(x, y) ∧ e2.ends = s(y, z) ∧ x ≠ y ∧ y ≠ z ∧ x ≠ z

/-- The three edges are the sides of a triangle. -/
def Triangle (e1 e2 e3 : Edge) : Prop := ∃ x y z, Path e1 e2 x y z ∧ e3.ends = s(x, z)

/-- Two sides of some triangle. -/
def Sides (e1 e2 : Edge) : Prop := ∃ x y z, Path e1 e2 x y z

theorem Triangle.sides {e1 e2 e3 : Edge} (h : Triangle e1 e2 e3) : Sides e1 e2 := by
  obtain ⟨x, y, z, hp, -⟩ := h
  exact ⟨x, y, z, hp⟩

theorem Edge.ends_eq_mk_iff {e : Edge} {x y : BitVec 32} :
    e.ends = s(x, y) ↔ e.s = x ∧ e.d = y ∨ e.s = y ∧ e.d = x := Sym2.eq_iff

theorem isClose_iff (e1 e2 : Edge) : isClose e1 e2 = true ↔ e1.ends = e2.ends := by
  rw [Edge.ends, Edge.ends, Sym2.eq_iff]
  simp only [isClose, Bool.or_eq_true, Bool.and_eq_true, beq_iff_eq, and_comm (a := e1.d = e2.s)]

theorem isAdjacent_iff (e1 e2 : Edge) : isAdjacent e1 e2 = true ↔ ∃ v, v ∈ e1.ends ∧ v ∈ e2.ends := by
  simp only [isAdjacent, Edge.ends, Bool.or_eq_true, beq_iff_eq, Sym2.mem_iff]
  constructor
  · rintro (((h | h) | h) | h)
    · exact ⟨e1.s, .inl rfl, .inl h⟩
    · exact ⟨e1.s, .inl rfl, .inr h⟩
    · exact ⟨e1.d, .inr rfl, .inl h⟩
    · exact ⟨e1.d, .inr rfl, .inr h⟩
  · rintro ⟨v, rfl | rfl, h | h⟩ <;> simp [h]

theorem Edge.ends_isDiag_iff {e : Edge} : e.ends.IsDiag ↔ e.s = e.d := Sym2.mk_isDiag_iff

/-- Two sides are two edges without self-loop with exactly one common vertex. -/
theorem sides_iff {e1 e2 : Edge} :
    Sides e1 e2 ↔ e1.s ≠ e1.d ∧ e2.s ≠ e2.d ∧ ∃! v, v ∈ e1.ends ∧ v ∈ e2.ends := by
  simp only [ne_eq, ← Edge.ends_isDiag_iff]
  constructor
  · rintro ⟨x, y, z, h1, h2, hxy, hyz, hxz⟩
    rw [h1, h2]
    refine ⟨hxy, hyz, y, ⟨Sym2.mem_mk_right x y, Sym2.mem_mk_left y z⟩, ?_⟩
    rintro v ⟨hv1, hv2⟩
    rw [Sym2.mem_iff] at hv1 hv2
    grind
  · rintro ⟨h1, h2, y, ⟨hy1, hy2⟩, huniq⟩
    obtain ⟨x, hx⟩ := hy1
    obtain ⟨z, hz⟩ := hy2
    rw [hx, Sym2.mk_isDiag_iff] at h1
    rw [hz, Sym2.mk_isDiag_iff] at h2
    refine ⟨x, y, z, hx.trans Sym2.eq_swap, hz, Ne.symm h1, h2, ?_⟩
    -- were the far ends equal, they would be a second common vertex
    rintro rfl
    exact h1 (huniq x ⟨hx ▸ Sym2.mem_mk_right y x, hz ▸ Sym2.mem_mk_right y x⟩).symm

/-- The matching edge joins the two ends that a path does not share, whichever way its edges are written. -/
theorem Path.match_ends {e1 e2 : Edge} {x y z : BitVec 32} (h : Path e1 e2 x y z) :
    (⟨getMs e1 e2, getMd e1 e2⟩ : Edge).ends = s(x, z) := by
  obtain ⟨h1, h2, hxy, hyz, hxz⟩ := h
  rw [Edge.ends_eq_mk_iff] at h1 h2
  rcases h1 with ⟨hs1, hd1⟩ | ⟨hs1, hd1⟩ <;> rcases h2 with ⟨hs2, hd2⟩ | ⟨hs2, hd2⟩ <;>
    simp [Edge.ends, getMs, getMd, hs1, hd1, hs2, hd2, hxy, hyz, hxz, hxy.symm, hyz.symm, hxz.symm]

/-- So an edge closes two sides iff it is the third. -/
theorem Sides.isClose_iff {e1 e2 : Edge} (h : Sides e1 e2) (e3 : Edge) :
    isClose ⟨getMs e1 e2, getMd e1 e2⟩ e3 = true ↔ Triangle e1 e2 e3 := by
  obtain ⟨x, y, z, hp⟩ := h
  rw [Misc.isClose_iff, hp.match_ends]
  constructor
  · intro h3
    exact ⟨x, y, z, hp, h3.symm⟩
  · rintro ⟨x', y', z', hp', h3⟩
    rw [h3, ← hp.match_ends, hp'.match_ends]

/-- Not shared is what only one of the two edges has. -/
theorem Path.mem_match_ends_iff {e1 e2 : Edge} {x y z : BitVec 32} (h : Path e1 e2 x y z) (v : BitVec 32) :
    v ∈ (⟨getMs e1 e2, getMd e1 e2⟩ : Edge).ends ↔
      v ∈ e1.ends ∧ v ∉ e2.ends ∨ v ∈ e2.ends ∧ v ∉ e1.ends := by
  rw [h.match_ends]
  obtain ⟨h1, h2, hxy, hyz, hxz⟩ := h
  rw [h1, h2, Sym2.mem_iff, Sym2.mem_iff, Sym2.mem_iff]
  grind

/-- Neither side closes itself: the matching edge lacks the common vertex. -/
theorem Path.isClose_eq_false {e1 e2 : Edge} {x y z : BitVec 32} (h : Path e1 e2 x y z) {e : Edge}
    (hy : y ∈ e.ends) : isClose ⟨getMs e1 e2, getMd e1 e2⟩ e = false := by
  rw [Bool.eq_false_iff, ne_eq, isClose_iff, h.match_ends]
  intro hends
  rw [← hends, Sym2.mem_iff] at hy
  obtain ⟨-, -, hxy, hyz, -⟩ := h
  rcases hy with rfl | rfl
  · exact hxy rfl
  · exact hyz rfl

/-- **The matching edge**: for two edges without self-loop that share exactly one vertex, it joins exactly the two
ends they do not share, an edge closes it iff the three are the sides of a triangle, and neither of the two does. -/
theorem match_edge_closes {e1 e2 : Edge} (h1 : e1.s ≠ e1.d) (h2 : e2.s ≠ e2.d)
    (h : ∃! v, v ∈ e1.ends ∧ v ∈ e2.ends) :
    (getMs e1 e2 ≠ getMd e1 e2 ∧ ∀ v, v ∈ (⟨getMs e1 e2, getMd e1 e2⟩ : Edge).ends ↔
      v ∈ e1.ends ∧ v ∉ e2.ends ∨ v ∈ e2.ends ∧ v ∉ e1.ends) ∧
    (∀ e, isClose ⟨getMs e1 e2, getMd e1 e2⟩ e = true ↔ Triangle e1 e2 e) ∧
    isClose ⟨getMs e1 e2, getMd e1 e2⟩ e1 = false ∧ isClose ⟨getMs e1 e2, getMd e1 e2⟩ e2 = false := by
  have hsides : Sides e1 e2 := sides_iff.2 ⟨h1, h2, h⟩
  obtain ⟨x, y, z, hp⟩ := hsides
  have hy1 : y ∈ e1.ends := hp.1 ▸ Sym2.mem_mk_right x y
  have hy2 : y ∈ e2.ends := hp.2.1 ▸ Sym2.mem_mk_left y z
  have hloop : getMs e1 e2 ≠ getMd e1 e2 := by
    rw [ne_eq, ← Edge.ends_isDiag_iff (e := ⟨getMs e1 e2, getMd e1 e2⟩), hp.match_ends, Sym2.mk_isDiag_iff]
    exact hp.2.2.2.2
  exact ⟨⟨hloop, hp.mem_match_ends_iff⟩, Sides.isClose_iff ⟨x, y, z, hp⟩, hp.isClose_eq_false hy1,
    hp.isClose_eq_false hy2⟩

theorem match_edge_closes_two_one :
    let e1 : Edge := ⟨2, 1⟩
    let e2 : Edge := ⟨3, 2⟩
    (getMs e1 e2 = 1 ∧ getMd e1 e2 = 3) ∧ ∀ e, isClose ⟨1, 3⟩ e = true ↔ Triangle e1 e2 e := by
  have hshared : ∃! v, v ∈ (⟨2, 1⟩ : Edge).ends ∧ v ∈ (⟨3, 2⟩ : Edge).ends := by
    refine ⟨2, ⟨Sym2.mem_mk_left 2 1, Sym2.mem_mk_right 3 2⟩, ?_⟩
    rintro v ⟨hv1, hv2⟩
    rw [Edge.ends, Sym2.mem_iff] at hv1 hv2
    grind
  exact ⟨by decide, (match_edge_closes (by decide) (by decide) hshared).2.1⟩

end ThundeRiNG.Misc
