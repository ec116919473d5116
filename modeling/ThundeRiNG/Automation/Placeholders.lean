import ThundeRiNG.Automation.Customize
import ThundeRiNG.Lib.Template

/-!
# Placeholder expansion (`replace_all`, `customize.cpp:227-248`, `customize_str.h`)

The text of a marker is made from a template by two passes of `replace_all`, `%s` by the name of the argument and then
`%d` by a counter. Each pass searches from the start again after a replacement, so it reads the name too. The passes
are one simultaneous substitution exactly for the names in which neither placeholder stands (`expands_iff`): a name
with `%s` keeps the first pass going for ever, one with `%d` is rewritten by the second.
-/

namespace ThundeRiNG.Automation.Customize

open Text

inductive Placeholder where
  | name
  | counter
deriving DecidableEq, Repr

def Placeholder.mark : Placeholder → Str
  | .name => "%s".toList
  | .counter => "%d".toList

/-- The strings of `customize_str.h`. -/
def TEMPLATES : List Str :=
  [STREAM_ATTR_STR, STREAM_DUPLEX_OUTPUT_ATTR_STR, SCALAR_ATTR_STR, WRITE_STR, READ_STR, COV_STR, COV_STR_WRITE,
    MAKFILE_STR]

/-- `:235-236`, and again for each array output. -/
def expand (fuel : ℕ) (object name : Str) (counter : ℕ) : Except Stop Str := do
  let object ← replaceAll fuel object "%s".toList name
  replaceAll fuel object "%d".toList (decimal counter)

theorem streamAttrObject_eq (fuel : ℕ) (object name : Str) (gmemCounter : ℕ) :
    streamAttrObject fuel object name gmemCounter = endl <$> expand fuel object name gmemCounter := by
  unfold streamAttrObject expand
  cases replaceAll fuel object "%s".toList name <;> rfl

theorem makefileObject_eq (fuel : ℕ) (name : Str) (memChn : ℕ) :
    makefileObject fuel name memChn = endl <$> expand fuel MAKFILE_STR name memChn := by
  unfold makefileObject expand
  cases replaceAll fuel MAKFILE_STR "%s".toList name <;> rfl

theorem replaceAll_eq_ok {fuel : ℕ} {object sub target text : Str} :
    replaceAll fuel object sub target = .ok text ↔ rewriteLoop sub target fuel object = some text := by
  rw [replaceAll]
  cases rewriteLoop sub target fuel object <;> simp

/-- An expansion that ends is two passes that end. -/
theorem expand_eq_ok {fuel counter : ℕ} {object name text : Str} : expand fuel object name counter = .ok text ↔
    ∃ object', replaceAll fuel object "%s".toList name = .ok object' ∧
      replaceAll fuel object' "%d".toList (decimal counter) = .ok text := by
  unfold expand
  exact bind_eq_ok

/-! ## The simultaneous substitution -/

def pieces : Str → List (Piece Char Placeholder)
  | '%' :: 's' :: object => .hole .name :: pieces object
  | '%' :: 'd' :: object => .hole .counter :: pieces object
  | c :: object => .lit c :: pieces object
  | [] => []

theorem render_pieces (object : Str) : render Placeholder.mark (pieces object) = object := by
  fun_induction pieces object with
  | case1 object ih => rw [render_cons, ih]; rfl
  | case2 object ih => rw [render_cons, ih]; rfl
  | case3 c object _ _ ih => rw [render_cons, ih]; rfl
  | case4 => rfl

/-- What is written for each placeholder. -/
def filling (name : Str) (counter : ℕ) : Placeholder → Str
  | .name => name
  | .counter => decimal counter

def simultaneous (object name : Str) (counter : ℕ) : Str := render (filling name counter) (pieces object)

/-- The two passes end, with the simultaneous substitution. -/
def Expands (object name : Str) (counter : ℕ) : Prop :=
  ∃ fuel₀, ∀ fuel ≥ fuel₀, expand fuel object name counter = .ok (simultaneous object name counter)

/-! ## The templates -/

/-- Placeholders stand apart, before letters that make no placeholder, and `%` is only used in them. -/
def WellSpaced (object : Str) : Prop := Spaced '%' ['s', 'd'] (pieces object)

theorem templates_wellSpaced : ∀ object ∈ TEMPLATES, WellSpaced object ∧ .hole .name ∈ pieces object := by
  unfold TEMPLATES STREAM_ATTR_STR STREAM_DUPLEX_OUTPUT_ATTR_STR SCALAR_ATTR_STR WRITE_STR READ_STR COV_STR
    COV_STR_WRITE MAKFILE_STR WellSpaced
  simp only [String.toList_append]
  repeat rewrite [String.toList_ofList]
  decide +kernel

/-! ## The passes -/

section

variable {object name : Str} {counter fuel : ℕ}

/-- The first pass, over a name without `%s`. -/
theorem replaceAll_name (hobject : WellSpaced object) (hname : ¬ "%s".toList <:+: name)
    (hfuel : (pieces object).length < fuel) :
    replaceAll fuel object "%s".toList name =
      .ok (render (Function.update Placeholder.mark .name name) (pieces object)) := by
  have hfree : ∀ i, ¬ ['%', 's'] <:+: Function.update Placeholder.mark .name name i := by
    intro i
    cases i with
    | name => rwa [Function.update_self]
    | counter =>
      rw [Function.update_of_ne (by decide)]
      decide
  have hpass : rewriteLoop ['%', 's'] name fuel (render Placeholder.mark (pieces object)) = _ :=
    rewriteLoop_render (by decide) rfl (hobject.not_infix_render (by decide) hfree) hfuel
  rw [render_pieces] at hpass
  exact replaceAll_eq_ok.2 hpass

/-- The second pass, over a name without `%d`. -/
theorem replaceAll_counter (hobject : WellSpaced object) (hname : ¬ "%d".toList <:+: name)
    (hfuel : (pieces object).length < fuel) :
    replaceAll fuel (render (Function.update Placeholder.mark .name name) (pieces object)) "%d".toList
      (decimal counter) = .ok (simultaneous object name counter) := by
  have hfilling : Function.update (Function.update Placeholder.mark .name name) .counter (decimal counter) =
      filling name counter := by
    funext i
    cases i <;> rfl
  have hfree : ∀ i, ¬ ['%', 'd'] <:+: filling name counter i := by
    intro i
    cases i with
    | name => exact hname
    | counter => exact fun h => notMem_decimal (by decide) (h.subset List.mem_cons_self)
  have hpass : rewriteLoop ['%', 'd'] (decimal counter) fuel
      (render (Function.update Placeholder.mark .name name) (pieces object)) = _ :=
    rewriteLoop_render (i := .counter) (by decide) rfl
      (hfilling ▸ hobject.not_infix_render (by decide) hfree) hfuel
  rw [hfilling] at hpass
  exact replaceAll_eq_ok.2 hpass

theorem expand_eq (hobject : WellSpaced object) (hs : ¬ "%s".toList <:+: name) (hd : ¬ "%d".toList <:+: name)
    (hfuel : (pieces object).length < fuel) :
    expand fuel object name counter = .ok (simultaneous object name counter) :=
  expand_eq_ok.2 ⟨_, replaceAll_name hobject hs hfuel, replaceAll_counter hobject hd hfuel⟩

/-- A name with `%s` is replaced in again and again. -/
theorem replaceAll_running (hobject : .hole .name ∈ pieces object) (hs : "%s".toList <:+: name) (fuel : ℕ) :
    replaceAll fuel object "%s".toList name = .error .running := by
  have hmark : "%s".toList <:+: object := by
    have h := infix_render Placeholder.mark hobject
    rwa [render_pieces] at h
  rw [replaceAll, rewriteLoop_eq_none hs hmark]

theorem expand_running (hobject : .hole .name ∈ pieces object) (hs : "%s".toList <:+: name) (fuel counter : ℕ) :
    expand fuel object name counter = .error .running := by
  rw [expand, replaceAll_running hobject hs]
  rfl

/-- What the passes end with has no `%d`, wherever it came from. -/
theorem not_infix_of_expand {text : Str} (h : expand fuel object name counter = .ok text) :
    ¬ "%d".toList <:+: text := by
  obtain ⟨object', _, h⟩ := expand_eq_ok.1 h
  exact not_infix_of_rewriteLoop (replaceAll_eq_ok.1 h)

end

/-- The two passes are the simultaneous substitution exactly for the names without a placeholder in them. -/
theorem expands_iff : ∀ object ∈ TEMPLATES, ∀ (name : Str) (counter : ℕ),
    Expands object name counter ↔ ¬ "%s".toList <:+: name ∧ ¬ "%d".toList <:+: name := by
  rintro object hobject name counter
  obtain ⟨hspaced, hhole⟩ := templates_wellSpaced object hobject
  constructor
  · rintro ⟨fuel₀, h⟩
    have hend := h fuel₀ le_rfl
    refine ⟨fun hs => ?_, fun hd => ?_⟩
    · rw [expand_running hhole hs] at hend
      exact absurd hend (by simp)
    · -- the substitution has the `%d` of the name, the result of the second pass has none
      exact not_infix_of_expand hend (hd.trans (infix_render (filling name counter) hhole))
  · rintro ⟨hs, hd⟩
    exact ⟨(pieces object).length + 1, fun fuel hfuel => expand_eq hspaced hs hd hfuel⟩

theorem expands_iff_property : Expands MAKFILE_STR "property".toList 2 ↔
    ¬ "%s".toList <:+: "property".toList ∧ ¬ "%d".toList <:+: "property".toList :=
  expands_iff MAKFILE_STR (by simp [TEMPLATES]) "property".toList 2

/-- An array of the name `%s` is accepted, and the first pass over a template with it never ends. -/
theorem not_expands :
    (registerDefInputOnlyArray
      { orginal := "#pragma THUNDERHLS DEF_INPUT_ONLY_ARRAY %s".toList, object := [], name := "%s".toList,
        fileName := "apply.h".toList, ln := 3, id := 8 } State.init).1 = 0 ∧
    (∀ fuel, expand fuel MAKFILE_STR "%s".toList 0 = .error .running) ∧ ¬ Expands MAKFILE_STR "%s".toList 0 := by
  have hrun := expand_running (templates_wellSpaced MAKFILE_STR (by simp [TEMPLATES])).2
    (List.infix_refl "%s".toList)
  refine ⟨rfl, fun fuel => hrun fuel 0, ?_⟩
  rintro ⟨fuel₀, h⟩
  have hend := h fuel₀ le_rfl
  rw [hrun] at hend
  exact absurd hend (by simp)

end ThundeRiNG.Automation.Customize
