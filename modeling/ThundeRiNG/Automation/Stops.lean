import Mathlib.Order.Filter.AtTopBot.Basic
import Mathlib.Order.Filter.Finite
import ThundeRiNG.Automation.Pieces
import ThundeRiNG.Automation.Placeholders

/-!
# Runs that stop on the way (`parser.cpp:191-226`, `customize.cpp:117-391`)

Only `customize_output_method` can keep the program from its end. At the marker `USER_APPLY_CAL` it exits when there is
no region of code to copy, and at another marker the name of an argument with `%s` in it keeps `replace_all` in its loop
for ever. Either can be told from what has been registered (`Customize.stops`); all other loops end (`eventually_enough`).
So a run leaves in the files the pieces of the lines up to the first one that stops it (`linesLeft_pieces`).
-/

namespace ThundeRiNG.Automation

open Text Filter

theorem exists_bind_ok {α β : Type} {x : Except Stop α} {f : α → Except Stop β} (hx : ∃ a, x = .ok a)
    (hf : ∀ a, ∃ b, f a = .ok b) : ∃ b, (x >>= f) = .ok b := by
  obtain ⟨a, rfl⟩ := hx
  exact hf a

/-- When the rest always ends, the first part decides. -/
theorem exists_bind_ok_iff {α β : Type} {x : Except Stop α} {f : α → Except Stop β} (hf : ∀ a, ∃ b, f a = .ok b) :
    (∃ b, (x >>= f) = .ok b) ↔ ∃ a, x = .ok a := by
  constructor
  · rintro ⟨b, hb⟩
    obtain ⟨a, ha, -⟩ := bind_eq_ok.1 hb
    exact ⟨a, ha⟩
  · intro hx
    exact exists_bind_ok hx hf

theorem bind_error {α β : Type} {x : Except Stop α} {e : Stop} (hx : x = .error e) (f : α → Except Stop β) :
    (x >>= f) = .error e := by
  rw [hx]
  rfl

theorem eventually_forall_mem {α : Type} {l : List α} {P : α → ℕ → Prop} (h : ∀ a ∈ l, ∀ᶠ fuel in atTop, P a fuel) :
    ∀ᶠ fuel in atTop, ∀ a ∈ l, P a fuel :=
  (eventually_all_finite l.finite_toSet).2 h

theorem exists_copies {gn : ℕ} {copy : ℕ → Except Stop Str} (h : ∀ j ∈ List.range gn, ∃ t, copy j = .ok t) :
    ∃ t, copies gn copy = .ok t := by
  refine exists_bind_ok ?_ fun _ => ⟨_, rfl⟩
  generalize List.range gn = l at h
  induction l with
  | nil => exact ⟨[], rfl⟩
  | cons j l ih =>
    rw [List.mapM_cons]
    refine exists_bind_ok (h j List.mem_cons_self) fun _ => ?_
    exact exists_bind_ok (ih fun i hi => h i (List.mem_cons_of_mem _ hi)) fun _ => ⟨_, rfl⟩

/-! ## The markers -/

namespace Customize

/-- For arguments of this kind the marker prints a template, after `replace_all` with the name. -/
def Mark.replaces : Mark → Var → Bool
  | .writeToStream, varType | .covWrite, varType | .write, varType => varType = .duplexArray
  | .cov, varType | .readFromStream, varType | .streamAttr, varType | .makefile, varType => varType ≠ .scalar
  | .scalarAttr, varType => varType = .scalar
  | _, _ => false

/-- The loop over the name does not end. -/
def DefArgInstance.endless (args : DefArgInstance) (var : Mark) : Bool :=
  var.replaces args.varType && found "%s".toList args.input.name

/-- The method does not return from line `ln`. -/
def stops (read : Str → Option Str) (st : State) (ln : ℕ) : Bool :=
  if atMarker st ln .cal then
    match calRegion read st.region with
    | .ok _ => false
    | .error _ => true
  else
    match MARKER_OUTPUT.find? (atMarker st ln) with
    | some var => st.defArgList.any fun args => args.endless var
    | none => false

theorem SameArgs.stops {st st' : State} (h : SameArgs st st') (read : Str → Option Str) (ln : ℕ) :
    stops read st' ln = stops read st ln := by
  simp only [Customize.stops, h.atMarker, h.region, h.defArgList]

/-- It stops at lines it answers for. -/
theorem answers_of_stops {read : Str → Option Str} {st : State} {ln : ℕ} (h : stops read st ln = true) :
    answers st ln = true := by
  rw [answers, List.any_cons]
  by_cases hcal : atMarker st ln .cal
  · rw [hcal, Bool.true_or]
  · rw [stops, if_neg hcal] at h
    cases hfind : MARKER_OUTPUT.find? (atMarker st ln) with
    | none => rw [hfind] at h; cases h
    | some var =>
      rw [Bool.or_eq_true, List.any_eq_true]
      exact .inr ⟨var, List.mem_of_find?_eq_some hfind, List.find?_some hfind⟩

def WRITE_TO_STREAM_STR : Str := "write_to_stream(new%sStream, new%s_u512);".toList

theorem objects_wellSpaced : ∀ object ∈ WRITE_TO_STREAM_STR :: TEMPLATES,
    WellSpaced object ∧ .hole .name ∈ pieces object := by
  have hwrite : WellSpaced WRITE_TO_STREAM_STR ∧ .hole .name ∈ pieces WRITE_TO_STREAM_STR := by
    unfold WRITE_TO_STREAM_STR WellSpaced
    rewrite [String.toList_ofList]
    decide +kernel
  exact List.forall_mem_cons.2 ⟨hwrite, templates_wellSpaced⟩

/-- The mark stands in the name, with or without `new` before it. -/
theorem infix_new_iff {name : Str} : "%s".toList <:+: NEW ++ name ↔ "%s".toList <:+: name := by
  have hnew : NEW ++ name = 'n' :: 'e' :: 'w' :: name := rfl
  have hmark : "%s".toList = ['%', 's'] := rfl
  rw [hnew, hmark]
  simp [List.infix_cons_iff, List.cons_prefix_cons]

section
variable {name : Str} (hname : ¬ "%s".toList <:+: name)
include hname

theorem eventually_nameObject {object : Str} (hobject : WellSpaced object) :
    ∀ᶠ fuel in atTop, ∃ t, nameObject fuel object name = .ok t := by
  filter_upwards [eventually_gt_atTop (pieces object).length] with fuel hfuel
  exact exists_bind_ok ⟨_, replaceAll_name hobject hname hfuel⟩ fun _ => ⟨_, rfl⟩

theorem eventually_expand {object : Str} (hobject : WellSpaced object) :
    ∀ᶠ fuel in atTop, ∀ counter, ∃ t, expand fuel object name counter = .ok t := by
  filter_upwards [eventually_gt_atTop (pieces object).length,
    eventually_gt_atTop (render (Function.update Placeholder.mark .name name) (pieces object)).length]
    with fuel hfuel hfuel' counter
  exact ⟨_, expand_eq_ok.2
    ⟨_, replaceAll_name hobject hname hfuel, replaceAll_decimal (by decide) (by decide) counter hfuel'⟩⟩

end

/-- When the loops over the name end, so does every marker. -/
theorem markerOutput_ok {fuel : ℕ} {args : DefArgInstance}
    (hname : ∀ object ∈ WRITE_TO_STREAM_STR :: TEMPLATES, ∀ name ∈ [args.input.name, NEW ++ args.input.name],
      ∃ t, nameObject fuel object name = .ok t)
    (hexpand : ∀ object ∈ TEMPLATES, ∀ name ∈ [args.input.name, NEW ++ args.input.name], ∀ counter,
      ∃ t, expand fuel object name counter = .ok t) (var : Mark) (st : State) :
    ∃ r, markerOutput fuel var st args = .ok r := by
  have hstream : ∀ object ∈ TEMPLATES, ∀ name ∈ [args.input.name, NEW ++ args.input.name], ∀ counter,
      ∃ t, streamAttrObject fuel object name counter = .ok t := by
    intro object hobject name hmem counter
    obtain ⟨t, ht⟩ := hexpand object hobject name hmem counter
    exact ⟨endl t, by rw [streamAttrObject_eq, ht]; rfl⟩
  have hmakefile : ∀ name ∈ [args.input.name, NEW ++ args.input.name], ∀ memChn,
      ∃ t, makefileObject fuel name memChn = .ok t := by
    intro name hmem memChn
    obtain ⟨t, ht⟩ := hexpand MAKFILE_STR (by simp [TEMPLATES]) name hmem memChn
    exact ⟨endl t, by rw [makefileObject_eq, ht]; rfl⟩
  cases var with
  | writeToStream =>
    simp only [markerOutput]
    split
    · exact exists_bind_ok (hname WRITE_TO_STREAM_STR List.mem_cons_self _ (by simp)) fun _ => ⟨_, rfl⟩
    · exact ⟨_, rfl⟩
  | covWrite | write | cov | scalarAttr =>
    simp only [markerOutput]
    split
    · refine exists_bind_ok (hname _ ?_ _ ?_) fun _ => ⟨_, rfl⟩ <;> simp [TEMPLATES]
    · exact ⟨_, rfl⟩
  | readFromStream =>
    simp only [markerOutput]
    split
    · refine exists_bind_ok (hname _ ?_ _ ?_) fun _ => ⟨_, rfl⟩ <;> simp [TEMPLATES]
    · exact ⟨_, rfl⟩
  | streamAttr =>
    simp only [markerOutput]
    split
    · refine exists_bind_ok (hstream _ (by simp [TEMPLATES]) _ (by simp) _) fun _ => ?_
      split
      · exact exists_bind_ok (hstream _ (by simp [TEMPLATES]) _ (by simp) _) fun _ => ⟨_, rfl⟩
      · exact ⟨_, rfl⟩
    · exact ⟨_, rfl⟩
  | makefile =>
    simp only [markerOutput]
    split
    · refine exists_bind_ok (hmakefile _ (by simp) _) fun _ => ?_
      exact exists_bind_ok (hmakefile _ (by simp) _) fun _ => ⟨_, rfl⟩
    · exact exists_bind_ok (hmakefile _ (by simp) _) fun _ => ⟨_, rfl⟩
    · exact ⟨_, rfl⟩
  | function | dump | cl | dumpScalar =>
    simp only [markerOutput]
    split <;> exact ⟨_, rfl⟩
  | cal => exact ⟨_, rfl⟩

theorem nameObject_running {object name : Str} (hobject : object ∈ WRITE_TO_STREAM_STR :: TEMPLATES)
    (hs : "%s".toList <:+: name) (fuel : ℕ) : nameObject fuel object name = .error .running := by
  rw [nameObject, replaceAll_running (objects_wellSpaced object hobject).2 hs]
  rfl

theorem markerOutput_endless {args : DefArgInstance} {var : Mark} (h : args.endless var = true) (fuel : ℕ) (st : State) :
    markerOutput fuel var st args = .error .running := by
  rw [DefArgInstance.endless, Bool.and_eq_true, found_iff] at h
  obtain ⟨hvar, hs⟩ := h
  have hname (object : Str) (hobject : object ∈ WRITE_TO_STREAM_STR :: TEMPLATES) :
      nameObject fuel object args.input.name = .error .running := nameObject_running hobject hs fuel
  have hnew (object : Str) (hobject : object ∈ WRITE_TO_STREAM_STR :: TEMPLATES) :
      nameObject fuel object (NEW ++ args.input.name) = .error .running :=
    nameObject_running hobject (infix_new_iff.2 hs) fuel
  have hstream : streamAttrObject fuel STREAM_ATTR_STR args.input.name st.gmemCounter = .error .running := by
    rw [streamAttrObject_eq, expand_running (templates_wellSpaced _ (by simp [TEMPLATES])).2 hs]
    rfl
  have hmakefile : makefileObject fuel args.input.name args.memChn = .error .running := by
    rw [makefileObject_eq, expand_running (templates_wellSpaced _ (by simp [TEMPLATES])).2 hs]
    rfl
  cases var <;> cases hv : args.varType <;> rw [hv] at hvar <;> cases hvar
  all_goals simp only [markerOutput, hv, DefArgInstance.isArray, reduceCtorEq, decide_true, decide_false, Bool.or_true,
    Bool.or_false, if_true]
  case streamAttr.inputArray | streamAttr.duplexArray => exact bind_error hstream _
  case makefile.inputArray | makefile.duplexArray => exact bind_error hmakefile _
  case write.duplexArray => exact bind_error (hnew _ (by simp [TEMPLATES])) _
  case writeToStream.duplexArray => exact bind_error (hname WRITE_TO_STREAM_STR List.mem_cons_self) _
  all_goals exact bind_error (hname _ (by simp [TEMPLATES])) _

/-- A marker that does not replace anything needs no loop. -/
theorem markerOutput_plain {args : DefArgInstance} {var : Mark} (h : var.replaces args.varType = false) (fuel : ℕ)
    (st : State) : ∃ r, markerOutput fuel var st args = .ok r := by
  cases var <;> cases hv : args.varType <;> rw [hv] at h <;> cases h
  all_goals
    simp only [markerOutput, hv, DefArgInstance.isArray, reduceCtorEq, decide_false, Bool.or_false, if_false, Bool.false_eq_true]
    exact ⟨_, rfl⟩

/-- Whatever stands in the name, a loop that ends does so with enough fuel. -/
theorem eventually_markerOutput (args : DefArgInstance) : ∀ᶠ fuel in atTop, ∀ (var : Mark) (st : State),
    args.endless var = false → ∃ r, markerOutput fuel var st args = .ok r := by
  by_cases hs : "%s".toList <:+: args.input.name
  · refine .of_forall fun fuel var st hvar => markerOutput_plain ?_ fuel st
    rwa [DefArgInstance.endless, found_iff.2 hs, Bool.and_true] at hvar
  · have hnames : ∀ name ∈ [args.input.name, NEW ++ args.input.name], ¬ "%s".toList <:+: name := by
      simp only [List.forall_mem_cons, infix_new_iff]
      exact ⟨hs, hs, List.forall_mem_nil _⟩
    filter_upwards [
      eventually_forall_mem fun object hobject => eventually_forall_mem fun name hname =>
        eventually_nameObject (hnames name hname) (objects_wellSpaced object hobject).1,
      eventually_forall_mem fun object hobject => eventually_forall_mem fun name hname =>
        eventually_expand (hnames name hname) (templates_wellSpaced object hobject).1] with fuel hname hexpand var st _
    exact markerOutput_ok hname hexpand var st

/-- The arguments are taken one after the other, up to one whose loop does not end. -/
theorem markerOutputs_ok_iff {fuel : ℕ} {var : Mark} {defArgList : List DefArgInstance}
    (h : ∀ args ∈ defArgList, ∀ st, args.endless var = false → ∃ r, markerOutput fuel var st args = .ok r) (st : State) :
    (∃ r, markerOutputs fuel var st defArgList = .ok r) ↔ (defArgList.any fun args => args.endless var) = false := by
  induction defArgList generalizing st with
  | nil => exact iff_of_true ⟨_, rfl⟩ rfl
  | cons args defArgList ih =>
    have ih := ih fun a ha => h a (List.mem_cons_of_mem _ ha)
    rw [List.any_cons, markerOutputs]
    cases hargs : args.endless var with
    | true =>
      rw [bind_error (markerOutput_endless hargs fuel st)]
      simp
    | false =>
      obtain ⟨⟨st₁, text⟩, h₁⟩ := h args List.mem_cons_self st hargs
      rw [Bool.false_or, ← ih st₁, h₁]
      exact exists_bind_ok_iff fun _ => ⟨_, rfl⟩

theorem outputToFile_ok_iff {fuel ln : ℕ} {read : Str → Option Str} {st : State}
    (h : ∀ args ∈ st.defArgList, ∀ var st, args.endless var = false → ∃ r, markerOutput fuel var st args = .ok r) :
    (∃ r, outputToFile fuel read ln st = .ok r) ↔ stops read st ln = false := by
  rw [outputToFile, stops]
  by_cases hcal : atMarker st ln .cal
  · rw [if_pos hcal, if_pos hcal]
    cases calRegion read st.region with
    | error e =>
      refine iff_of_false ?_ (by simp)
      rintro ⟨r, hr⟩
      cases hr
    | ok text => exact iff_of_true ⟨_, rfl⟩ rfl
  · rw [if_neg hcal, if_neg hcal]
    cases MARKER_OUTPUT.find? (atMarker st ln) with
    | none => exact iff_of_true ⟨_, rfl⟩ rfl
    | some var =>
      rw [← markerOutputs_ok_iff (fun args hargs => h args hargs var) st]
      exact exists_bind_ok_iff fun _ => ⟨_, rfl⟩

end Customize

/-! ## The other loops -/

theorem exists_replaceAll {c : Char} (sub : Str) {target : Str} (hsub : c ∈ sub) (htarget : c ∉ target) {fuel : ℕ}
    (object : Str) (hfuel : object.count c < fuel) : ∃ text, replaceAll fuel object sub target = .ok text ∧
      text.count c ≤ object.count c := by
  obtain ⟨text, htext, hle⟩ := exists_rewriteLoop hsub htarget hfuel
  exact ⟨text, Customize.replaceAll_eq_ok.2 htext, hle⟩

theorem exists_argCopy {fuel : ℕ} {object : Str} (hfuel : object.length < fuel) (j : ℕ) :
    ∃ text, MemInterface.argCopy fuel object j = .ok text := by
  have hcount : object.count '#' < fuel := Nat.lt_of_le_of_lt List.count_le_length hfuel
  obtain ⟨text, h, -⟩ := exists_replaceAll "#%d#".toList (by decide) (notMem_decimal (by decide)) _ hcount
  exact ⟨text, h⟩

theorem exists_instanceCopy {fuel : ℕ} {object : Str} (hfuel : object.length < fuel) (j : ℕ) :
    ∃ text, MemInterface.instanceCopy fuel object j = .ok text := by
  have hcount : object.count '#' < fuel := Nat.lt_of_le_of_lt List.count_le_length hfuel
  obtain ⟨t, h, hle⟩ := exists_replaceAll "#%d#".toList (by decide) (notMem_decimal (by decide)) _ hcount
  obtain ⟨t', h', hle'⟩ := exists_replaceAll "#%d+1#".toList (by decide) (notMem_decimal (by decide)) t
    (Nat.lt_of_le_of_lt hle hcount)
  obtain ⟨text, h'', -⟩ := exists_replaceAll "#%d+2#".toList (by decide) (notMem_decimal (by decide)) t'
    (Nat.lt_of_le_of_lt (hle'.trans hle) hcount)
  exact ⟨text, bind_eq_ok.2 ⟨t, h, bind_eq_ok.2 ⟨t', h', h''⟩⟩⟩

theorem exists_makefileCopy {fuel : ℕ} {object : Str} (hfuel : object.length < fuel) (j : ℕ) :
    ∃ text, replaceAll fuel object "$(%d)".toList (decimal j) = .ok text := by
  have hcount : object.count '$' < fuel := Nat.lt_of_le_of_lt List.count_le_length hfuel
  obtain ⟨text, h, -⟩ := exists_replaceAll "$(%d)".toList (by decide) (notMem_decimal (by decide)) _ hcount
  exact ⟨text, h⟩

theorem MemInterface.exists_outputInstances {fuel ln gn : ℕ} {instances : List ArgInstance}
    (h : ∀ k ∈ instances, k.object.length < fuel) : ∃ text, outputInstances fuel ln gn instances = .ok text := by
  induction instances with
  | nil => exact ⟨_, rfl⟩
  | cons k instances ih =>
    rw [outputInstances]
    split
    · exact ⟨_, rfl⟩
    · split
      · exact exists_bind_ok (exists_copies fun j _ => exists_instanceCopy (h k List.mem_cons_self) j) fun _ => ⟨_, rfl⟩
      · exact ih fun k hk => h k (List.mem_cons_of_mem _ hk)

theorem MemInterface.exists_outputToFile {fuel ln gn : ℕ} {uninitLn : Str → ℕ} {memList : List MemArgInstance}
    (h : ∀ e ∈ memList, e.input.object.length < fuel ∧ ∀ k ∈ e.instances, k.object.length < fuel) :
    ∃ r, outputToFile fuel uninitLn ln gn memList = .ok r := by
  induction memList with
  | nil => exact ⟨_, rfl⟩
  | cons e memList ih =>
    obtain ⟨hinput, hinstances⟩ := h e List.mem_cons_self
    have ih := ih fun e he => h e (List.mem_cons_of_mem _ he)
    simp only [outputToFile]
    split
    · exact ⟨_, rfl⟩
    split
    · exact exists_bind_ok (exists_copies fun j _ => exists_argCopy hinput j) fun _ => ⟨_, rfl⟩
    split
    · exact ⟨_, rfl⟩
    split
    · exact ⟨_, rfl⟩
    refine exists_bind_ok (exists_outputInstances hinstances) fun text => ?_
    cases text with
    | none => exact ih
    | some text => exact ⟨_, rfl⟩

theorem Makefile.exists_outputToFile {fuel ln gn : ℕ} {mkList : List MkArgInstance}
    (h : ∀ e ∈ mkList, e.input.object.length < fuel) : ∃ r, outputToFile fuel ln gn mkList = .ok r := by
  induction mkList with
  | nil => exact ⟨_, rfl⟩
  | cons e mkList ih =>
    rw [outputToFile]
    split
    · exact ⟨_, rfl⟩
    split
    · exact exists_bind_ok (exists_copies fun j _ => exists_makefileCopy (h e List.mem_cons_self) j) fun _ => ⟨_, rfl⟩
    · exact ih fun e he => h e (List.mem_cons_of_mem _ he)

/-- The fuel is enough for every loop that ends, those of the kernel interface apart. -/
structure Enough (fuel : ℕ) (reg : Registry) : Prop where
  memList : ∀ e ∈ reg.memList, e.input.object.length < fuel ∧ ∀ k ∈ e.instances, k.object.length < fuel
  customize : ∀ args ∈ reg.customize.defArgList, ∀ var st, args.endless var = false →
    ∃ r, Customize.markerOutput fuel var st args = .ok r
  mkList : ∀ e ∈ reg.mkList, e.input.object.length < fuel

theorem eventually_enough (reg : Registry) : ∀ᶠ fuel in atTop, Enough fuel reg := by
  have hinstances (e : MemInterface.MemArgInstance) : ∀ᶠ fuel in atTop, ∀ k ∈ e.instances, k.object.length < fuel :=
    eventually_forall_mem fun k _ => eventually_gt_atTop k.object.length
  filter_upwards [
    eventually_forall_mem (l := reg.memList) fun e _ => (eventually_gt_atTop e.input.object.length).and (hinstances e),
    eventually_forall_mem (l := reg.customize.defArgList) fun args _ => Customize.eventually_markerOutput args,
    eventually_forall_mem (l := reg.mkList) fun e _ => eventually_gt_atTop e.input.object.length]
    with fuel hmem hcustomize hmk
  exact ⟨hmem, hcustomize, hmk⟩

theorem SameMarks.enough {fuel : ℕ} {reg reg' : Registry} (h : SameMarks reg reg') (hreg : Enough fuel reg) :
    Enough fuel reg' where
  memList := h.memList ▸ hreg.memList
  customize := h.customize.defArgList ▸ hreg.customize
  mkList := h.mkList ▸ hreg.mkList

theorem eventually_fueled (l : List KernelInterface.KernelArgInstance) : ∀ᶠ fuel in atTop, Fueled fuel l :=
  eventually_forall_mem fun e _ => eventually_gt_atTop e.kernelArg.object.length

/-! ## A round that stops, and a run -/

section
variable {fuel N n c : ℕ} {env : Env} {reg : Registry} {l : List KernelInterface.KernelArgInstance}

/-- A method that returns from every call for a line. -/
theorem exists_pollFiles {method : OutputMethod} {ans : Registry → ℕ → Bool} (hm : Bystander env method ans)
    (h : ∀ reg' j, SameMarks reg reg' → ∃ r, method.output fuel env reg' n j N = .ok r) :
    ∃ (reg' : Registry) (t : ℕ → Str) (ret : ℤ), SameMarks reg reg' ∧ ∀ g l,
      pollFiles fuel env N method n 0 ((List.range' 0 c).map g) (reg.withKernel l) =
        .ok (reg'.withKernel l, (List.range' 0 c).map (fun i => g i ++ t i), ret) := by
  have hok (j : ℕ) : ∃ r, pollFiles fuel env N method n j ((List.range' j c).map fun _ => []) reg = .ok r := by
    induction c generalizing j reg with
    | zero => exact ⟨_, rfl⟩
    | succ c ih =>
      obtain ⟨⟨reg₁, text, r⟩, h₁⟩ := h reg j (.refl _)
      have hsame : SameMarks reg reg₁ := (hm.output h₁).1
      obtain ⟨⟨reg₂, rest, rs⟩, h₂⟩ := ih (fun reg' j hreg' => h reg' j (hsame.trans hreg')) (j + 1)
      rw [List.range'_succ, List.map_cons, pollFiles]
      exact ⟨_, bind_eq_ok.2 ⟨_, h₁, bind_eq_ok.2 ⟨_, h₂, rfl⟩⟩⟩
  obtain ⟨⟨reg', files, ret⟩, hpoll⟩ := hok 0
  obtain ⟨t, hsame, -, -, hframe⟩ := pollFiles_bystander hm 0 hpoll
  exact ⟨reg', t, ret, hsame, hframe⟩

theorem exists_memOutput (hreg : Enough fuel reg) (reg' : Registry) (j : ℕ) (hsame : SameMarks reg reg') :
    ∃ r, memOutputMethod.output fuel env reg' n j N = .ok r :=
  exists_bind_ok (MemInterface.exists_outputToFile (hsame.enough hreg).memList) fun _ => ⟨_, rfl⟩

theorem exists_makefileOutput (hreg : Enough fuel reg) (reg' : Registry) (j : ℕ) (hsame : SameMarks reg reg') :
    ∃ r, makefileOutputMethod.output fuel env reg' n j N = .ok r :=
  exists_bind_ok (Makefile.exists_outputToFile (hsame.enough hreg).mkList) fun _ => ⟨_, rfl⟩

theorem customizeOutput_ok_iff (hreg : Enough fuel reg) (j : ℕ) :
    (∃ r, customizeOutputMethod.output fuel env reg n j N = .ok r) ↔
      Customize.stops env.read reg.customize n = false := by
  rw [← Customize.outputToFile_ok_iff hreg.customize]
  exact exists_bind_ok_iff fun _ => ⟨_, rfl⟩

/-- A round goes through when `customize_output_method` does not stop. -/
theorem exists_pollMethods (hreg : Enough fuel reg) (hl : Fueled fuel reg.kernelArgList)
    (hstop : Customize.stops env.read reg.customize n = false) (g : ℕ → Str) :
    ∃ r, pollMethods fuel env N n outputMethods ((List.range' 0 c).map g) reg = .ok r := by
  obtain ⟨reg₁, t₁, r₁, h₁, hmem⟩ := exists_pollFiles (c := c) (N := N) (n := n) (memOutputMethod_bystander env)
    (exists_memOutput hreg)
  obtain ⟨reg₂, t₂, r₂, h₂, hcustomize⟩ := exists_pollFiles (c := c) (N := N) (n := n) (customizeOutputMethod_bystander env)
    fun reg' j h => (customizeOutput_ok_iff ((h₁.trans h).enough hreg) j).2
      (((h₁.trans h).customize.stops env.read n).trans hstop)
  obtain ⟨reg₃, t₃, r₃, -, hmakefile⟩ := exists_pollFiles (c := c) (N := N) (n := n) (makefileOutputMethod_bystander env)
    (exists_makefileOutput ((h₁.trans h₂).enough hreg))
  rw [← Registry.withKernel_self reg, outputMethods_eq]
  simp only [pollMethods, pollFiles_kernel hl, hmem, hcustomize, hmakefile, Bind.bind, Except.bind]
  exact ⟨_, rfl⟩

/-- A call that does not return leaves the files as they are, but for what it prints to the first. -/
theorem filesLeft_eq {method : OutputMethod} (hc : 0 < c) (h : ¬ ∃ r, method.output fuel env reg n 0 N = .ok r) (g : ℕ → Str) :
    (∃ e, pollFiles fuel env N method n 0 ((List.range' 0 c).map g) reg = .error e) ∧
      filesLeft fuel env N method n 0 ((List.range' 0 c).map g) reg =
        (List.range' 0 c).map fun i => g i ++ if i = 0 then method.printed fuel reg n else [] := by
  obtain ⟨c, rfl⟩ := Nat.exists_eq_add_one.2 hc
  cases hout : method.output fuel env reg n 0 N with
  | ok r => exact absurd ⟨r, hout⟩ h
  | error e =>
    rw [List.range'_succ, List.map_cons, pollFiles, filesLeft, hout, List.map_cons, if_pos rfl]
    refine ⟨⟨e, rfl⟩, congrArg _ (List.map_congr_left fun i hi => ?_)⟩
    have hpos := (List.mem_range'_1.1 hi).1
    rw [if_neg (by omega), List.append_nil]

/-- The pieces of a round that stops: the kernel interface and the memory interface have had their turn. -/
theorem stopRound_pieces (hc : 0 < c) (hreg : Enough fuel reg) (hstop : Customize.stops env.read reg.customize n = true) :
    ∃ t : ℕ → Str, ∀ g l line, Fueled fuel l →
      (∃ e, pollMethods fuel env N n outputMethods ((List.range' 0 c).map g) (reg.withKernel l) = .error e) ∧
      methodsLeft fuel env N n outputMethods ((List.range' 0 c).map g) (reg.withKernel l) =
        (List.range' 0 c).map fun j => g j ++ piece (othersAnswer env reg n) (kernelAnswer l n) j line (t j) := by
  obtain ⟨reg₁, t, r₁, h₁, hmem⟩ := exists_pollFiles (c := c) (N := N) (n := n) (memOutputMethod_bystander env)
    (exists_memOutput hreg)
  have hothers : othersAnswer env reg n = true := by
    rw [othersAnswer, Customize.answers_of_stops hstop, Bool.or_true, Bool.true_or]
  refine ⟨fun j => t j ++ if j = 0 then Customize.printed fuel n reg₁.customize else [], fun g l line hl => ?_⟩
  have hcall : ¬ ∃ r, customizeOutputMethod.output fuel env (reg₁.withKernel l) n 0 N = .ok r := by
    have hsame : SameMarks reg (reg₁.withKernel l) := ⟨h₁.memList, h₁.customize, h₁.mkList⟩
    rw [customizeOutput_ok_iff (hsame.enough hreg), hsame.customize.stops, hstop]
    simp
  obtain ⟨⟨e, herror⟩, hleft⟩ := filesLeft_eq hc hcall fun i => g i ++ kernelText i (kernelAnswer l n) ++ t i
  rw [outputMethods_eq]
  constructor
  · refine ⟨e, ?_⟩
    simp only [pollMethods, pollFiles_kernel hl, hmem, herror, Bind.bind, Except.bind]
  · simp only [methodsLeft, pollFiles_kernel hl, hmem, herror, hleft]
    refine List.map_congr_left fun j _ => ?_
    rw [piece, hothers, if_pos rfl, List.append_assoc, List.append_assoc]
    rfl

end

/-- The loop over the lines goes to its end when no line stops it. -/
theorem exists_writeLines {fuel N n c : ℕ} {env : Env} {reg : Registry} (hc : 0 < c) (hreg : Enough fuel reg)
    (hfuel : Fueled fuel reg.kernelArgList) {lines : List Str}
    (hstop : ∀ i < lines.length, Customize.stops env.read reg.customize (n + i) = false) (g : ℕ → Str) :
    ∃ files, writeLines fuel env N n lines ((List.range' 0 c).map g) reg = .ok files := by
  induction lines generalizing n reg g with
  | nil => exact ⟨_, rfl⟩
  | cons line lines ih =>
    have hgoes : Customize.stops env.read reg.customize n = false := hstop 0 (Nat.succ_pos _)
    obtain ⟨⟨reg₁, files, ret⟩, hpoll⟩ := exists_pollMethods (c := c) (N := N) hreg hfuel hgoes g
    obtain ⟨t, hsame, hround⟩ := round_pieces hc hfuel hpoll line
    obtain ⟨files', ret', hself, hprinted⟩ := hround g reg.kernelArgList hfuel
    rw [Registry.withKernel_self, hpoll] at hself
    obtain ⟨rfl, rfl⟩ := Prod.mk.inj (Prod.mk.inj (Except.ok.inj hself)).2
    rw [writeLines, hpoll]
    simp only [Bind.bind, Except.bind]
    rw [hprinted]
    refine ih (hsame.enough hreg) (pollMethods_kernelArgList hc hfuel hpoll ▸ hfuel) (fun i hi => ?_) _
    rw [hsame.customize.stops, Nat.add_assoc, Nat.add_comm 1]
    exact hstop (i + 1) (Nat.succ_lt_succ hi)

/-- The lines of the base, from line `n` on, up to the first at which the run stops. -/
def linesReached (env : Env) (reg : Registry) : ℕ → List Str → List Str
  | _, [] => []
  | n, line :: lines =>
    line :: if Customize.stops env.read reg.customize n then [] else linesReached env reg (n + 1) lines

theorem prefix_linesReached (env : Env) (reg : Registry) (n : ℕ) (lines : List Str) :
    linesReached env reg n lines <+: lines := by
  induction lines generalizing n with
  | nil => exact List.prefix_rfl
  | cons line lines ih =>
    rw [linesReached, List.cons_prefix_cons]
    refine ⟨rfl, ?_⟩
    split
    · exact List.nil_prefix
    · exact ih (n + 1)

theorem SameMarks.linesReached {reg reg' : Registry} (h : SameMarks reg reg') (env : Env) (n : ℕ) (lines : List Str) :
    linesReached env reg' n lines = linesReached env reg n lines := by
  induction lines generalizing n with
  | nil => rfl
  | cons line lines ih => rw [Automation.linesReached, Automation.linesReached, h.customize.stops, ih]

/-- A run leaves the pieces of the lines it reaches, for any entries of the kernel interface. -/
theorem linesLeft_pieces {fuel N n c : ℕ} {env : Env} {reg : Registry} (hc : 0 < c) (hreg : Enough fuel reg)
    (hfuel : Fueled fuel reg.kernelArgList) (lines : List Str) :
    ∃ rows : List (Str × (ℕ → Str)), rows.map Prod.fst = linesReached env reg n lines ∧ ∀ g l, Fueled fuel l →
      linesLeft fuel env N n lines ((List.range' 0 c).map g) (reg.withKernel l) =
        (List.range' 0 c).map fun j => g j ++ written (othersAnswer env reg) (kernelAnswer l) j n rows := by
  induction lines generalizing n reg with
  | nil => exact ⟨[], rfl, fun g l _ => by simp [linesLeft, written]⟩
  | cons line lines ih =>
    rw [linesReached]
    cases hstop : Customize.stops env.read reg.customize n with
    | true =>
      obtain ⟨t, hround⟩ := stopRound_pieces (N := N) hc hreg hstop
      refine ⟨[(line, t)], rfl, fun g l hl => ?_⟩
      obtain ⟨⟨e, herror⟩, hleft⟩ := hround g l line hl
      simp only [linesLeft, herror, hleft]
      simp [written]
    | false =>
      obtain ⟨⟨reg₁, files, ret⟩, hpoll⟩ := exists_pollMethods (c := c) (N := N) hreg hfuel hstop fun _ => []
      obtain ⟨t, hsame, hround⟩ := round_pieces hc hfuel hpoll line
      obtain ⟨rows, hrows, hrest⟩ := ih (n := n + 1) (hsame.enough hreg) (pollMethods_kernelArgList hc hfuel hpoll ▸ hfuel)
      refine ⟨(line, t) :: rows, ?_, fun g l hl => ?_⟩
      · rw [List.map_cons, hrows, hsame.linesReached]
        rfl
      · obtain ⟨files', ret', hpoll', hprinted⟩ := hround g l hl
        simp only [linesLeft, hpoll']
        rw [hprinted, hrest _ _ hl, hsame.othersAnswer]
        simp [written, List.zipIdx_cons]

end ThundeRiNG.Automation
