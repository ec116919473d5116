import ThundeRiNG.Automation.Expansion

/-!
# What one base line puts into the files (`parser.cpp:191-226`)

The methods are asked about every line of the base, the kernel interface first. The others do not look at the
arguments filed for it, nor at what the files hold, so what they write for a line is the same with any arguments
(`pollMethods_bystanders`), and a round prints a piece to each file, in which the kernel interface has its part
(`round_pieces`).

| here | there |
| --- | --- |
| `kernelAnswer`      | the first entry with `ln == ln` or `ln == ln + 1` in `kernel_interface.cpp:61-81` |
| `othersAnswer`      | whether one of the other three methods returns 1 |
| `piece`             | what is printed to file `j` in one round of the loop over the lines |
-/

namespace ThundeRiNG.Automation

open Text

def Registry.withKernel (reg : Registry) (l : List KernelInterface.KernelArgInstance) : Registry :=
  { reg with kernelArgList := l }

@[simp] theorem Registry.withKernel_self (reg : Registry) : reg.withKernel reg.kernelArgList = reg := rfl

/-! ## The kernel interface -/

/-- `none`: no answer; `some none`: the line is dropped; `some (some object)`: `object` is printed. -/
def kernelAnswer (l : List KernelInterface.KernelArgInstance) (ln : ℕ) : Option (Option Str) :=
  (l.find? fun e => e.kernelArg.ln = ln ∨ e.kernelArg.ln = ln + 1).map fun e =>
    if e.kernelArg.ln = ln then none else some e.kernelArg.object

def cuText (j : ℕ) (object : Str) : Str := subst KernelInterface.CU_INDEX (decimal (j + 1)) object

def kernelText (j : ℕ) : Option (Option Str) → Str
  | some (some object) => endl (cuText j object)
  | _ => []

section
variable {fuel ln : ℕ} {l : List KernelInterface.KernelArgInstance}

theorem outputToFile_eq (hfuel : ∀ e ∈ l, e.kernelArg.object.length < fuel) (j : ℕ) :
    KernelInterface.outputToFile fuel ln j l =
      .ok (kernelText j (kernelAnswer l ln), (kernelAnswer l ln).isSome.toNat) := by
  induction l with
  | nil => rfl
  | cons e l ih =>
    rw [KernelInterface.outputToFile]
    by_cases h₀ : e.kernelArg.ln = ln
    · simp [kernelAnswer, h₀, kernelText]
    · by_cases h₁ : e.kernelArg.ln = ln + 1
      · rw [if_neg h₀, if_pos h₁, replaceAll_cuIndex _ (hfuel e List.mem_cons_self)]
        simp [kernelAnswer, h₁, kernelText, cuText]
        rfl
      · rw [if_neg h₀, if_neg h₁, ih fun e he => hfuel e (List.mem_cons_of_mem _ he)]
        simp [kernelAnswer, h₀, h₁]

theorem kernelAnswer_append (l l' : List KernelInterface.KernelArgInstance) (ln : ℕ) :
    kernelAnswer (l ++ l') ln = (kernelAnswer l ln).or (kernelAnswer l' ln) := by
  rw [kernelAnswer, List.find?_append, Option.map_or]
  rfl

end

/-! ## The other methods -/

def MemInterface.answers (uninitLn : Str → ℕ) (memList : List MemArgInstance) (ln : ℕ) : Bool :=
  memList.any fun e =>
    let attrLn := (e.attr.map ArgInstance.ln).getD (uninitLn e.name)
    e.input.ln = ln ∨ e.input.ln = ln + 1 ∨ attrLn = ln ∨ attrLn = ln + 1 ∨
      ∃ k ∈ e.instances, k.ln = ln ∨ k.ln = ln + 1

def Customize.answers (st : State) (ln : ℕ) : Bool := (.cal :: MARKER_OUTPUT).any (atMarker st ln)

def Makefile.answers (mkList : List MkArgInstance) (ln : ℕ) : Bool :=
  mkList.any fun e => e.input.ln = ln ∨ e.input.ln = ln + 1

def othersAnswer (env : Env) (reg : Registry) (ln : ℕ) : Bool :=
  MemInterface.answers env.uninitLn reg.memList ln || Customize.answers reg.customize ln ||
    Makefile.answers reg.mkList ln

/-- A method returns 1 for an answer; without one it returns 0 and writes nothing. -/
def Answered (answers : Bool) (text : Str) (ret : ℤ) : Prop :=
  answers = true ∧ ret = 1 ∨ answers = false ∧ ret = 0 ∧ text = []

theorem MemInterface.outputInstances_ret {fuel ln gn : ℕ} {instances : List ArgInstance} {text : Option Str}
    (h : outputInstances fuel ln gn instances = .ok text) :
    text.isSome ↔ ∃ k ∈ instances, k.ln = ln ∨ k.ln = ln + 1 := by
  induction instances with
  | nil => obtain rfl := Except.ok.inj h; simp
  | cons k instances ih =>
    rw [outputInstances] at h
    by_cases h₀ : k.ln = ln
    · rw [if_pos h₀] at h
      obtain rfl := Except.ok.inj h
      simp [h₀]
    · rw [if_neg h₀] at h
      by_cases h₁ : k.ln = ln + 1
      · rw [if_pos h₁] at h
        obtain ⟨t, -, h⟩ := bind_eq_ok.1 h
        obtain rfl := Except.ok.inj h
        simp [h₁]
      · rw [if_neg h₁] at h
        simp [ih h, h₀, h₁]

theorem MemInterface.outputToFile_answered {fuel ln gn : ℕ} {uninitLn : Str → ℕ} {memList : List MemArgInstance}
    {text : Str} {ret : ℤ} (h : outputToFile fuel uninitLn ln gn memList = .ok (text, ret)) :
    Answered (answers uninitLn memList ln) text ret := by
  induction memList with
  | nil =>
    cases h
    exact .inr ⟨rfl, rfl, rfl⟩
  | cons e memList ih =>
    rw [outputToFile] at h
    rw [answers, List.any_cons, ← answers]
    by_cases h₀ : e.input.ln = ln
    · rw [if_pos h₀] at h
      cases h
      exact .inl ⟨by simp [h₀], rfl⟩
    rw [if_neg h₀] at h
    by_cases h₁ : e.input.ln = ln + 1
    · rw [if_pos h₁] at h
      obtain ⟨t, -, h⟩ := bind_eq_ok.1 h
      cases h
      exact .inl ⟨by simp [h₁], rfl⟩
    rw [if_neg h₁] at h
    by_cases h₂ : (e.attr.map ArgInstance.ln).getD (uninitLn e.name) = ln
    · rw [if_pos h₂] at h
      cases h
      exact .inl ⟨by simp [h₂], rfl⟩
    rw [if_neg h₂] at h
    by_cases h₃ : (e.attr.map ArgInstance.ln).getD (uninitLn e.name) = ln + 1
    · rw [if_pos h₃] at h
      cases h
      exact .inl ⟨by simp [h₃], rfl⟩
    rw [if_neg h₃] at h
    obtain ⟨t, hi, h⟩ := bind_eq_ok.1 h
    have hsome := outputInstances_ret hi
    cases t with
    | some t =>
      cases h
      have hinst : ∃ k ∈ e.instances, k.ln = ln ∨ k.ln = ln + 1 := hsome.1 rfl
      exact .inl ⟨by simp only [hinst, or_true, decide_true, Bool.true_or], rfl⟩
    | none =>
      have hinst : ¬ ∃ k ∈ e.instances, k.ln = ln ∨ k.ln = ln + 1 := fun hex => by simpa using hsome.2 hex
      simp only [h₀, h₁, h₂, h₃, hinst, or_self, decide_false, Bool.false_or]
      exact ih h

theorem Makefile.outputToFile_answered {fuel ln gn : ℕ} {mkList : List MkArgInstance} {text : Str} {ret : ℤ}
    (h : outputToFile fuel ln gn mkList = .ok (text, ret)) : Answered (answers mkList ln) text ret := by
  induction mkList with
  | nil =>
    cases h
    exact .inr ⟨rfl, rfl, rfl⟩
  | cons e mkList ih =>
    rw [outputToFile] at h
    rw [answers, List.any_cons, ← answers]
    by_cases h₀ : e.input.ln = ln
    · rw [if_pos h₀] at h
      cases h
      exact .inl ⟨by simp [h₀], rfl⟩
    rw [if_neg h₀] at h
    by_cases h₁ : e.input.ln = ln + 1
    · rw [if_pos h₁] at h
      obtain ⟨t, -, h⟩ := bind_eq_ok.1 h
      cases h
      exact .inl ⟨by simp [h₁], rfl⟩
    rw [if_neg h₁] at h
    simp only [h₀, h₁, or_self, decide_false, Bool.false_or]
    exact ih h

namespace Customize

/-- Only the counters have run on. -/
structure SameArgs (st st' : State) : Prop where
  defArgList : st'.defArgList = st.defArgList
  marker : st'.marker = st.marker
  region : st'.region = st.region

theorem SameArgs.refl (st : State) : SameArgs st st := ⟨rfl, rfl, rfl⟩

theorem SameArgs.trans {st st₁ st₂ : State} (h : SameArgs st st₁) (h' : SameArgs st₁ st₂) : SameArgs st st₂ :=
  ⟨h'.defArgList.trans h.defArgList, h'.marker.trans h.marker, h'.region.trans h.region⟩

section
variable {fuel : ℕ} {var : Mark} {st st' : State} {text : Str}

theorem markerOutput_sameArgs {args : DefArgInstance} (h : markerOutput fuel var st args = .ok (st', text)) :
    SameArgs st st' := by
  have hkept : st'.defArgList = st.defArgList ∧ st'.marker = st.marker ∧ st'.region = st.region := by
    unfold markerOutput at h
    cases var <;> cases hv : args.varType <;>
      simp only [hv, bind_eq_ok, DefArgInstance.isArray, pure, Except.pure, Except.ok.injEq, Prod.mk.injEq, reduceCtorEq,
        decide_true, decide_false, Bool.or_true, Bool.or_false, if_true, if_false] at h <;> grind
  exact ⟨hkept.1, hkept.2.1, hkept.2.2⟩

theorem markerOutputs_sameArgs {defArgList : List DefArgInstance}
    (h : markerOutputs fuel var st defArgList = .ok (st', text)) : SameArgs st st' := by
  induction defArgList generalizing st text with
  | nil =>
    cases h
    exact .refl _
  | cons args defArgList ih =>
    rw [markerOutputs] at h
    obtain ⟨⟨st₁, t⟩, h₁, h⟩ := bind_eq_ok.1 h
    obtain ⟨⟨st₂, rest⟩, h₂, h⟩ := bind_eq_ok.1 h
    cases h
    exact (markerOutput_sameArgs h₁).trans (ih h₂)

end

theorem outputToFile_sameArgs {fuel ln : ℕ} {read : Str → Option Str} {st st' : State} {text : Str} {ret : ℤ}
    (h : outputToFile fuel read ln st = .ok (st', text, ret)) :
    SameArgs st st' ∧ Answered (answers st ln) text ret := by
  rw [outputToFile] at h
  rw [answers, List.any_cons]
  by_cases hcal : atMarker st ln .cal
  · rw [if_pos hcal] at h
    obtain ⟨t, -, h⟩ := bind_eq_ok.1 h
    cases h
    exact ⟨.refl _, .inl ⟨by rw [hcal]; rfl, rfl⟩⟩
  · rw [if_neg hcal] at h
    cases hfind : MARKER_OUTPUT.find? (atMarker st ln) with
    | some var =>
      rw [hfind] at h
      obtain ⟨⟨st₁, t⟩, h₁, h⟩ := bind_eq_ok.1 h
      cases h
      have hany : MARKER_OUTPUT.any (atMarker st ln) = true :=
        List.any_eq_true.2 ⟨var, List.mem_of_find?_eq_some hfind, List.find?_some hfind⟩
      exact ⟨markerOutputs_sameArgs h₁, .inl ⟨by rw [hany, Bool.or_true], rfl⟩⟩
    | none =>
      rw [hfind] at h
      cases h
      have hany : MARKER_OUTPUT.any (atMarker st ln) = false :=
        List.any_eq_false.2 fun var hvar => by simpa using List.find?_eq_none.1 hfind var hvar
      exact ⟨.refl _, .inr ⟨by rw [hany, Bool.or_false]; simpa using hcal, rfl, rfl⟩⟩

theorem SameArgs.atMarker {st st' : State} (h : SameArgs st st') : atMarker st' = atMarker st := by
  funext ln var
  simp only [Customize.atMarker, h.marker]

theorem SameArgs.answers {st st' : State} (h : SameArgs st st') : answers st' = answers st := by
  funext ln
  rw [Customize.answers, h.atMarker, ← Customize.answers]

end Customize

/-! ## Asking the other methods -/

/-- What the methods answer by has not changed. -/
structure SameMarks (reg reg' : Registry) : Prop where
  memList : reg'.memList = reg.memList
  customize : Customize.SameArgs reg.customize reg'.customize
  mkList : reg'.mkList = reg.mkList

theorem SameMarks.refl (reg : Registry) : SameMarks reg reg := ⟨rfl, .refl _, rfl⟩

theorem SameMarks.trans {reg reg₁ reg₂ : Registry} (h : SameMarks reg reg₁) (h' : SameMarks reg₁ reg₂) :
    SameMarks reg reg₂ :=
  ⟨h'.memList.trans h.memList, h.customize.trans h'.customize, h'.mkList.trans h.mkList⟩

/-- A method that answers by `ans` and does not look at the arguments of the kernel interface. -/
structure Bystander (env : Env) (method : OutputMethod) (ans : Registry → ℕ → Bool) : Prop where
  same : ∀ {reg reg'}, SameMarks reg reg' → ans reg' = ans reg
  output : ∀ {fuel reg ln j N reg' text ret}, method.output fuel env reg ln j N = .ok (reg', text, ret) →
    SameMarks reg reg' ∧ Answered (ans reg ln) text ret ∧
      ∀ l, method.output fuel env (reg.withKernel l) ln j N = .ok (reg'.withKernel l, text, ret)

/-- The methods of one round have answered together, with the texts `t` for the files. -/
def Polled (answers : Bool) (t : ℕ → Str) (ret : ℤ) : Prop :=
  answers = true ∧ 0 < ret ∨ answers = false ∧ ret = 0 ∧ ∀ j, t j = []

theorem Polled.append {a a' : Bool} {t t' : ℕ → Str} {r r' : ℤ} (h : Polled a t r) (h' : Polled a' t' r') :
    Polled (a || a') (fun j => t j ++ t' j) (r + r') := by
  rcases h with ⟨ha, hr⟩ | ⟨ha, hr, ht⟩
  · rcases h' with ⟨-, hr'⟩ | ⟨-, hr', -⟩
    · exact .inl ⟨by rw [ha]; rfl, by omega⟩
    · exact .inl ⟨by rw [ha]; rfl, by omega⟩
  · rcases h' with ⟨ha', hr'⟩ | ⟨ha', hr', ht'⟩
    · exact .inl ⟨by rw [ha', Bool.or_true], by omega⟩
    · exact .inr ⟨by rw [ha, ha']; rfl, by omega, fun j => by simp only [ht, ht', List.append_nil]⟩

section
variable {fuel N ln c : ℕ} {env : Env} {reg reg' : Registry} {g : ℕ → Str} {files : List Str} {ret : ℤ}

/-- One method, on the files from `j` on. -/
theorem pollFiles_bystander {method : OutputMethod} {ans : Registry → ℕ → Bool} (hm : Bystander env method ans) (j : ℕ)
    (h : pollFiles fuel env N method ln j ((List.range' j c).map g) reg = .ok (reg', files, ret)) :
    ∃ t : ℕ → Str, SameMarks reg reg' ∧ (ans reg ln = true → ret = c) ∧ (ans reg ln = false → ret = 0 ∧ ∀ i, t i = []) ∧
      ∀ g' l, pollFiles fuel env N method ln j ((List.range' j c).map g') (reg.withKernel l) =
        .ok (reg'.withKernel l, (List.range' j c).map (fun i => g' i ++ t i), ret) := by
  induction c generalizing j reg reg' files ret with
  | zero =>
    cases h
    exact ⟨fun _ => [], .refl _, fun _ => rfl, fun _ => ⟨rfl, fun _ => rfl⟩, fun _ _ => rfl⟩
  | succ c ih =>
    rw [List.range'_succ, List.map_cons, pollFiles] at h
    obtain ⟨⟨reg₁, text, r⟩, h₁, h⟩ := bind_eq_ok.1 h
    obtain ⟨⟨reg₂, rest, rs⟩, h₂, h⟩ := bind_eq_ok.1 h
    cases h
    obtain ⟨hsame, hans, hframe⟩ := hm.output h₁
    obtain ⟨t, hsame', htrue, hfalse, hframe'⟩ := ih (j + 1) h₂
    rw [hm.same hsame] at htrue hfalse
    refine ⟨Function.update t j text, hsame.trans hsame', fun ha => ?_, fun ha => ?_, fun g' l => ?_⟩
    · rcases hans with ⟨-, rfl⟩ | ⟨ha', -⟩
      · rw [htrue ha]
        push_cast
        omega
      · rw [ha] at ha'; cases ha'
    · rcases hans with ⟨ha', -⟩ | ⟨-, rfl, rfl⟩
      · rw [ha] at ha'; cases ha'
      · obtain ⟨rfl, ht⟩ := hfalse ha
        refine ⟨rfl, fun i => ?_⟩
        by_cases hi : i = j
        · rw [hi, Function.update_self]
        · rw [Function.update_of_ne hi, ht]
    · have hrest : (List.range' (j + 1) c).map (fun i => g' i ++ Function.update t j text i) =
          (List.range' (j + 1) c).map fun i => g' i ++ t i := by
        refine List.map_congr_left fun i hi => ?_
        rw [Function.update_of_ne (by have := (List.mem_range'_1.1 hi).1; omega)]
      rw [List.range'_succ, List.map_cons, List.map_cons, pollFiles, hframe, hrest, Function.update_self]
      simp only [bind, Except.bind, hframe']
      rfl

theorem any_answers {methods : List OutputMethod} {anss : List (Registry → ℕ → Bool)}
    (hm : List.Forall₂ (Bystander env) methods anss) (hsame : SameMarks reg reg') (ln : ℕ) :
    (anss.any fun ans => ans reg' ln) = anss.any fun ans => ans reg ln := by
  induction hm with
  | nil => rfl
  | cons hmethod _ ih => rw [List.any_cons, List.any_cons, ih, hmethod.same hsame]

/-- Several methods, on all files. -/
theorem pollMethods_bystanders {methods : List OutputMethod} {anss : List (Registry → ℕ → Bool)}
    (hm : List.Forall₂ (Bystander env) methods anss) (hc : 0 < c)
    (h : pollMethods fuel env N ln methods ((List.range' 0 c).map g) reg = .ok (reg', files, ret)) :
    ∃ t : ℕ → Str, SameMarks reg reg' ∧ Polled (anss.any fun ans => ans reg ln) t ret ∧ ∀ g' l,
      pollMethods fuel env N ln methods ((List.range' 0 c).map g') (reg.withKernel l) =
        .ok (reg'.withKernel l, (List.range' 0 c).map (fun i => g' i ++ t i), ret) := by
  induction hm generalizing g reg files ret with
  | nil =>
    cases h
    refine ⟨fun _ => [], .refl _, .inr ⟨rfl, rfl, fun _ => rfl⟩, fun g' l => ?_⟩
    simp only [List.append_nil]
    rfl
  | @cons method ans methods anss hmethod hmethods ih =>
    rw [pollMethods] at h
    obtain ⟨⟨reg₁, files₁, r⟩, h₁, h⟩ := bind_eq_ok.1 h
    obtain ⟨⟨reg₂, files₂, rs⟩, h₂, h⟩ := bind_eq_ok.1 h
    cases h
    obtain ⟨t, hsame, htrue, hfalse, hframe⟩ := pollFiles_bystander hmethod 0 h₁
    have hself := hframe g reg.kernelArgList
    rw [Registry.withKernel_self, h₁] at hself
    have hfiles : files₁ = (List.range' 0 c).map fun i => g i ++ t i := congrArg (·.2.1) (Except.ok.inj hself)
    subst hfiles
    obtain ⟨t', hsame', hpolled', hframe'⟩ := ih h₂
    have hpolled : Polled (ans reg ln) t r := by
      cases hans : ans reg ln with
      | true => exact .inl ⟨rfl, by rw [htrue hans]; omega⟩
      | false => exact .inr ⟨rfl, hfalse hans⟩
    refine ⟨fun i => t i ++ t' i, hsame.trans hsame', ?_, fun g' l => ?_⟩
    · rw [List.any_cons]
      exact hpolled.append (any_answers hmethods hsame ln ▸ hpolled')
    · rw [pollMethods, hframe]
      simp only [bind, Except.bind, hframe', List.append_assoc]
      rfl

end

/-! ### `mem_output_method`, `customize_output_method`, `makefile_output_method` -/

def memOutputMethod : OutputMethod where
  ofNumber _ := MemInterface.getOfNumber
  output fuel env reg ln _ gn := do
    let (text, ret) ← MemInterface.outputToFile fuel env.uninitLn ln gn reg.memList
    return (reg, text, ret)

def customizeOutputMethod : OutputMethod where
  ofNumber _ := Customize.getOfNumber
  output fuel env reg ln _ _ := do
    let (st, text, ret) ← Customize.outputToFile fuel env.read ln reg.customize
    return ({ reg with customize := st }, text, ret)
  printed fuel reg ln := Customize.printed fuel ln reg.customize

def makefileOutputMethod : OutputMethod where
  ofNumber _ := Makefile.getOfNumber
  output fuel _ reg ln _ gn := do
    let (text, ret) ← Makefile.outputToFile fuel ln gn reg.mkList
    return (reg, text, ret)

variable (env : Env)

theorem memOutputMethod_bystander :
    Bystander env memOutputMethod (fun reg => MemInterface.answers env.uninitLn reg.memList) where
  same h := by rw [h.memList]
  output h := by
    obtain ⟨⟨text, ret⟩, h₁, h⟩ := bind_eq_ok.1 h
    cases h
    exact ⟨.refl _, MemInterface.outputToFile_answered h₁, fun l => bind_eq_ok.2 ⟨_, h₁, rfl⟩⟩

theorem customizeOutputMethod_bystander :
    Bystander env customizeOutputMethod (fun reg => Customize.answers reg.customize) where
  same h := h.customize.answers
  output h := by
    obtain ⟨⟨st, text, ret⟩, h₁, h⟩ := bind_eq_ok.1 h
    cases h
    obtain ⟨hargs, hans⟩ := Customize.outputToFile_sameArgs h₁
    exact ⟨⟨rfl, hargs, rfl⟩, hans, fun l => bind_eq_ok.2 ⟨_, h₁, rfl⟩⟩

theorem makefileOutputMethod_bystander :
    Bystander env makefileOutputMethod (fun reg => Makefile.answers reg.mkList) where
  same h := by rw [h.mkList]
  output h := by
    obtain ⟨⟨text, ret⟩, h₁, h⟩ := bind_eq_ok.1 h
    cases h
    exact ⟨.refl _, Makefile.outputToFile_answered h₁, fun l => bind_eq_ok.2 ⟨_, h₁, rfl⟩⟩

/-! ## A round, and a run -/

def kernelOutputMethod : OutputMethod where
  ofNumber reg := KernelInterface.getOfNumber reg.kernelArgList
  output fuel _ reg ln fileid _ := do
    let (text, ret) ← KernelInterface.outputToFile fuel ln fileid reg.kernelArgList
    return (reg, text, ret)

theorem outputMethods_eq : outputMethods =
    [kernelOutputMethod, memOutputMethod, customizeOutputMethod, makefileOutputMethod] := rfl

theorem others_bystanders : List.Forall₂ (Bystander env) [memOutputMethod, customizeOutputMethod, makefileOutputMethod]
    [fun reg => MemInterface.answers env.uninitLn reg.memList, fun reg => Customize.answers reg.customize,
      fun reg => Makefile.answers reg.mkList] :=
  .cons (memOutputMethod_bystander env) (.cons (customizeOutputMethod_bystander env)
    (.cons (makefileOutputMethod_bystander env) .nil))

/-- What is printed to file `j` for a line: `k` is the answer of the kernel interface, `text` that of the others. -/
def piece (others : Bool) (k : Option (Option Str)) (j : ℕ) (line text : Str) : Str :=
  kernelText j k ++ if others then text else if k.isNone then endl line else []

/-- All pieces of file `j`, for lines from `n` on with the texts of the other methods. -/
def written (others : ℕ → Bool) (k : ℕ → Option (Option Str)) (j n : ℕ) (rows : List (Str × (ℕ → Str))) : Str :=
  (rows.zipIdx n).flatMap fun x => piece (others x.2) (k x.2) j x.1.1 (x.1.2 j)

/-- The fuel is enough for the objects of the entries. -/
def Fueled (fuel : ℕ) (l : List KernelInterface.KernelArgInstance) : Prop :=
  ∀ e ∈ l, e.kernelArg.object.length < fuel

section
variable {env} {fuel N n c : ℕ} {reg reg' : Registry} {l : List KernelInterface.KernelArgInstance} {g : ℕ → Str}

theorem pollFiles_kernel (hl : Fueled fuel l) (g : ℕ → Str) :
    pollFiles fuel env N kernelOutputMethod n 0 ((List.range' 0 c).map g) (reg.withKernel l) =
      .ok (reg.withKernel l, (List.range' 0 c).map fun i => g i ++ kernelText i (kernelAnswer l n),
        c * (kernelAnswer l n).isSome.toNat) := by
  refine pollFiles_eq (fun j => ?_) g 0 c
  exact bind_eq_ok.2 ⟨_, outputToFile_eq hl j, rfl⟩

/-- One round of the loop, for any entries of the kernel interface. -/
theorem round_pieces (hc : 0 < c) (hreg : Fueled fuel reg.kernelArgList) {files : List Str} {ret : ℤ}
    (h : pollMethods fuel env N n outputMethods ((List.range' 0 c).map g) reg = .ok (reg', files, ret)) (line : Str) :
    ∃ t : ℕ → Str, SameMarks reg reg' ∧ ∀ g' l, Fueled fuel l → ∃ files' ret',
      pollMethods fuel env N n outputMethods ((List.range' 0 c).map g') (reg.withKernel l) =
        .ok (reg'.withKernel l, files', ret') ∧
      (if ret' = 0 then files'.map (· ++ endl line) else files') = (List.range' 0 c).map fun j =>
        g' j ++ piece (othersAnswer env reg n) (kernelAnswer l n) j line (t j) := by
  rw [outputMethods_eq, pollMethods] at h
  obtain ⟨⟨reg₁, files₁, r⟩, h₁, h⟩ := bind_eq_ok.1 h
  obtain ⟨⟨reg₂, files₂, rs⟩, h₂, h⟩ := bind_eq_ok.1 h
  cases h
  rw [← Registry.withKernel_self reg, pollFiles_kernel hreg] at h₁
  cases h₁
  obtain ⟨t, hsame, hpolled, hframe⟩ := pollMethods_bystanders (others_bystanders env) hc h₂
  have hothers : ([fun reg => MemInterface.answers env.uninitLn reg.memList, fun reg => Customize.answers reg.customize,
      fun reg => Makefile.answers reg.mkList].any fun ans : Registry → ℕ → Bool => ans reg n) =
        othersAnswer env reg n := by
    simp [othersAnswer, Bool.or_assoc]
  rw [Registry.withKernel_self, hothers] at hpolled
  refine ⟨t, hsame, fun g' l hl => ⟨(List.range' 0 c).map fun i => g' i ++ kernelText i (kernelAnswer l n) ++ t i,
    c * (kernelAnswer l n).isSome.toNat + rs, ?_, ?_⟩⟩
  · rw [outputMethods_eq, pollMethods, pollFiles_kernel hl]
    exact bind_eq_ok.2 ⟨_, rfl, bind_eq_ok.2 ⟨_, hframe _ l, rfl⟩⟩
  · rcases hpolled with ⟨hans, hrs⟩ | ⟨hans, rfl, ht⟩
    · -- another method has answered
      have hk : (0 : ℤ) ≤ c * (kernelAnswer l n).isSome.toNat := Int.mul_nonneg (by omega) (by omega)
      rw [if_neg (by omega)]
      simp [piece, hans]
    · cases hk : kernelAnswer l n with
      | none =>
        simp [piece, hans, ht, kernelText]
      | some k =>
        have hret : ¬ (c : ℤ) * (some k).isSome.toNat + 0 = 0 := by simp; omega
        rw [if_neg hret]
        simp [piece, hans, ht]

theorem pollMethods_kernelArgList (hc : 0 < c) (hreg : Fueled fuel reg.kernelArgList) {files : List Str} {ret : ℤ}
    (h : pollMethods fuel env N n outputMethods ((List.range' 0 c).map g) reg = .ok (reg', files, ret)) :
    reg'.kernelArgList = reg.kernelArgList := by
  obtain ⟨t, -, hround⟩ := round_pieces hc hreg h []
  obtain ⟨files', ret', hself, -⟩ := hround g reg.kernelArgList hreg
  rw [Registry.withKernel_self, h] at hself
  rw [(Prod.mk.inj (Except.ok.inj hself)).1]
  rfl

theorem SameMarks.othersAnswer (h : SameMarks reg reg') (env : Env) : othersAnswer env reg' = othersAnswer env reg := by
  funext ln
  rw [ThundeRiNG.Automation.othersAnswer, h.memList, h.mkList, h.customize.answers]
  rfl

end

end ThundeRiNG.Automation
