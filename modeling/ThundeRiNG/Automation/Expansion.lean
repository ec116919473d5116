import Mathlib.Data.List.Chain
import Mathlib.Data.List.Nodup
import ThundeRiNG.Automation.CodeGen

/-!
# Expanding a template of compute units (`automation/parser.cpp`, `kernel_interface.cpp`)

`expand j` says what file `j` is to hold: the line after a `MULTIPLE_CU_INDEX` pragma stands in the place of the two
lines with `#%d#` read as `j`. The program gets there in two passes that share line numbers only: `cuArgs` is what
the first one files, and in the second each entry answers for the two lines it is about (`outputToFile_append`).
-/

namespace ThundeRiNG.Automation

open Text

def CU_PRAGMA : Str := "#pragmaTHUNDERHLSMULTIPLE_CU_INDEX".toList

def isCuPragma (line : Str) : Bool := found CU_PRAGMA (strip line)

def cuArgument (line : Str) : Str := erase CU_PRAGMA (strip line)

/-- File `j`, counted from 1. -/
def expand (j : ℕ) : List Str → List Str
  | line :: next :: lines =>
    if isCuPragma line then subst "#%d#".toList (decimal j) next :: expand j lines
    else line :: expand j (next :: lines)
  | lines => lines

/-- After each pragma comes a line, and it is none. -/
def EachFollowed (lines : List Str) : Prop :=
  lines.IsChain (fun line next => isCuPragma line → ¬ isCuPragma next) ∧ ∀ line ∈ lines.getLast?, ¬ isCuPragma line

/-- The pragmas of the template are compute-unit indices with different arguments, at least one, and each is
followed by a line that is none. -/
structure CuTemplate (lines : List Str) : Prop where
  only_cu : ∀ line ∈ lines, ∀ p ∈ pragmaOf line, p.1.keyword = "MULTIPLE_CU_INDEX".toList
  distinct : ((lines.filter isCuPragma).map cuArgument).Nodup
  followed : EachFollowed lines
  some_cu : ∃ line ∈ lines, isCuPragma line

instance (lines : List Str) : Decidable (EachFollowed lines) := inferInstanceAs (Decidable (_ ∧ _))

instance (lines : List Str) : Decidable (CuTemplate lines) :=
  decidable_of_iff
    ((∀ line ∈ lines, ∀ p ∈ pragmaOf line, p.1.keyword = "MULTIPLE_CU_INDEX".toList) ∧
      ((lines.filter isCuPragma).map cuArgument).Nodup ∧ EachFollowed lines ∧ ∃ line ∈ lines, isCuPragma line)
    ⟨fun ⟨honly, hdistinct, hfollowed, hsome⟩ => ⟨honly, hdistinct, hfollowed, hsome⟩,
      fun h => ⟨h.only_cu, h.distinct, h.followed, h.some_cu⟩⟩

theorem EachFollowed.tail {line : Str} {lines : List Str} (h : EachFollowed (line :: lines)) : EachFollowed lines := by
  refine ⟨h.1.tail, fun l hl => h.2 l ?_⟩
  cases lines with
  | nil => simp at hl
  | cons next lines => rwa [List.getLast?_cons_cons]

/-! ## What counts as a pragma -/

def cuItem : ParserItem := ⟨0, "MULTIPLE_CU_INDEX".toList, onKernel KernelInterface.registerKernelArg⟩

theorem strip_pragmaString {item : ParserItem} (h : item.keyword = "MULTIPLE_CU_INDEX".toList) :
    strip item.pragmaString = CU_PRAGMA := by
  rw [ParserItem.pragmaString, h]; rfl

/-- The compute-unit item is asked first. -/
theorem pragmaOf_of_isCuPragma {line : Str} (h : isCuPragma line) :
    pragmaOf line = some (cuItem, cuArgument line) := by
  have hs : strip cuItem.pragmaString = CU_PRAGMA := strip_pragmaString rfl
  have hf : localItem.find? (fun item => found (strip item.pragmaString) (strip line)) = some cuItem :=
    List.find?_cons_of_pos (by
      change found (strip cuItem.pragmaString) (strip line) = true
      rw [hs]; exact h)
  simp only [pragmaOf, hf, Option.map_some, findArg, hs]
  rfl

theorem pragmaOf_eq {line : Str} (honly : ∀ p ∈ pragmaOf line, p.1.keyword = "MULTIPLE_CU_INDEX".toList) :
    pragmaOf line = if isCuPragma line then some (cuItem, cuArgument line) else none := by
  by_cases h : isCuPragma line
  · rw [if_pos h, pragmaOf_of_isCuPragma h]
  · rw [if_neg h]
    cases hp : pragmaOf line with
    | none => rfl
    | some p =>
      obtain ⟨item, name⟩ := p
      have hkey := honly (item, name) hp
      obtain ⟨_, hf, heq⟩ := Option.map_eq_some_iff.1 hp
      obtain ⟨rfl, _⟩ := Prod.mk.inj heq
      have hfound := List.find?_some hf
      simp only [strip_pragmaString hkey] at hfound
      exact absurd hfound h

/-- Without the prefix of the pragmas a line is none. -/
theorem pragmaOf_eq_none {line : Str} (h : ¬ found (strip PRAGMA_PERFIX) (strip line)) : pragmaOf line = none := by
  have hf : localItem.find? (fun item => found (strip item.pragmaString) (strip line)) = none :=
    List.find?_eq_none.2 fun item _ hitem => h (find_of_found hitem)
  simp [pragmaOf, hf]

theorem not_isCuPragma {line : Str} (h : ¬ found (strip PRAGMA_PERFIX) (strip line)) : ¬ isCuPragma line := by
  intro hcu
  have hp := pragmaOf_of_isCuPragma hcu
  rw [pragmaOf_eq_none h] at hp
  exact absurd hp (by simp)

/-! ## Templates in pieces -/

theorem EachFollowed.cons {line : Str} {lines : List Str} (hcu : ¬ isCuPragma line) (h : EachFollowed lines) :
    EachFollowed (line :: lines) := by
  cases lines with
  | nil => exact ⟨List.isChain_singleton _, by simpa using hcu⟩
  | cons next lines =>
    exact ⟨List.isChain_cons_cons.2 ⟨fun h' => absurd h' hcu, h.1⟩, by rw [List.getLast?_cons_cons]; exact h.2⟩

theorem EachFollowed.pragma {line next : Str} {lines : List Str} (hcu : ¬ isCuPragma next)
    (h : EachFollowed (next :: lines)) : EachFollowed (line :: next :: lines) :=
  ⟨List.isChain_cons_cons.2 ⟨fun _ => hcu, h.1⟩, by rw [List.getLast?_cons_cons]; exact h.2⟩

theorem EachFollowed.append {before lines : List Str} (hcu : ∀ line ∈ before, ¬ isCuPragma line)
    (h : EachFollowed lines) : EachFollowed (before ++ lines) := by
  induction before with
  | nil => exact h
  | cons line before ih =>
    exact .cons (hcu line List.mem_cons_self) (ih fun l hl => hcu l (List.mem_cons_of_mem _ hl))

theorem expand_cons_of_not {j : ℕ} {line : Str} {lines : List Str} (hcu : ¬ isCuPragma line) :
    expand j (line :: lines) = line :: expand j lines := by
  cases lines with
  | nil => rfl
  | cons next lines => rw [expand, if_neg hcu]

theorem expand_pragma {j : ℕ} {line next : Str} {lines : List Str} (hcu : isCuPragma line) :
    expand j (line :: next :: lines) = subst "#%d#".toList (decimal j) next :: expand j lines := by
  rw [expand, if_pos hcu]

theorem expand_append {j : ℕ} {before lines : List Str} (hcu : ∀ line ∈ before, ¬ isCuPragma line) :
    expand j (before ++ lines) = before ++ expand j lines := by
  induction before with
  | nil => rfl
  | cons line before ih =>
    rw [List.cons_append, expand_cons_of_not (hcu line List.mem_cons_self),
      ih fun l hl => hcu l (List.mem_cons_of_mem _ hl), List.cons_append]

theorem expand_of_not {j : ℕ} {lines : List Str} (hcu : ∀ line ∈ lines, ¬ isCuPragma line) :
    expand j lines = lines := by
  simpa [expand] using @expand_append j lines [] hcu

/-! ## The first pass -/

def cuEntry (fileName : Str) (n : ℕ) (line next : Str) : KernelInterface.KernelArgInstance where
  name := cuArgument line
  kernelArg :=
    { orginal := line, object := next, name := cuArgument line, fileName := fileName, ln := n + 1, id := 0 }

/-- What is filed of a template whose first line is line `n`. -/
def cuArgs (fileName : Str) : ℕ → List Str → List KernelInterface.KernelArgInstance
  | n, line :: next :: lines =>
    if isCuPragma line then cuEntry fileName n line next :: cuArgs fileName (n + 1) (next :: lines)
    else cuArgs fileName (n + 1) (next :: lines)
  | _, _ => []

theorem cuArgs_cons_of_not {fileName line : Str} {n : ℕ} {lines : List Str} (h : ¬ isCuPragma line) :
    cuArgs fileName n (line :: lines) = cuArgs fileName (n + 1) lines := by
  cases lines with
  | nil => rfl
  | cons next lines => rw [cuArgs, if_neg h]

theorem lt_ln_of_mem_cuArgs {fileName : Str} {n : ℕ} {lines : List Str} {e : KernelInterface.KernelArgInstance}
    (h : e ∈ cuArgs fileName n lines) : n < e.kernelArg.ln := by
  induction lines generalizing n with
  | nil => simp [cuArgs] at h
  | cons line lines ih =>
    cases lines with
    | nil => simp [cuArgs] at h
    | cons next lines =>
      rw [cuArgs] at h
      split at h
      · rcases List.mem_cons.1 h with rfl | h
        · exact Nat.lt_succ_self n
        · exact Nat.lt_of_succ_lt (ih h)
      · exact Nat.lt_of_succ_lt (ih h)

theorem cuArgs_ne_nil {fileName : Str} {n : ℕ} {lines : List Str} (hf : EachFollowed lines)
    (h : ∃ line ∈ lines, isCuPragma line) : cuArgs fileName n lines ≠ [] := by
  induction lines generalizing n with
  | nil => simp at h
  | cons line lines ih =>
    by_cases hcu : isCuPragma line
    · cases lines with
      | nil => exact absurd hcu (hf.2 line (by simp))
      | cons next lines => simp [cuArgs, hcu]
    · obtain ⟨l, hl, hl'⟩ := h
      rcases List.mem_cons.1 hl with rfl | hl
      · exact absurd hl' hcu
      · rw [cuArgs_cons_of_not hcu]
        exact ih hf.tail ⟨l, hl, hl'⟩

theorem identifyPragmas_cu {fileName line next : Str} {n : ℕ} {reg : Registry} (hcu : isCuPragma line)
    (hnew : cuArgument line ∉ reg.kernelArgList.map KernelInterface.KernelArgInstance.name) :
    identifyPragmas fileName line next (n + 1) reg =
      .ok { reg with kernelArgList := reg.kernelArgList ++ [cuEntry fileName n line next] } := by
  have hfree : KernelInterface.getKernelArg reg.kernelArgList (cuArgument line) = none := by
    refine List.find?_eq_none.2 fun e he h => hnew ?_
    rw [of_decide_eq_true h]
    exact List.mem_map_of_mem he
  simp [identifyPragmas, pragmaOf_of_isCuPragma hcu, cuItem, onKernel, KernelInterface.registerKernelArg, hfree,
    cuEntry]

/-- The pass files `cuArgs`, as long as no name comes twice. -/
theorem readLines_cu {fileName : Str} {lines : List Str} {line : Str} {n : ℕ} {reg : Registry}
    (honly : ∀ l ∈ line :: lines, ∀ p ∈ pragmaOf l, p.1.keyword = "MULTIPLE_CU_INDEX".toList)
    (hdistinct : (reg.kernelArgList.map KernelInterface.KernelArgInstance.name ++
      ((line :: lines).filter isCuPragma).map cuArgument).Nodup) :
    readLines fileName (n + 1) line lines reg =
      .ok { reg with kernelArgList := reg.kernelArgList ++ cuArgs fileName n (line :: lines) } := by
  induction lines generalizing line n reg with
  | nil => simp [readLines, cuArgs]
  | cons next lines ih =>
    have honly' := fun l hl => honly l (List.mem_cons_of_mem _ hl)
    rw [readLines, if_pos (Nat.succ_pos n)]
    by_cases hcu : isCuPragma line
    · rw [List.filter_cons_of_pos hcu, List.map_cons] at hdistinct
      have hnew : cuArgument line ∉ reg.kernelArgList.map KernelInterface.KernelArgInstance.name := fun hmem =>
        (List.nodup_append.1 hdistinct).2.2 _ hmem _ List.mem_cons_self rfl
      rw [identifyPragmas_cu hcu hnew, cuArgs, if_pos hcu]
      simp only [bind, Except.bind]
      rw [ih honly' (by simpa [cuEntry] using hdistinct)]
      simp
    · rw [List.filter_cons_of_neg hcu] at hdistinct
      have hnone : pragmaOf line = none := by rw [pragmaOf_eq (honly line List.mem_cons_self), if_neg hcu]
      have hid : identifyPragmas fileName line next (n + 1) reg = .ok reg := by rw [identifyPragmas, hnone]
      rw [hid, cuArgs_cons_of_not hcu]
      exact ih honly' hdistinct

/-! ## The second pass -/

section
variable {fuel : ℕ} {env : Env} {N n : ℕ} {fileName : Str}

/-- Entries about other lines do not answer. -/
theorem outputToFile_append {before l : List KernelInterface.KernelArgInstance} {ln j : ℕ}
    (h : ∀ e ∈ before, e.kernelArg.ln ≠ ln ∧ e.kernelArg.ln ≠ ln + 1) :
    KernelInterface.outputToFile fuel ln j (before ++ l) = KernelInterface.outputToFile fuel ln j l := by
  induction before with
  | nil => rfl
  | cons e before ih =>
    obtain ⟨h0, h1⟩ := h e List.mem_cons_self
    rw [List.cons_append, KernelInterface.outputToFile, if_neg h0, if_neg h1,
      ih fun e he => h e (List.mem_cons_of_mem _ he)]

/-- A loop that replaces a text without digits by a number ends. -/
theorem replaceAll_decimal {object sub : Str} (hsub : sub ≠ []) (hdigit : sub.all (!Char.isDigit ·)) (j : ℕ)
    (hfuel : object.length < fuel) :
    replaceAll fuel object sub (decimal j) = .ok (subst sub (decimal j) object) := by
  have hdisj : ∀ c ∈ decimal j, c ∉ sub := fun c hc hmem =>
    notMem_decimal (by simpa using List.all_eq_true.1 hdigit c hmem) hc
  rw [replaceAll, rewriteLoop_eq_subst (decimal_ne_nil j) hsub hdisj hfuel]

theorem replaceAll_cuIndex {object : Str} (j : ℕ) (hfuel : object.length < fuel) :
    replaceAll fuel object KernelInterface.CU_INDEX (decimal j) = .ok (subst "#%d#".toList (decimal j) object) :=
  replaceAll_decimal (by decide) (by decide) j hfuel

section
variable {before : List KernelInterface.KernelArgInstance} {line next : Str} {lines : List Str}

/-- At the pragma the next line is printed, with the number of the file. -/
theorem outputToFile_print (hbefore : ∀ e ∈ before, e.kernelArg.ln < n) (hcu : isCuPragma line)
    (hfuel : next.length < fuel) (j : ℕ) :
    KernelInterface.outputToFile fuel n j (before ++ cuArgs fileName n (line :: next :: lines)) =
      .ok (endl (subst "#%d#".toList (decimal (j + 1)) next), 1) := by
  have hskip : ∀ e ∈ before, e.kernelArg.ln ≠ n ∧ e.kernelArg.ln ≠ n + 1 := fun e he =>
    ⟨(hbefore e he).ne, (Nat.lt_succ_of_lt (hbefore e he)).ne⟩
  have hln : (cuEntry fileName n line next).kernelArg.ln = n + 1 := rfl
  have hobject : (cuEntry fileName n line next).kernelArg.object = next := rfl
  rw [outputToFile_append hskip, cuArgs, if_pos hcu, KernelInterface.outputToFile, hln, if_neg (Nat.succ_ne_self n),
    if_pos rfl, hobject, replaceAll_cuIndex _ hfuel]
  rfl

/-- At the line after the pragma nothing is. -/
theorem outputToFile_drop (hbefore : ∀ e ∈ before, e.kernelArg.ln < n) (hcu : isCuPragma line) (j : ℕ) :
    KernelInterface.outputToFile fuel (n + 1) j (before ++ cuArgs fileName n (line :: next :: lines)) =
      .ok ([], 1) := by
  have hskip : ∀ e ∈ before, e.kernelArg.ln ≠ n + 1 ∧ e.kernelArg.ln ≠ n + 1 + 1 := fun e he =>
    ⟨(Nat.lt_succ_of_lt (hbefore e he)).ne, (Nat.lt_succ_of_lt (Nat.lt_succ_of_lt (hbefore e he))).ne⟩
  rw [outputToFile_append hskip, cuArgs, if_pos hcu, KernelInterface.outputToFile, if_pos (by rfl)]

/-- At any other line no entry answers. -/
theorem outputToFile_silent (hbefore : ∀ e ∈ before, e.kernelArg.ln < n) (hcu : ¬ isCuPragma line) (j : ℕ) :
    KernelInterface.outputToFile fuel n j (before ++ cuArgs fileName n (line :: lines)) = .ok ([], 0) := by
  have hskip : ∀ e ∈ before ++ cuArgs fileName n (line :: lines), e.kernelArg.ln ≠ n ∧ e.kernelArg.ln ≠ n + 1 := by
    intro e he
    rcases List.mem_append.1 he with he | he
    · exact ⟨(hbefore e he).ne, (Nat.lt_succ_of_lt (hbefore e he)).ne⟩
    · rw [cuArgs_cons_of_not hcu] at he
      have := lt_ln_of_mem_cuArgs he
      exact ⟨by omega, by omega⟩
  rw [← List.append_nil (before ++ cuArgs fileName n (line :: lines)), outputToFile_append hskip]
  rfl

end

/-- A registry with nothing but compute-unit indices. -/
def cuRegistry (l : List KernelInterface.KernelArgInstance) : Registry := { Registry.init with kernelArgList := l }

theorem pollFiles_eq {method : OutputMethod} {reg : Registry} {t : ℕ → Str} {r : ℤ}
    (h : ∀ j, method.output fuel env reg n j N = .ok (reg, t j, r)) (g : ℕ → Str) (j count : ℕ) :
    pollFiles fuel env N method n j ((List.range' j count).map g) reg =
      .ok (reg, (List.range' j count).map fun i => g i ++ t i, count * r) := by
  induction count generalizing j with
  | zero => simp [pollFiles]
  | succ count ih =>
    rw [List.range'_succ, List.map_cons, pollFiles, h j]
    simp only [bind, Except.bind, ih (j + 1)]
    simp [pure, Except.pure, Int.add_mul, Int.add_comm]

/-- Only the kernel interface has something to say. -/
theorem pollMethods_cu {l : List KernelInterface.KernelArgInstance} {t : ℕ → Str} {r : ℤ}
    (h : ∀ j, KernelInterface.outputToFile fuel n j l = .ok (t j, r)) (g : ℕ → Str) :
    pollMethods fuel env N n outputMethods ((List.range' 0 N).map g) (cuRegistry l) =
      .ok (cuRegistry l, (List.range' 0 N).map fun i => g i ++ t i, N * r) := by
  simp only [outputMethods, pollMethods]
  rw [pollFiles_eq (t := t) (r := r) (by intro j; simp only [cuRegistry, h j]; rfl)]
  simp only [bind, Except.bind]
  rw [pollFiles_eq (t := fun _ => []) (r := 0) (by intro j; rfl)]
  simp only [List.append_nil]
  rw [pollFiles_eq (t := fun _ => []) (r := 0) (by intro j; rfl)]
  simp only [List.append_nil]
  rw [pollFiles_eq (t := fun _ => []) (r := 0) (by intro j; rfl)]
  simp [pure, Except.pure]

/-- A line the kernel interface has nothing to say about is copied. -/
theorem writeLines_verbatim {l : List KernelInterface.KernelArgInstance} {line : Str} {lines : List Str}
    (h : ∀ j, KernelInterface.outputToFile fuel n j l = .ok ([], 0)) (g : ℕ → Str) :
    writeLines fuel env N n (line :: lines) ((List.range' 0 N).map g) (cuRegistry l) =
      writeLines fuel env N (n + 1) lines ((List.range' 0 N).map fun i => g i ++ endl line) (cuRegistry l) := by
  rw [writeLines, pollMethods_cu h]
  simp only [bind, Except.bind, Int.mul_zero, if_pos, List.append_nil, List.map_map]
  rfl

/-- A line it answers for is not, as there is at least one file. -/
theorem writeLines_answered (hN : 0 < N) {l : List KernelInterface.KernelArgInstance} {t : ℕ → Str} {line : Str}
    {lines : List Str} (h : ∀ j, KernelInterface.outputToFile fuel n j l = .ok (t j, 1)) (g : ℕ → Str) :
    writeLines fuel env N n (line :: lines) ((List.range' 0 N).map g) (cuRegistry l) =
      writeLines fuel env N (n + 1) lines ((List.range' 0 N).map fun i => g i ++ t i) (cuRegistry l) := by
  rw [writeLines, pollMethods_cu h]
  have hret : ¬ (N : ℤ) * 1 = 0 := by omega
  simp only [bind, Except.bind, if_neg hret]

/-- The second pass from line `n` on, where the line before is no pragma: the entries of earlier lines are silent,
and the others are those of the lines to come. -/
theorem writeLines_cu (hN : 0 < N) {lines : List Str} {before : List KernelInterface.KernelArgInstance}
    (hfuel : ∀ line ∈ lines, line.length < fuel) (hf : EachFollowed lines)
    (hbefore : ∀ e ∈ before, e.kernelArg.ln < n) (g : ℕ → Str) :
    writeLines fuel env N n lines ((List.range' 0 N).map g) (cuRegistry (before ++ cuArgs fileName n lines)) =
      .ok ((List.range' 0 N).map fun i => g i ++ unlines (expand (i + 1) lines)) := by
  induction lines using expand.induct generalizing before n g with
  | case1 line next lines hcu ih =>
    have hnext : ¬ isCuPragma next := (List.isChain_cons_cons.1 hf.1).1 hcu
    rw [writeLines_answered hN (outputToFile_print hbefore hcu (hfuel next (by simp))),
      writeLines_answered hN (outputToFile_drop hbefore hcu)]
    -- two lines on, the entry of the pragma is one of the earlier ones
    have hargs : before ++ cuArgs fileName n (line :: next :: lines) =
        (before ++ [cuEntry fileName n line next]) ++ cuArgs fileName (n + 2) lines := by
      rw [cuArgs, if_pos hcu, cuArgs_cons_of_not hnext]; simp
    have hbefore' : ∀ e ∈ before ++ [cuEntry fileName n line next], e.kernelArg.ln < n + 2 := by
      intro e he
      rcases List.mem_append.1 he with he | he
      · exact Nat.lt_succ_of_lt (Nat.lt_succ_of_lt (hbefore e he))
      · obtain rfl := List.mem_singleton.1 he
        exact Nat.lt_succ_self _
    rw [hargs, ih (fun l hl => hfuel l (by simp [hl])) hf.tail.tail hbefore']
    simp [expand_pragma hcu, endl]
  | case2 line next lines hcu ih =>
    rw [writeLines_verbatim (outputToFile_silent hbefore hcu), cuArgs_cons_of_not hcu,
      ih (fun l hl => hfuel l (List.mem_cons_of_mem _ hl)) hf.tail fun e he => Nat.lt_succ_of_lt (hbefore e he)]
    simp [expand_cons_of_not hcu, endl]
  | case3 lines hshort =>
    match lines, hshort with
    | [], _ => simp [writeLines, expand]
    | [line], _ =>
      have hcu : ¬ isCuPragma line := hf.2 line (by simp)
      rw [writeLines_verbatim (outputToFile_silent hbefore hcu)]
      simp [writeLines, expand, endl]
    | line :: next :: lines, h => exact absurd rfl (h line next lines)

end

/-! ## The whole program -/

theorem outputFileName_injective (input output : Str) : Function.Injective (outputFileName input output) := by
  intro i j h
  simp only [outputFileName, List.append_assoc, List.append_cancel_left_eq] at h
  have := decimal_injective (List.append_cancel_right h)
  omega

theorem fileInput_cu {env : Env} {input text : Str} (hread : env.read input = some text)
    (ht : CuTemplate (getlines text)) :
    fileInput env input .init = .ok (cuRegistry (cuArgs input 0 (getlines text))) := by
  obtain ⟨l, hl, _⟩ := ht.some_cu
  obtain ⟨line, lines, hlines⟩ := List.exists_cons_of_ne_nil (List.ne_nil_of_mem hl)
  have honly := hlines ▸ ht.only_cu
  have hdistinct := hlines ▸ ht.distinct
  rw [fileInput_cons hread hlines, hlines]
  exact readLines_cu honly (by simpa [Registry.init] using hdistinct)

theorem fileOutput_cu {env : Env} {input output text : Str} {fuel N : ℕ} (hread : env.read input = some text)
    (ht : CuTemplate (getlines text)) (hN : 0 < N) (hfuel : ∀ line ∈ getlines text, line.length < fuel) :
    fileOutput fuel env N input output (cuRegistry (cuArgs input 0 (getlines text))) = .ok ((List.range N).map fun i =>
      (outputFileName input output i, unlines (expand (i + 1) (getlines text)))) := by
  have hargs : cuArgs input 0 (getlines text) ≠ [] := cuArgs_ne_nil ht.followed ht.some_cu
  have htotal : totalFileNum N (cuRegistry (cuArgs input 0 (getlines text))) = N := by
    rw [totalFileNum_eq, if_neg]
    exact hargs
  have hwrite := @writeLines_cu fuel env N 0 input hN _ [] hfuel ht.followed (by simp) fun _ => []
  rw [List.nil_append] at hwrite
  rw [fileOutput_eq_ok hread, htotal]
  refine ⟨_, hwrite, ?_⟩
  rw [List.range_eq_range', List.zip_map']
  rfl

/-- With more fuel than any line is long, each file is the expansion of the template for its number. -/
theorem main_cu {env : Env} {input output text : Str} {fuel N : ℕ} (hread : env.read input = some text)
    (ht : CuTemplate (getlines text)) (hN : 0 < N) (hfuel : ∀ line ∈ getlines text, line.length < fuel) :
    main fuel env N [input, output] = .ok ((List.range N).map fun i =>
      (outputFileName input output i, unlines (expand (i + 1) (getlines text)))) := by
  refine (main_eq input output []).trans ?_
  rw [List.foldlM_cons, fileInput_cu hread ht]
  exact fileOutput_cu hread ht hN hfuel

/-- Expanding adds no line break. -/
theorem newline_notMem_expand {j : ℕ} {lines : List Str} (h : ∀ line ∈ lines, '\n' ∉ line) :
    ∀ line ∈ expand j lines, '\n' ∉ line := by
  induction lines using expand.induct with
  | case1 line next lines hcu ih =>
    rw [expand_pragma hcu]
    intro l hl hmem
    rcases List.mem_cons.1 hl with rfl | hl
    · rcases mem_subst hmem with hmem | hmem
      · exact notMem_decimal (by decide) hmem
      · exact h next (by simp) hmem
    · exact ih (fun l hl => h l (by simp [hl])) l hl hmem
  | case2 line next lines hcu ih =>
    rw [expand_cons_of_not hcu]
    intro l hl
    rcases List.mem_cons.1 hl with rfl | hl
    · exact h l List.mem_cons_self
    · exact ih (fun l hl => h l (List.mem_cons_of_mem _ hl)) l hl
  | case3 lines hshort => rwa [expand]; exact hshort

/-- One template, used as the only input and not named as an output file: the program ends, with one file for each of
    `1, …, SLR_NUM`. -/
theorem templateExpansion {env : Env} {input output text : Str} {SLR_NUM : ℕ} (hread : env.read input = some text)
    (ht : CuTemplate (getlines text)) (hN : 1 ≤ SLR_NUM) :
    (∃ fuel₀, ∀ fuel ≥ fuel₀, main fuel env SLR_NUM [input, output] = .ok ((List.range SLR_NUM).map fun i =>
      (outputFileName input output i, unlines (expand (i + 1) (getlines text))))) ∧
    ((List.range SLR_NUM).map (outputFileName input output)).Nodup ∧
    ∀ j, getlines (unlines (expand j (getlines text))) = expand j (getlines text) := by
  refine ⟨⟨(getlines text).flatten.length + 1, ?_⟩, ?_, ?_⟩
  · intro fuel hfuel
    refine main_cu hread ht hN fun line hline => ?_
    have := (List.sublist_flatten_of_mem hline).length_le
    omega
  · exact List.nodup_range.map (outputFileName_injective input output)
  · intro j
    exact getlines_unlines (newline_notMem_expand fun line hline => newline_notMem_getlines hline)

def kernelIdTemplate : Str :=
  "#pragma THUNDERHLS MULTIPLE_CU_INDEX kernel_id\n#define KERNEL_ID (#%d# * NRNG  - 1)\n".toList

theorem templateExpansion_two :
    ∃ fuel₀, ∀ fuel ≥ fuel₀,
      main fuel ⟨fun _ => some kernelIdTemplate, fun _ => 0⟩ 2 ["rng.cpp".toList, "rng".toList] =
        .ok [("rng_1.cpp".toList, "#define KERNEL_ID (1 * NRNG  - 1)\n".toList),
          ("rng_2.cpp".toList, "#define KERNEL_ID (2 * NRNG  - 1)\n".toList)] := by
  obtain ⟨fuel₀, h⟩ := (@templateExpansion ⟨fun _ => some kernelIdTemplate, fun _ => 0⟩ "rng.cpp".toList "rng".toList
    kernelIdTemplate 2 rfl (by decide) (by decide)).1
  exact ⟨fuel₀, fun fuel hfuel => (h fuel hfuel).trans (by rfl)⟩

end ThundeRiNG.Automation
