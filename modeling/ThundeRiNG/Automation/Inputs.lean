import ThundeRiNG.Automation.Stops

/-!
# A further input with compute-unit pragmas (`kernel_interface.cpp:36-83`, `parser.cpp:102-123`, `:191-256`)

The pragmas of all inputs go into one list, with the name of their file, and the lines of the base are compared with
the line numbers in it, whatever the file. So a pragma of a further file answers for the lines of the base with its
number (`cuAnswer`), unless a pragma of the base has answered. `Unaffected` says when no line that the run reaches is
the worse for it, and then the same files are left (`mainLeft_of_unaffected`); the other way round that is so unless the
further file adds some lines and loses as many (`unaffected_of_mainLeft`).
-/

namespace ThundeRiNG.Automation

open Text Filter

/-! ## The lines a file has pragmas for -/

/-- The line after line `n`, if this is a pragma. -/
def cuNext (lines : List Str) (n : ℕ) : Option Str := if lines[n]?.any isCuPragma then lines[n + 1]? else none

/-- What the pragmas of `lines` say of line `n`, in the terms of `kernelAnswer`. -/
def cuAnswer (lines : List Str) : ℕ → Option (Option Str)
  | 0 => (cuNext lines 0).map some
  | n + 1 => if (cuNext lines n).isSome then some none else (cuNext lines (n + 1)).map some

theorem cuAnswer_cons_succ (line : Str) (lines : List Str) (n : ℕ) :
    cuAnswer (line :: lines) (n + 2) = cuAnswer lines (n + 1) := rfl

theorem kernelAnswer_cons_of_ne {e : KernelInterface.KernelArgInstance} {ln : ℕ} (h₀ : e.kernelArg.ln ≠ ln)
    (h₁ : e.kernelArg.ln ≠ ln + 1) (l : List KernelInterface.KernelArgInstance) :
    kernelAnswer (e :: l) ln = kernelAnswer l ln := by
  simp [kernelAnswer, h₀, h₁]

/-- The entries of a file answer by its lines. -/
theorem kernelAnswer_cuArgs (fileName : Str) (lines : List Str) (m n : ℕ) :
    kernelAnswer (cuArgs fileName m lines) (m + n) = cuAnswer lines n := by
  induction lines generalizing m n with
  | nil => cases n <;> rfl
  | cons line lines ih =>
    cases lines with
    | nil =>
      match n with
      | 0 => simp [cuArgs, kernelAnswer, cuAnswer, cuNext]
      | 1 => simp [cuArgs, kernelAnswer, cuAnswer, cuNext]
      | n + 2 => simp [cuArgs, kernelAnswer, cuAnswer, cuNext]
    | cons next lines =>
      by_cases hcu : isCuPragma line
      · rw [cuArgs, if_pos hcu]
        have hln : (cuEntry fileName m line next).kernelArg.ln = m + 1 := rfl
        match n with
        | 0 => simp [kernelAnswer, cuAnswer, cuNext, hcu, cuEntry]
        | 1 => simp [kernelAnswer, hln, cuAnswer, cuNext, hcu]
        | n + 2 =>
          rw [kernelAnswer_cons_of_ne (by rw [hln]; omega) (by rw [hln]; omega), cuAnswer_cons_succ, ← ih (m + 1)]
          congr 1
          omega
      · rw [cuArgs_cons_of_not hcu]
        match n with
        | 0 =>
          have hlate : kernelAnswer (cuArgs fileName (m + 1) (next :: lines)) m = none := by
            rw [kernelAnswer, List.find?_eq_none.2, Option.map_none]
            intro e he
            have := lt_ln_of_mem_cuArgs he
            simp only [decide_eq_true_eq]
            omega
          refine hlate.trans ?_
          simp [cuAnswer, cuNext, hcu]
        | 1 =>
          rw [← Nat.add_zero (m + 1), ih (m + 1) 0]
          simp [cuAnswer, cuNext, hcu]
        | n + 2 =>
          rw [cuAnswer_cons_succ, ← ih (m + 1)]
          congr 1
          omega

/-! ## Reading -/

/-- Only the compute-unit pragma is filed here. -/
theorem func_kernelArgList {item : ParserItem} (h : item ∈ localItem) : item = cuItem ∨
    ∀ arg reg, (item.func arg reg).2.kernelArgList = reg.kernelArgList := by
  rcases func_of_mem_localItem h with h | h | ⟨f, hf⟩ | ⟨f, hf⟩
  · exact .inl (List.mem_singleton.1 h)
  · simp only [memInterfaceParser, List.mem_cons, List.not_mem_nil, or_false] at h
    rcases h with rfl | rfl | rfl <;> exact .inr fun _ _ => rfl
  · exact .inr fun _ _ => by rw [hf]; rfl
  · exact .inr fun _ _ => by rw [hf]; rfl

theorem isCuPragma_of_pragmaOf {line : Str} {name : Str} (h : pragmaOf line = some (cuItem, name)) :
    isCuPragma line := by
  obtain ⟨_, hf, heq⟩ := Option.map_eq_some_iff.1 h
  obtain ⟨rfl, -⟩ := Prod.mk.inj heq
  have hfound := List.find?_some hf
  simp only [strip_pragmaString (show cuItem.keyword = "MULTIPLE_CU_INDEX".toList from rfl)] at hfound
  exact hfound

theorem registerKernelArg_of_nonneg {item : ArgInstance} {l : List KernelInterface.KernelArgInstance}
    (h : 0 ≤ (KernelInterface.registerKernelArg item l).1) :
    item.name ∉ l.map KernelInterface.KernelArgInstance.name ∧
      (KernelInterface.registerKernelArg item l).2 = l ++ [{ name := item.name, kernelArg := item }] := by
  unfold KernelInterface.registerKernelArg at h ⊢
  split at h
  · cases h
  · rename_i hnew
    rw [if_neg hnew]
    refine ⟨fun hmem => hnew ?_, rfl⟩
    obtain ⟨e, he, hname⟩ := List.mem_map.1 hmem
    exact List.find?_isSome.2 ⟨e, he, decide_eq_true hname.symm⟩

/-- A line files its entry, with a new name, or nothing. -/
theorem identifyPragmas_kernelArgList {fileName line next : Str} {n : ℕ} {reg reg' : Registry}
    (h : identifyPragmas fileName line next (n + 1) reg = .ok reg') :
    isCuPragma line ∧ cuArgument line ∉ reg.kernelArgList.map KernelInterface.KernelArgInstance.name ∧
      reg'.kernelArgList = reg.kernelArgList ++ [cuEntry fileName n line next] ∨
    ¬ isCuPragma line ∧ reg'.kernelArgList = reg.kernelArgList := by
  rcases identifyPragmas_ok h with ⟨hp, rfl⟩ | ⟨item, name, arg, hp, hmem, rfl, hret, rfl⟩
  · refine .inr ⟨fun hcu => ?_, rfl⟩
    rw [pragmaOf_of_isCuPragma hcu] at hp
    cases hp
  · by_cases hcu : isCuPragma line
    · rw [pragmaOf_of_isCuPragma hcu] at hp
      cases hp
      obtain ⟨hnew, happend⟩ := registerKernelArg_of_nonneg hret
      exact .inl ⟨hcu, hnew, happend⟩
    · refine .inr ⟨hcu, ?_⟩
      rcases func_kernelArgList hmem with rfl | hkeep
      · exact absurd (isCuPragma_of_pragmaOf hp) hcu
      · exact hkeep _ reg

section
variable {env : Env} {fileName line text : Str} {n : ℕ} {reg reg' : Registry} {lines : List Str}

theorem readLines_kernelArgList (h : readLines fileName (n + 1) line lines reg = .ok reg')
    (hnodup : (reg.kernelArgList.map KernelInterface.KernelArgInstance.name).Nodup) :
    reg'.kernelArgList = reg.kernelArgList ++ cuArgs fileName n (line :: lines) ∧
      (reg'.kernelArgList.map KernelInterface.KernelArgInstance.name).Nodup := by
  induction lines generalizing line n reg with
  | nil =>
    cases h
    exact ⟨by simp [cuArgs], hnodup⟩
  | cons next lines ih =>
    obtain ⟨reg₁, hid, hrest⟩ := readLines_cons h
    rcases identifyPragmas_kernelArgList hid with ⟨hcu, hnew, hlist⟩ | ⟨hcu, hlist⟩
    · have hnodup₁ : (reg₁.kernelArgList.map KernelInterface.KernelArgInstance.name).Nodup := by
        rw [hlist, List.map_append, List.nodup_append]
        refine ⟨hnodup, List.nodup_singleton _, ?_⟩
        rintro name hname _ hself rfl
        obtain rfl := List.mem_singleton.1 hself
        exact hnew hname
      obtain ⟨hargs, hnodup'⟩ := ih hrest hnodup₁
      refine ⟨?_, hnodup'⟩
      rw [hargs, hlist, cuArgs, if_pos hcu]
      simp
    · obtain ⟨hargs, hnodup'⟩ := ih hrest (hlist ▸ hnodup)
      refine ⟨?_, hnodup'⟩
      rw [hargs, hlist, cuArgs_cons_of_not hcu]

/-- The first input, whatever else it has: its entries are those of its lines, and their names differ. -/
theorem fileInput_kernelArgList (hread : env.read fileName = some text) (h : fileInput env fileName .init = .ok reg) :
    reg.kernelArgList = cuArgs fileName 0 (getlines text) ∧
      (reg.kernelArgList.map KernelInterface.KernelArgInstance.name).Nodup := by
  cases hlines : getlines text with
  | nil =>
    rw [fileInput_nil hread hlines] at h
    cases h
    exact ⟨rfl, List.nodup_nil⟩
  | cons line lines =>
    rw [fileInput_cons hread hlines] at h
    have hlist := readLines_kernelArgList h List.nodup_nil
    rwa [show Registry.init.kernelArgList = [] from rfl, List.nil_append] at hlist

theorem name_mem_of_mem_cuArgs {e : KernelInterface.KernelArgInstance} (h : e ∈ cuArgs fileName n lines) :
    ∃ line ∈ lines, isCuPragma line ∧ e.name = cuArgument line := by
  induction lines generalizing n with
  | nil => simp [cuArgs] at h
  | cons line lines ih =>
    have hrest : e ∈ cuArgs fileName (n + 1) lines → ∃ l ∈ line :: lines, isCuPragma l ∧ e.name = cuArgument l := by
      intro he
      obtain ⟨l, hl, hcu⟩ := ih he
      exact ⟨l, List.mem_cons_of_mem _ hl, hcu⟩
    by_cases hcu : isCuPragma line
    · cases lines with
      | nil => simp [cuArgs] at h
      | cons next lines =>
        rw [cuArgs, if_pos hcu] at h
        rcases List.mem_cons.1 h with rfl | h
        · exact ⟨line, List.mem_cons_self, hcu, rfl⟩
        · exact hrest h
    · rw [cuArgs_cons_of_not hcu] at h
      exact hrest h

end

/-- A further input that brings only compute units, under names of their own. -/
structure FurtherCu (base further : List Str) : Prop where
  only_cu : ∀ line ∈ further, ∀ p ∈ pragmaOf line, p.1.keyword = "MULTIPLE_CU_INDEX".toList
  distinct : ((further.filter isCuPragma).map cuArgument).Nodup
  unused : ∀ line ∈ further, isCuPragma line → ∀ l ∈ base, isCuPragma l → cuArgument l ≠ cuArgument line

instance (base further : List Str) : Decidable (FurtherCu base further) :=
  decidable_of_iff
    ((∀ line ∈ further, ∀ p ∈ pragmaOf line, p.1.keyword = "MULTIPLE_CU_INDEX".toList) ∧
      ((further.filter isCuPragma).map cuArgument).Nodup ∧
      ∀ line ∈ further, isCuPragma line → ∀ l ∈ base, isCuPragma l → cuArgument l ≠ cuArgument line)
    ⟨fun ⟨honly, hdistinct, hunused⟩ => ⟨honly, hdistinct, hunused⟩, fun h => ⟨h.only_cu, h.distinct, h.unused⟩⟩

/-- Reading it adds its entries, and does nothing else. -/
theorem fileInput_further {env : Env} {base further baseText furtherText : Str} {reg : Registry}
    (hbase : env.read base = some baseText) (hreg : fileInput env base .init = .ok reg)
    (hfurther : env.read further = some furtherText) (hcu : FurtherCu (getlines baseText) (getlines furtherText)) :
    fileInput env further reg =
      .ok (reg.withKernel (reg.kernelArgList ++ cuArgs further 0 (getlines furtherText))) := by
  obtain ⟨hlist, hnodup⟩ := fileInput_kernelArgList hbase hreg
  cases hlines : getlines furtherText with
  | nil => rw [fileInput_nil hfurther hlines]; simp [cuArgs]
  | cons line lines =>
    rw [hlines] at hcu
    rw [fileInput_cons hfurther hlines]
    refine readLines_cu hcu.only_cu (List.nodup_append.2 ⟨hnodup, hcu.distinct, ?_⟩)
    rintro name hname _ hname' rfl
    obtain ⟨e, he, rfl⟩ := List.mem_map.1 hname
    rw [hlist] at he
    obtain ⟨l, hl, hlcu, hl'⟩ := name_mem_of_mem_cuArgs he
    obtain ⟨l', hmem, hl''⟩ := List.mem_map.1 hname'
    obtain ⟨hmem, hcu'⟩ := List.mem_filter.1 hmem
    exact hcu.unused l' hmem hcu' l hl hlcu (hl'.symm.trans hl''.symm)

/-! ## One line with and without the further input -/

/-- With `k` and `k'` the answers by the base and by the further input: the line reads the same in all `c` files. -/
def Kept (c : ℕ) (others : Bool) (k k' : Option (Option Str)) (line : Str) : Prop :=
  match k, k' with
  | none, some none => others = true
  | none, some (some next) => others = false ∧ ∀ j < c, cuText j next = line
  | _, _ => True

instance : ∀ (c : ℕ) (others : Bool) (k k' : Option (Option Str)) (line : Str), Decidable (Kept c others k k' line)
  | _, _, some _, _, _ => isTrue trivial
  | _, _, none, none, _ => isTrue trivial
  | _, others, none, some none, _ => inferInstanceAs (Decidable (others = true))
  | c, others, none, some (some next), line =>
    inferInstanceAs (Decidable (others = false ∧ ∀ j < c, cuText j next = line))

/-- A line is printed beside what another method prints. -/
def addsLine (others : Bool) (k k' : Option (Option Str)) : Bool := k.isNone && k'.any Option.isSome && others

/-- The line is dropped, which was copied. -/
def losesLine (others : Bool) (k k' : Option (Option Str)) : Bool := k.isNone && k'.any Option.isNone && !others

section
variable {others : Bool} {k k' : Option (Option Str)} {line text : Str} {c j : ℕ}

theorem endl_injective : Function.Injective endl := fun s t h => by simpa [endl] using h

theorem isLine_endl (h : '\n' ∉ line) : IsLine (endl line) := ⟨line, h, rfl⟩

theorem newline_notMem_cuText {next : Str} (h : '\n' ∉ next) (j : ℕ) : '\n' ∉ cuText j next := fun hmem =>
  (mem_subst hmem).elim (notMem_decimal (by decide)) h

theorem piece_eq_of_kept (h : Kept c others k k' line) (hj : j < c) :
    piece others (k.or k') j line text = piece others k j line text := by
  match k, k' with
  | some _, _ => rfl
  | none, none => rfl
  | none, some none => simp only [piece, Option.none_or, show others = true from h, kernelText, if_true]
  | none, some (some next) =>
    obtain ⟨rfl, hnext⟩ := h
    simp [piece, kernelText, hnext j hj]

theorem kept_of_piece_eq (hc : 0 < c) {texts : ℕ → Str}
    (h : ∀ j < c, piece others (k.or k') j line (texts j) = piece others k j line (texts j)) :
    Kept c others k k' line := by
  match k, k' with
  | some _, _ => trivial
  | none, none => trivial
  | none, some none =>
    have h₀ := h 0 hc
    cases others with
    | true => rfl
    | false => simp [piece, kernelText, endl] at h₀
  | none, some (some next) =>
    cases others with
    | true =>
      have hlength := congrArg List.length (h 0 hc)
      simp [piece, kernelText, endl] at hlength
      omega
    | false =>
      refine ⟨rfl, fun j hj => endl_injective ?_⟩
      simpa [piece, kernelText] using h j hj

/-- The line breaks of a piece with the further input and without. -/
theorem count_piece (hline : '\n' ∉ line) (hnext : ∀ next, k' = some (some next) → '\n' ∉ next) :
    (piece others (k.or k') j line text).count '\n' + (losesLine others k k').toNat =
      (piece others k j line text).count '\n' + (addsLine others k k').toNat := by
  match k, k' with
  | some _, _ => rfl
  | none, none => rfl
  | none, some none =>
    have hcopy := (isLine_endl hline).count
    cases others <;> simp [piece, kernelText, hcopy, addsLine, losesLine]
  | none, some (some next) =>
    have hprint := (isLine_endl (newline_notMem_cuText (hnext next rfl) j)).count
    have hcopy := (isLine_endl hline).count
    cases others <;> simp [piece, kernelText, hprint, hcopy, addsLine, losesLine]
    omega

/-- With as many line breaks, the piece is the same, or it is one line in both. -/
theorem piece_aligned (hline : '\n' ∉ line) (hnext : ∀ next, k' = some (some next) → '\n' ∉ next)
    (h : (piece others (k.or k') j line text).count '\n' = (piece others k j line text).count '\n') :
    piece others (k.or k') j line text = piece others k j line text ∨
      IsLine (piece others (k.or k') j line text) ∧ IsLine (piece others k j line text) := by
  have hcopy := isLine_endl hline
  match k, k' with
  | some _, _ => exact .inl rfl
  | none, none => exact .inl rfl
  | none, some none =>
    cases others with
    | true => exact .inl (by simp [piece, kernelText])
    | false => simp [piece, kernelText, hcopy.count] at h
  | none, some (some next) =>
    have hprint := isLine_endl (newline_notMem_cuText (hnext next rfl) j)
    cases others with
    | true => simp [piece, kernelText, hprint.count] at h
    | false => exact .inr (by simpa [piece, kernelText] using ⟨hprint, hcopy⟩)

end

/-! ## All lines -/

/-- The numbered rows of a base. -/
theorem mem_zipIdx_rows {lines : List Str} {rows : List (Str × (ℕ → Str))} (hrows : rows.map Prod.fst = lines)
    {x : (Str × (ℕ → Str)) × ℕ} (hx : x ∈ rows.zipIdx) : lines[x.2]? = some x.1.1 := by
  rw [← hrows, List.getElem?_map, List.mem_zipIdx_iff_getElem?.1 hx]
  rfl

section
variable {lines : List Str} {rows : List (Str × (ℕ → Str))} {others : ℕ → Bool} {k k' : ℕ → Option (Option Str)}
  {c : ℕ} (hrows : rows.map Prod.fst = lines)
include hrows

theorem written_eq_of_kept (h : ∀ n line, lines[n]? = some line → Kept c (others n) (k n) (k' n) line) {j : ℕ}
    (hj : j < c) : written others (fun n => (k n).or (k' n)) j 0 rows = written others k j 0 rows :=
  List.flatMap_congr fun x hx => piece_eq_of_kept (h x.2 x.1.1 (mem_zipIdx_rows hrows hx)) hj

/-- As many lines are added as are lost if the texts are the same. -/
theorem countP_adds_eq_loses (hline : ∀ line ∈ lines, '\n' ∉ line)
    (hnext : ∀ n next, k' n = some (some next) → '\n' ∉ next) {j : ℕ}
    (h : written others (fun n => (k n).or (k' n)) j 0 rows = written others k j 0 rows) :
    (List.range lines.length).countP (fun n => losesLine (others n) (k n) (k' n)) =
      (List.range lines.length).countP fun n => addsLine (others n) (k n) (k' n) := by
  have hcount := count_flatMap_add (c := '\n') (l := rows.zipIdx)
    (f := fun x => piece (others x.2) ((k x.2).or (k' x.2)) j x.1.1 (x.1.2 j))
    (g := fun x => piece (others x.2) (k x.2) j x.1.1 (x.1.2 j))
    (p := fun x => losesLine (others x.2) (k x.2) (k' x.2)) (q := fun x => addsLine (others x.2) (k x.2) (k' x.2))
    fun x hx => count_piece (hline _ (List.mem_of_getElem? (mem_zipIdx_rows hrows hx))) (hnext x.2)
  rw [show rows.zipIdx.flatMap _ = _ from h] at hcount
  have hrange : List.range lines.length = rows.zipIdx.map Prod.snd := by
    rw [List.zipIdx_map_snd, ← hrows, List.length_map, List.range_eq_range']
  rw [hrange, List.countP_map, List.countP_map]
  exact Nat.add_left_cancel hcount

/-- Without a line added or lost, the texts are the same only if the lines are kept. -/
theorem kept_of_written_eq (hc : 0 < c) (hline : ∀ line ∈ lines, '\n' ∉ line)
    (hnext : ∀ n next, k' n = some (some next) → '\n' ∉ next)
    (hadds : ∀ n < lines.length, addsLine (others n) (k n) (k' n) = false)
    (hloses : ∀ n < lines.length, losesLine (others n) (k n) (k' n) = false)
    (h : ∀ j < c, written others (fun n => (k n).or (k' n)) j 0 rows = written others k j 0 rows) :
    ∀ n line, lines[n]? = some line → Kept c (others n) (k n) (k' n) line := by
  -- the line breaks of the two texts are those of the same pieces
  have hpieces : ∀ j < c, ∀ x ∈ rows.zipIdx, piece (others x.2) ((k x.2).or (k' x.2)) j x.1.1 (x.1.2 j) =
      piece (others x.2) (k x.2) j x.1.1 (x.1.2 j) := by
    intro j hj
    refine (flatMap_eq_iff fun x hx => ?_).1 (h j hj)
    obtain ⟨hlt, hget⟩ := List.getElem?_eq_some_iff.1 (mem_zipIdx_rows hrows hx)
    have hbreak : '\n' ∉ x.1.1 := hline _ (hget ▸ List.getElem_mem hlt)
    have hcount : (piece (others x.2) ((k x.2).or (k' x.2)) j x.1.1 (x.1.2 j)).count '\n' + _ =
        (piece (others x.2) (k x.2) j x.1.1 (x.1.2 j)).count '\n' + _ := count_piece hbreak (hnext x.2)
    rw [hadds x.2 hlt, hloses x.2 hlt] at hcount
    exact piece_aligned hbreak (hnext x.2) hcount
  intro n line hn
  rw [← hrows, List.getElem?_map, Option.map_eq_some_iff] at hn
  obtain ⟨row, hrow, rfl⟩ := hn
  exact kept_of_piece_eq hc fun j hj => hpieces j hj (row, n) (List.mem_zipIdx_iff_getElem?.2 hrow)

end

/-! ## The program -/

/-- With the further input the files are left as they are without, wherever the runs end, exit or go on for ever. -/
def SameFiles (env : Env) (N : ℕ) (base further output : Str) : Prop :=
  ∃ fuel₀, ∀ fuel ≥ fuel₀, mainLeft fuel env N [base, further, output] = mainLeft fuel env N [base, output]

/-- The further input leaves the number of files and each line the run reaches as they are. -/
structure Unaffected (env : Env) (N : ℕ) (reg : Registry) (base further : List Str) : Prop where
  files : N = 1 ∨ (∃ n, (cuNext base n).isSome) ∨ ∀ n, cuNext further n = none
  lines : ∀ n line, (linesReached env reg 0 base)[n]? = some line →
    Kept N (othersAnswer env reg n) (cuAnswer base n) (cuAnswer further n) line

/-- How many of the lines reached have the property. -/
def countReached (env : Env) (reg : Registry) (base further : List Str)
    (p : Bool → Option (Option Str) → Option (Option Str) → Bool) : ℕ :=
  (List.range (linesReached env reg 0 base).length).countP fun n =>
    p (othersAnswer env reg n) (cuAnswer base n) (cuAnswer further n)

/-- The further input adds lines, and loses as many. -/
def EvensOut (env : Env) (reg : Registry) (base further : List Str) : Prop :=
  0 < countReached env reg base further addsLine ∧
    countReached env reg base further losesLine = countReached env reg base further addsLine

theorem cuArgs_eq_nil_iff {fileName : Str} {m : ℕ} {lines : List Str} :
    cuArgs fileName m lines = [] ↔ ∀ n, cuNext lines n = none := by
  induction lines generalizing m with
  | nil => simp [cuArgs, cuNext]
  | cons line lines ih =>
    cases lines with
    | nil => simp [cuArgs, cuNext]
    | cons next lines =>
      by_cases hcu : isCuPragma line
      · rw [cuArgs, if_pos hcu]
        simp only [reduceCtorEq, false_iff, not_forall]
        exact ⟨0, by simp [cuNext, hcu]⟩
      · rw [cuArgs_cons_of_not hcu, ih]
        refine ⟨fun h n => ?_, fun h n => h (n + 1)⟩
        cases n with
        | zero => simp [cuNext, hcu]
        | succ n => exact h n

theorem cuAnswer_eq_none {lines : List Str} (h : ∀ n, cuNext lines n = none) (n : ℕ) : cuAnswer lines n = none := by
  cases n <;> simp [cuAnswer, h]

theorem mem_of_cuAnswer {lines : List Str} {n : ℕ} {next : Str} (h : cuAnswer lines n = some (some next)) :
    next ∈ lines := by
  have hnext : cuNext lines n = some next := by
    cases n with
    | zero => simpa [cuAnswer] using h
    | succ n =>
      rw [cuAnswer] at h
      split at h
      · cases h
      · simpa using h
  rw [cuNext] at hnext
  split at hnext
  · exact List.mem_of_getElem? hnext
  · cases hnext

/-- What one run leaves tells what a run with other entries leaves, if there are as many files. -/
theorem outputLeft_pieces {fuel N : ℕ} {env : Env} {input text : Str} (reg : Registry) (output : Str)
    (hread : env.read input = some text) (hN : 1 ≤ N) (hreg : Enough fuel reg) (hfuel : Fueled fuel reg.kernelArgList) :
    ∃ rows : List (Str × (ℕ → Str)), rows.map Prod.fst = linesReached env reg 0 (getlines text) ∧ ∀ l, Fueled fuel l →
      totalFileNum N (reg.withKernel l) = totalFileNum N reg → outputLeft fuel env N input output (reg.withKernel l) =
        (List.range (totalFileNum N reg)).map fun j =>
          (outputFileName input output j, written (othersAnswer env reg) (kernelAnswer l) j 0 rows) := by
  have hc : 0 < totalFileNum N reg := by
    rw [totalFileNum_eq]
    split <;> omega
  obtain ⟨rows, hrows, hpieces⟩ := linesLeft_pieces (N := N) (n := 0) hc hreg hfuel (getlines text)
  refine ⟨rows, hrows, fun l hl htotal => ?_⟩
  have hempty : (fun _ => []) ∘ outputFileName input output = fun _ => ([] : Str) := rfl
  simp only [outputLeft, hread, htotal, List.map_map, hempty]
  rw [List.range_eq_range', hpieces _ l hl, List.zip_map']
  simp

theorem length_outputLeft {fuel N : ℕ} {env : Env} {input output text : Str} {reg : Registry}
    (hread : env.read input = some text) (hN : 1 ≤ N) (hreg : Enough fuel reg) (hfuel : Fueled fuel reg.kernelArgList) :
    (outputLeft fuel env N input output reg).length = totalFileNum N reg := by
  obtain ⟨rows, -, hpieces⟩ := outputLeft_pieces reg output hread hN hreg hfuel
  have hself : outputLeft fuel env N input output reg = _ := hpieces reg.kernelArgList hfuel rfl
  rw [hself, List.length_map, List.length_range]

section
variable {env : Env} {N : ℕ} {base further output baseText furtherText : Str} {reg : Registry}
  (hbase : env.read base = some baseText) (hreg : fileInput env base .init = .ok reg)
include hbase hreg

omit hbase in
theorem mainLeft_base (fuel : ℕ) : mainLeft fuel env N [base, output] = outputLeft fuel env N base output reg := by
  refine (mainLeft_eq base output []).trans ?_
  rw [List.foldlM_cons, hreg]
  rfl

theorem mainLeft_further (hfurther : env.read further = some furtherText)
    (hcu : FurtherCu (getlines baseText) (getlines furtherText)) (fuel : ℕ) :
    mainLeft fuel env N [base, further, output] = outputLeft fuel env N base output
      (reg.withKernel (reg.kernelArgList ++ cuArgs further 0 (getlines furtherText))) := by
  refine (mainLeft_eq base output [further]).trans ?_
  simp only [List.foldlM_cons, hreg, fileInput_further hbase hreg hfurther hcu, Bind.bind, Except.bind]
  rfl

end

section
variable {env : Env} {N : ℕ} {base further output baseText furtherText : Str} {reg : Registry}
  (hbase : env.read base = some baseText) (hfurther : env.read further = some furtherText)
  (hcu : FurtherCu (getlines baseText) (getlines furtherText)) (hN : 1 ≤ N)
  (hreg : fileInput env base .init = .ok reg)
include hbase hfurther hcu hN hreg

omit hfurther hcu hN in
/-- The answers in the two runs. -/
theorem kernelAnswer_base (further furtherText : Str) : kernelAnswer reg.kernelArgList = cuAnswer (getlines baseText) ∧
    kernelAnswer (reg.kernelArgList ++ cuArgs further 0 (getlines furtherText)) =
      fun n => (cuAnswer (getlines baseText) n).or (cuAnswer (getlines furtherText) n) := by
  have hanswer (fileName : Str) (lines : List Str) : kernelAnswer (cuArgs fileName 0 lines) = cuAnswer lines := by
    funext n
    rw [← Nat.zero_add n, kernelAnswer_cuArgs, Nat.zero_add]
  rw [(fileInput_kernelArgList hbase hreg).1, hanswer]
  refine ⟨rfl, funext fun n => ?_⟩
  rw [kernelAnswer_append, hanswer, hanswer]

omit hfurther hcu hN in
/-- With the further input there are as many files. -/
theorem totalFileNum_further (further furtherText : Str) :
    totalFileNum N (reg.withKernel (reg.kernelArgList ++ cuArgs further 0 (getlines furtherText))) =
      totalFileNum N reg ↔
    N = 1 ∨ (∃ n, (cuNext (getlines baseText) n).isSome) ∨ ∀ n, cuNext (getlines furtherText) n = none := by
  have hnone : reg.kernelArgList = [] ↔ ¬ ∃ n, (cuNext (getlines baseText) n).isSome := by
    rw [(fileInput_kernelArgList hbase hreg).1, cuArgs_eq_nil_iff]
    simp
  rw [totalFileNum_eq, totalFileNum_eq, ← @cuArgs_eq_nil_iff further 0]
  simp only [Registry.withKernel, List.append_eq_nil_iff]
  by_cases hK : reg.kernelArgList = []
  · have hK' := hnone.1 hK
    by_cases hF : cuArgs further 0 (getlines furtherText) = []
    · simp [hK, hF]
    · simp [hK, hF, hK']
  · have hK' := not_not.1 (mt hnone.2 hK)
    simp [hK, hK']

section
variable {fuel : ℕ} (henough : Enough fuel reg)
  (hfuel : Fueled fuel (reg.kernelArgList ++ cuArgs further 0 (getlines furtherText)))
include henough hfuel

/-- When nothing is affected, the same files are left. -/
theorem mainLeft_of_unaffected (h : Unaffected env N reg (getlines baseText) (getlines furtherText)) :
    mainLeft fuel env N [base, further, output] = mainLeft fuel env N [base, output] := by
  obtain ⟨hk, hk'⟩ := kernelAnswer_base hbase hreg further furtherText
  have htotal := (totalFileNum_further hbase hreg further furtherText).2 h.files
  have hl : Fueled fuel reg.kernelArgList := fun e he => hfuel e (List.mem_append_left _ he)
  have hle : totalFileNum N reg ≤ N := by
    rw [totalFileNum_eq]
    split <;> omega
  obtain ⟨rows, hrows, hpieces⟩ := outputLeft_pieces reg output hbase hN henough hl
  rw [mainLeft_further hbase hreg hfurther hcu, mainLeft_base hreg, hpieces _ hfuel htotal]
  refine Eq.trans ?_ (hpieces _ hl rfl).symm
  refine List.map_congr_left fun j hj => congrArg (Prod.mk _) ?_
  rw [hk, hk']
  exact written_eq_of_kept hrows h.lines (Nat.lt_of_lt_of_le (List.mem_range.1 hj) hle)

/-- When the same files are left, nothing is affected, unless the lines added and lost even out. -/
theorem unaffected_of_mainLeft (hside : ¬ EvensOut env reg (getlines baseText) (getlines furtherText))
    (h : mainLeft fuel env N [base, further, output] = mainLeft fuel env N [base, output]) :
    Unaffected env N reg (getlines baseText) (getlines furtherText) := by
  obtain ⟨hk, hk'⟩ := kernelAnswer_base hbase hreg further furtherText
  have hl : Fueled fuel reg.kernelArgList := fun e he => hfuel e (List.mem_append_left _ he)
  have hboth : Enough fuel (reg.withKernel (reg.kernelArgList ++ cuArgs further 0 (getlines furtherText))) :=
    ⟨henough.memList, henough.customize, henough.mkList⟩
  rw [mainLeft_further hbase hreg hfurther hcu, mainLeft_base hreg] at h
  have htotal : totalFileNum N (reg.withKernel (reg.kernelArgList ++ cuArgs further 0 (getlines furtherText))) =
      totalFileNum N reg := by
    rw [← length_outputLeft hbase hN hboth hfuel, h, length_outputLeft hbase hN henough hl]
  have hfiles := (totalFileNum_further hbase hreg further furtherText).1 htotal
  refine ⟨hfiles, ?_⟩
  by_cases hF : ∀ n, cuNext (getlines furtherText) n = none
  · intro n line _
    rw [cuAnswer_eq_none hF]
    cases cuAnswer (getlines baseText) n <;> trivial
  · have hN' : totalFileNum N reg = N := by
      rw [← htotal, totalFileNum_eq, if_neg]
      simp only [Registry.withKernel, List.append_eq_nil_iff, cuArgs_eq_nil_iff]
      exact fun h => hF h.2
    obtain ⟨rows, hrows, hpieces⟩ := outputLeft_pieces reg output hbase hN henough hl
    rw [hpieces _ hfuel htotal] at h
    have hwritten := List.map_inj_left.1 (h.trans (hpieces reg.kernelArgList hl rfl))
    simp only [hN', hk, hk', List.mem_range, Prod.mk.injEq, true_and] at hwritten
    have hline : ∀ line ∈ linesReached env reg 0 (getlines baseText), '\n' ∉ line := fun line hmem =>
      newline_notMem_getlines ((prefix_linesReached env reg 0 (getlines baseText)).subset hmem)
    have hnext (n : ℕ) (next : Str) (hanswer : cuAnswer (getlines furtherText) n = some (some next)) : '\n' ∉ next :=
      newline_notMem_getlines (mem_of_cuAnswer hanswer)
    -- as many lines are added as lost, so none is
    have heven : countReached env reg (getlines baseText) (getlines furtherText) losesLine =
        countReached env reg (getlines baseText) (getlines furtherText) addsLine :=
      countP_adds_eq_loses hrows hline hnext (hwritten 0 hN)
    have hadds : countReached env reg (getlines baseText) (getlines furtherText) addsLine = 0 := by
      by_contra hpos
      exact hside ⟨Nat.pos_of_ne_zero hpos, heven⟩
    have hloses := heven.trans hadds
    rw [countReached, List.countP_eq_zero] at hadds hloses
    refine kept_of_written_eq hrows hN hline hnext (fun n hn => ?_) (fun n hn => ?_) hwritten
    · simpa using hadds n (List.mem_range.2 hn)
    · simpa using hloses n (List.mem_range.2 hn)

end

end

/-- A run that no line of the base stops ends, and what it leaves is what it has written. -/
theorem main_eq_mainLeft {env : Env} {N fuel : ℕ} {base output text : Str} {inputs : List Str} {reg : Registry}
    (hbase : env.read base = some text) (hN : 1 ≤ N)
    (hreg : (base :: inputs).foldlM (fun reg input => fileInput env input reg) Registry.init = .ok reg)
    (henough : Enough fuel reg) (hfuel : Fueled fuel reg.kernelArgList)
    (hstop : ∀ n < (getlines text).length, Customize.stops env.read reg.customize n = false) :
    main fuel env N (base :: inputs ++ [output]) = .ok (mainLeft fuel env N (base :: inputs ++ [output])) := by
  have hc : 0 < totalFileNum N reg := by
    rw [totalFileNum_eq]
    split <;> omega
  obtain ⟨out, hout⟩ := exists_writeLines (N := N) (n := 0) hc henough hfuel
    (fun i hi => (Nat.zero_add i).symm ▸ hstop i hi) fun _ => []
  obtain ⟨files, hmain⟩ : ∃ files, main fuel env N (base :: inputs ++ [output]) = .ok files := by
    rw [main_eq, hreg]
    exact ⟨_, (fileOutput_eq_ok hbase).2 ⟨out, hout, rfl⟩⟩
  rw [mainLeft_of_ok hmain, hmain]

/-- A base that is not accepted stops the program before any file is opened. -/
theorem mainLeft_of_error {env : Env} {N fuel : ℕ} {base output : Str} {e : Stop}
    (h : fileInput env base .init = .error e) (inputs : List Str) :
    mainLeft fuel env N (base :: inputs ++ [output]) = [] := by
  rw [mainLeft_eq, List.foldlM_cons, h]
  rfl

/-- **Two inputs**: the same files are left with the further input as without if this affects nothing; and for a base
    that is accepted only if, the case apart that the lines it adds and those it loses even out. None of the files read
    is an output file. -/
theorem sameFiles_iff {env : Env} {N : ℕ} {base further output baseText furtherText : Str}
    (hbase : env.read base = some baseText) (hfurther : env.read further = some furtherText)
    (hcu : FurtherCu (getlines baseText) (getlines furtherText)) (hN : 1 ≤ N) :
    ((∀ reg, fileInput env base .init = .ok reg →
        Unaffected env N reg (getlines baseText) (getlines furtherText)) → SameFiles env N base further output) ∧
    ∀ reg, fileInput env base .init = .ok reg → ¬ EvensOut env reg (getlines baseText) (getlines furtherText) →
      (SameFiles env N base further output ↔ Unaffected env N reg (getlines baseText) (getlines furtherText)) := by
  have hfuel (reg : Registry) : ∃ fuel₀, ∀ fuel ≥ fuel₀, Enough fuel reg ∧
      Fueled fuel (reg.kernelArgList ++ cuArgs further 0 (getlines furtherText)) :=
    eventually_atTop.1 ((eventually_enough reg).and (eventually_fueled _))
  have hsame (reg : Registry) (hreg : fileInput env base .init = .ok reg)
      (h : Unaffected env N reg (getlines baseText) (getlines furtherText)) : SameFiles env N base further output := by
    obtain ⟨fuel₀, henough⟩ := hfuel reg
    exact ⟨fuel₀, fun fuel hle =>
      mainLeft_of_unaffected hbase hfurther hcu hN hreg (henough fuel hle).1 (henough fuel hle).2 h⟩
  constructor
  · intro h
    cases hreg : fileInput env base .init with
    | error e => exact ⟨0, fun _ _ => (mainLeft_of_error hreg [further]).trans (mainLeft_of_error hreg []).symm⟩
    | ok reg => exact hsame reg hreg (h reg hreg)
  · intro reg hreg hside
    refine ⟨fun hfiles => ?_, hsame reg hreg⟩
    obtain ⟨fuel₁, hfiles⟩ := hfiles
    obtain ⟨fuel₂, henough⟩ := hfuel reg
    obtain ⟨hreg', hfuel'⟩ := henough (max fuel₁ fuel₂) (le_max_right _ _)
    exact unaffected_of_mainLeft hbase hfurther hcu hN hreg hreg' hfuel' hside (hfiles _ (le_max_left _ _))

def keptBase : Str := "#pragma THUNDERHLS MULTIPLE_CU_INDEX kernel_id\n#define ID #%d#\nint x;\nint y;\n".toList

/-- A file with `before`, a pragma, and one more line. -/
def furtherFile (before : Str) : Str :=
  before ++ "#pragma THUNDERHLS MULTIPLE_CU_INDEX other\nint z;\n".toList

/-- A base that stops the program at its third line: there is no region of code to copy. -/
def stoppingBase : Str :=
  "#pragma THUNDERHLS MULTIPLE_CU_INDEX kernel_id\n#define ID #%d#\n#pragma THUNDERHLS USER_APPLY_CAL\n\nint x;\n".toList

def inputsEnv (base before : Str) : Env where
  read file := if file = "base.cpp".toList then some base else some (furtherFile before)
  uninitLn _ := 0

theorem fileInput_keptBase (before : Str) : fileInput (inputsEnv keptBase before) "base.cpp".toList .init =
    .ok (cuRegistry (cuArgs "base.cpp".toList 0 (getlines keptBase))) := fileInput_cu rfl (by decide)

theorem linesReached_stoppingBase {before : Str} {reg : Registry}
    (h : fileInput (inputsEnv stoppingBase before) "base.cpp".toList .init = .ok reg) :
    linesReached (inputsEnv stoppingBase before) reg 0 (getlines stoppingBase) = (getlines stoppingBase).take 3 := by
  have hreg : fileInput (inputsEnv stoppingBase before) "base.cpp".toList .init = .ok _ := rfl
  obtain rfl := Except.ok.inj (hreg.symm.trans h)
  rfl

/-- Both pragmas in the first line: the base answers. And a pragma for a line the run does not reach. -/
theorem sameFiles_iff_first :
    SameFiles (inputsEnv keptBase []) 1 "base.cpp".toList "other.cpp".toList "out".toList ∧
      SameFiles (inputsEnv stoppingBase "\n\n\n\n".toList) 1 "base.cpp".toList "other.cpp".toList "out".toList := by
  constructor
  · refine (@sameFiles_iff (inputsEnv keptBase []) 1 "base.cpp".toList "other.cpp".toList "out".toList keptBase
      (furtherFile []) rfl rfl (by decide) le_rfl).1 fun reg hreg => ?_
    obtain rfl := Except.ok.inj ((fileInput_keptBase []).symm.trans hreg)
    refine ⟨.inl rfl, fun n line hn => ?_⟩
    have hkept : ∀ p ∈ (getlines keptBase).zipIdx,
        Kept 1 false (cuAnswer (getlines keptBase) p.2) (cuAnswer (getlines (furtherFile [])) p.2) p.1 := by decide
    exact hkept (line, n) (List.mem_zipIdx_iff_getElem?.2 hn)
  · refine (@sameFiles_iff (inputsEnv stoppingBase "\n\n\n\n".toList) 1 "base.cpp".toList "other.cpp".toList
      "out".toList stoppingBase (furtherFile "\n\n\n\n".toList) rfl rfl (by decide) le_rfl).1 fun reg hreg => ?_
    refine ⟨.inl rfl, fun n line hn => ?_⟩
    rw [linesReached_stoppingBase hreg] at hn
    have hkept : ∀ others, ∀ p ∈ ((getlines stoppingBase).take 3).zipIdx, Kept 1 others
        (cuAnswer (getlines stoppingBase) p.2) (cuAnswer (getlines (furtherFile "\n\n\n\n".toList)) p.2) p.1 := by decide
    exact hkept _ (line, n) (List.mem_zipIdx_iff_getElem?.2 hn)

/-- The pragma of the further file in its third line replaces the third line of the base, and drops the fourth. -/
theorem not_sameFiles :
    ¬ ∀ (env : Env) (N : ℕ) (base further output baseText furtherText : Str), env.read base = some baseText →
      env.read further = some furtherText → (∃ line ∈ getlines baseText, isCuPragma line) →
      FurtherCu (getlines baseText) (getlines furtherText) → 1 ≤ N → SameFiles env N base further output := by
  intro h
  have hcu : FurtherCu (getlines keptBase) (getlines (furtherFile "\n\n".toList)) := by decide
  have hside : ¬ EvensOut (inputsEnv keptBase "\n\n".toList) (cuRegistry (cuArgs "base.cpp".toList 0 (getlines keptBase)))
      (getlines keptBase) (getlines (furtherFile "\n\n".toList)) := by
    rintro ⟨hadds, -⟩
    obtain ⟨n, -, hadd⟩ := List.countP_pos_iff.1 hadds
    -- no other method answers, so no line is added
    simp only [addsLine, Bool.and_eq_true] at hadd
    cases hadd.2
  obtain ⟨fuel₀, hfiles⟩ := h (inputsEnv keptBase "\n\n".toList) 1 "base.cpp".toList "other.cpp".toList "out".toList keptBase
    (furtherFile "\n\n".toList) rfl rfl (by decide) hcu le_rfl
  obtain ⟨fuel₁, henough⟩ := eventually_atTop.1 ((eventually_enough _).and (eventually_fueled _))
  obtain ⟨hreg, hfuel⟩ := henough (max fuel₀ fuel₁) (le_max_right _ _)
  have hunaffected := unaffected_of_mainLeft rfl rfl hcu le_rfl (fileInput_keptBase _) hreg hfuel hside
    (hfiles _ (le_max_left _ _))
  exact absurd (hunaffected.lines 2 "int x;".toList rfl) (by decide)

end ThundeRiNG.Automation
