import ThundeRiNG.Automation.Customize

/-!
# The code generator (`automation/parser.cpp`)

The inputs are read one after the other, and every pragma line is filed with the line after it. Then the first input
is read again and copied to the output files, except where an output method has something to say about the line.

| here | there |
| --- | --- |
| `localItem`, `outputMethods`      | `parser_init` and the `local_parser` tables |
| `pragmaOf`                        | the search of `identify_pragmas` (`:68-84`) with `find_arg` |
| `identifyPragmas`, `fileInput`    | `:68-123` |
| `outputFileName`, `fileOutput`    | `:136-238` |
| `main`                            | `:240-260` |
| `mainLeft`                        | the files at the end of a run of `main`, finished or not |

`argv` is without the name of the program. No file that is read is one of the output files.
-/

namespace ThundeRiNG.Automation

open Text

def PRAGMA_PERFIX : Str := "#pragma THUNDERHLS".toList

def isspace (c : Char) : Bool :=
  c = ' ' || c = '\t' || c = '\n' || c = '\x0b' || c = '\x0c' || c = '\r'

/-- `str.erase(std::remove_if(…, ::isspace), …)` -/
def strip (str : Str) : Str := str.filter (!isspace ·)

/-- `str.find(target) != npos` -/
def found (target str : Str) : Bool := (str.dropInfix? target).isSome

theorem found_iff {target str : Str} : found target str ↔ target <:+: str := by
  rw [found, Option.isSome_iff_ne_none, Ne, dropInfix_eq_none, not_not]

theorem strip_append (s s' : Str) : strip (s ++ s') = strip s ++ strip s' := List.filter_append ..

/-- `str.erase(str.find(target), target.length())` -/
def erase (target str : Str) : Str := (replaceFirst target [] str).getD str

structure Registry where
  kernelArgList : List KernelInterface.KernelArgInstance
  memList : List MemInterface.MemArgInstance
  customize : Customize.State
  mkList : List Makefile.MkArgInstance

def Registry.init : Registry := { kernelArgList := [], memList := [], customize := .init, mkList := [] }

structure ParserItem where
  id : ℕ
  keyword : Str
  func : ArgInstance → Registry → ℤ × Registry

/-! ## The tables -/

def onKernel (f : ArgInstance → List KernelInterface.KernelArgInstance → ℤ × List KernelInterface.KernelArgInstance)
    (item : ArgInstance) (reg : Registry) : ℤ × Registry :=
  let r := f item reg.kernelArgList
  (r.1, { reg with kernelArgList := r.2 })

def onMem (f : ArgInstance → List MemInterface.MemArgInstance → ℤ × List MemInterface.MemArgInstance)
    (item : ArgInstance) (reg : Registry) : ℤ × Registry :=
  let r := f item reg.memList
  (r.1, { reg with memList := r.2 })

def onCustomize (f : ArgInstance → Customize.State → ℤ × Customize.State) (item : ArgInstance) (reg : Registry) :
    ℤ × Registry :=
  let r := f item reg.customize
  (r.1, { reg with customize := r.2 })

def onMakefile (f : ArgInstance → List Makefile.MkArgInstance → ℤ × List Makefile.MkArgInstance)
    (item : ArgInstance) (reg : Registry) : ℤ × Registry :=
  let r := f item reg.mkList
  (r.1, { reg with mkList := r.2 })

def kernelInterfaceParser : List ParserItem :=
  [⟨0, "MULTIPLE_CU_INDEX".toList, onKernel KernelInterface.registerKernelArg⟩]

def memInterfaceParser : List ParserItem :=
  [⟨MemInterface.PRAGMA_ID_MEM_ARG, "MSLR_INTERFACE_ARG".toList, onMem MemInterface.registerMemArg⟩,
    ⟨MemInterface.PRAGMA_ID_MEM_ATTR, "MSLR_INTERFACE_ATTR".toList, onMem MemInterface.registerMemAttr⟩,
    ⟨MemInterface.PRAGMA_ID_MEM_INSTANCE, "MSLR_INTERFACE_INSTANCE".toList, onMem MemInterface.registerMemInstance⟩]

def ARG_ITEM (id : ℕ) (keyword : String) (var : Customize.Mark) : ParserItem :=
  ⟨id, keyword.toList, onCustomize (Customize.MARKER_FUNCTION var)⟩

def customizeInterfaceParser : List ParserItem :=
  [⟨7, "DEF_SCALAR".toList, onCustomize Customize.registerDefScalar⟩,
    ⟨9, "DEF_ARRAY".toList, onCustomize Customize.registerDefDouArray⟩,
    ⟨8, "DEF_INPUT_ONLY_ARRAY".toList, onCustomize Customize.registerDefInputOnlyArray⟩,
    ⟨23, "APPLY_BASE_TYPE".toList, onCustomize Customize.registerBaseType⟩,
    ARG_ITEM 4 "USER_APPLY_ARG" .function,
    ARG_ITEM 5 "USER_APPLY_STREAM_ATTR" .streamAttr,
    ARG_ITEM 6 "USER_APPLY_SCALAR_ATTR" .scalarAttr,
    ARG_ITEM 11 "USER_APPLY_READ_FROM_STREAM" .readFromStream,
    ARG_ITEM 12 "USER_APPLY_COV_FOR_CAL" .cov,
    ARG_ITEM 15 "USER_APPLY_CAL" .cal,
    ARG_ITEM 13 "USER_APPLY_COV_FOR_WRITE" .covWrite,
    ARG_ITEM 14 "USER_APPLY_WRITE_TO_STREAM" .writeToStream,
    ARG_ITEM 10 "USER_APPLY_WRITE" .write,
    ⟨16, "USER_APPLY_CODE_START".toList, onCustomize Customize.registerCodeStart⟩,
    ⟨17, "USER_APPLY_CODE_END".toList, onCustomize Customize.registerCodeEnd⟩,
    ARG_ITEM 19 "MAKEFILE_USER_APPLY" .makefile,
    ARG_ITEM 20 "DUMP_MEM_ATTR" .dump,
    ARG_ITEM 21 "DUMP_MEM_SCALAR" .dumpScalar,
    ARG_ITEM 22 "USER_APPLY_CL_KERNEL" .cl]

def makefileInterfaceParser : List ParserItem :=
  [⟨18, "MAKEFILE_MEM_INSTANCE".toList, onMakefile Makefile.registerMakefileInstance⟩]

def localItem : List ParserItem :=
  kernelInterfaceParser ++ memInterfaceParser ++ customizeInterfaceParser ++ makefileInterfaceParser

/-- Each table has its own part of the registry. -/
theorem func_of_mem_localItem {item : ParserItem} (h : item ∈ localItem) :
    item ∈ kernelInterfaceParser ∨ item ∈ memInterfaceParser ∨ (∃ f, item.func = onCustomize f) ∨
      ∃ f, item.func = onMakefile f := by
  have hcustomize : ∀ i ∈ customizeInterfaceParser, ∃ f, i.func = onCustomize f := by
    simp [customizeInterfaceParser, ARG_ITEM]
  have hmakefile : ∀ i ∈ makefileInterfaceParser, ∃ f, i.func = onMakefile f := by simp [makefileInterfaceParser]
  simp only [localItem, List.mem_append] at h
  rcases h with ((h | h) | h) | h
  · exact .inl h
  · exact .inr (.inl h)
  · exact .inr (.inr (.inl (hcustomize item h)))
  · exact .inr (.inr (.inr (hmakefile item h)))

def ParserItem.pragmaString (item : ParserItem) : Str := PRAGMA_PERFIX ++ [' '] ++ item.keyword

/-- Every pragma has the prefix. -/
theorem find_of_found {item : ParserItem} {str : Str} (h : found (strip item.pragmaString) str) :
    found (strip PRAGMA_PERFIX) str := by
  rw [found_iff] at h ⊢
  rw [ParserItem.pragmaString, strip_append, strip_append, List.append_assoc] at h
  exact (List.prefix_append _ _).isInfix.trans h

/-! ## The inputs -/

def findArg (context : ParserItem) (line : Str) : Str := erase (strip context.pragmaString) line

/-- The first item whose pragma stands in the line, and the argument. -/
def pragmaOf (currentLine : Str) : Option (ParserItem × Str) :=
  let strippedLine := strip currentLine
  (localItem.find? fun item => found (strip item.pragmaString) strippedLine).map fun item =>
    (item, findArg item strippedLine)

def identifyPragmas (fileName currentLine nextLine : Str) (lineNumber : ℕ) (reg : Registry) :
    Except Stop Registry :=
  match pragmaOf currentLine with
  | none => .ok reg
  | some (item, name) =>
    let argIns : ArgInstance :=
      { orginal := currentLine, object := nextLine, name := name, fileName := fileName, ln := lineNumber,
        id := item.id }
    let r := item.func argIns reg
    if r.1 < 0 then .error (.exit EXIT_FAILURE) else .ok r.2

/-- The loop, with `lastLine` read and `lineNumber` lines read so far. -/
def readLines (fileName : Str) : ℕ → Str → List Str → Registry → Except Stop Registry
  | _, _, [], reg => .ok reg
  | lineNumber, lastLine, line :: lines, reg => do
    let reg ← if lineNumber > 0 then identifyPragmas fileName lastLine line lineNumber reg else .ok reg
    readLines fileName (lineNumber + 1) line lines reg

/-- What the program finds outside: the files, and what uninitialised attributes of the memory registry hold. -/
structure Env where
  read : Str → Option Str
  uninitLn : Str → ℕ

def fileInput (env : Env) (input : Str) (reg : Registry) : Except Stop Registry :=
  match env.read input with
  | none => .error (.exit EXIT_FAILURE)
  | some text => readLines input 0 [] (getlines text) reg

/-! ## What the inputs make -/

section
variable {env : Env} {fileName line next input : Str} {n : ℕ} {reg reg' : Registry} {P : Registry → Prop}

/-- A line with no pragma does nothing; a pragma is accepted by its handler. -/
theorem identifyPragmas_ok (h : identifyPragmas fileName line next n reg = .ok reg') :
    pragmaOf line = none ∧ reg' = reg ∨
    ∃ item name arg, pragmaOf line = some (item, name) ∧ item ∈ localItem ∧
      arg = { orginal := line, object := next, name := name, fileName := fileName, ln := n, id := item.id } ∧
      0 ≤ (item.func arg reg).1 ∧ reg' = (item.func arg reg).2 := by
  unfold identifyPragmas at h
  cases hp : pragmaOf line with
  | none =>
    rw [hp] at h
    exact .inl ⟨rfl, (Except.ok.inj h).symm⟩
  | some p =>
    obtain ⟨item, name⟩ := p
    obtain ⟨i, hf, heq⟩ := Option.map_eq_some_iff.1 hp
    obtain ⟨rfl, -⟩ := Prod.mk.inj heq
    rw [hp] at h
    simp only at h
    split at h
    · cases h
    · rename_i hret
      exact .inr ⟨i, name, _, rfl, List.mem_of_find?_eq_some hf, rfl, Int.not_lt.1 hret, (Except.ok.inj h).symm⟩

theorem readLines_cons {lines : List Str} (h : readLines fileName (n + 1) line (next :: lines) reg = .ok reg') :
    ∃ reg₁, identifyPragmas fileName line next (n + 1) reg = .ok reg₁ ∧
      readLines fileName (n + 2) next lines reg₁ = .ok reg' := by
  rw [readLines, if_pos (Nat.succ_pos n)] at h
  exact bind_eq_ok.1 h

/-- Reading a file is the loop over the pairs of its lines. -/
theorem fileInput_cons {text : Str} {lines : List Str} (hread : env.read input = some text)
    (hlines : getlines text = line :: lines) (reg : Registry) :
    fileInput env input reg = readLines input 1 line lines reg := by
  rw [fileInput, hread]
  simp only
  rw [hlines, readLines, if_neg (Nat.lt_irrefl 0)]
  rfl

theorem fileInput_nil {text : Str} (hread : env.read input = some text) (hlines : getlines text = [])
    (reg : Registry) : fileInput env input reg = .ok reg := by
  rw [fileInput, hread]
  simp only
  rw [hlines, readLines]

/-- A file that is accepted can be read. -/
theorem fileInput_ok (h : fileInput env input reg = .ok reg') : ∃ text, env.read input = some text ∧
    (getlines text = [] ∧ reg' = reg ∨
      ∃ line lines, getlines text = line :: lines ∧ readLines input 1 line lines reg = .ok reg') := by
  cases hread : env.read input with
  | none => rw [fileInput, hread] at h; cases h
  | some text =>
    refine ⟨text, rfl, ?_⟩
    cases hlines : getlines text with
    | nil =>
      rw [fileInput_nil hread hlines] at h
      exact .inl ⟨rfl, (Except.ok.inj h).symm⟩
    | cons line lines =>
      rw [fileInput_cons hread hlines] at h
      exact .inr ⟨line, lines, rfl, h⟩

/-- What the handlers keep holds of the registry after any inputs. -/
theorem readLines_induction (hstep : ∀ item ∈ localItem, ∀ arg reg, arg.id = item.id → P reg → P (item.func arg reg).2)
    {lines : List Str} (hreg : P reg) (h : readLines fileName (n + 1) line lines reg = .ok reg') : P reg' := by
  induction lines generalizing line n reg with
  | nil =>
    obtain rfl := Except.ok.inj h
    exact hreg
  | cons next lines ih =>
    obtain ⟨reg₁, hid, hrest⟩ := readLines_cons h
    refine ih ?_ hrest
    rcases identifyPragmas_ok hid with ⟨-, rfl⟩ | ⟨item, name, arg, -, hmem, rfl, -, rfl⟩
    · exact hreg
    · exact hstep item hmem _ reg rfl hreg

theorem inputs_induction (hstep : ∀ item ∈ localItem, ∀ arg reg, arg.id = item.id → P reg → P (item.func arg reg).2)
    {inputs : List Str} (hreg : P reg) (h : inputs.foldlM (fun reg input => fileInput env input reg) reg = .ok reg') :
    P reg' := by
  induction inputs generalizing reg with
  | nil =>
    obtain rfl := Except.ok.inj h
    exact hreg
  | cons input inputs ih =>
    rw [List.foldlM_cons] at h
    obtain ⟨reg₁, hinput, hinputs⟩ := bind_eq_ok.1 h
    refine ih ?_ hinputs
    obtain ⟨text, -, ⟨-, rfl⟩ | ⟨line, lines, -, hlines⟩⟩ := fileInput_ok hinput
    · exact hreg
    · exact readLines_induction (n := 0) hstep hreg hlines

end

/-! ## The outputs -/

/-- `printed` is what a call that does not return has written. Only `customize_output_method` has such calls: the loops
    of the other interfaces end. -/
structure OutputMethod where
  ofNumber : Registry → ℕ
  output : (fuel : ℕ) → Env → Registry → (ln fileid gn : ℕ) → Except Stop (Registry × Str × ℤ)
  printed : (fuel : ℕ) → Registry → (ln : ℕ) → Str := fun _ _ _ => []

def outputMethods : List OutputMethod :=
  [{ ofNumber := fun reg => KernelInterface.getOfNumber reg.kernelArgList
     output := fun fuel _ reg ln fileid _ => do
      let (text, ret) ← KernelInterface.outputToFile fuel ln fileid reg.kernelArgList
      return (reg, text, ret) },
    { ofNumber := fun _ => MemInterface.getOfNumber
      output := fun fuel env reg ln _ gn => do
        let (text, ret) ← MemInterface.outputToFile fuel env.uninitLn ln gn reg.memList
        return (reg, text, ret) },
    { ofNumber := fun _ => Customize.getOfNumber
      output := fun fuel env reg ln _ _ => do
        let (st, text, ret) ← Customize.outputToFile fuel env.read ln reg.customize
        return ({ reg with customize := st }, text, ret)
      printed := fun fuel reg ln => Customize.printed fuel ln reg.customize },
    { ofNumber := fun _ => Makefile.getOfNumber
      output := fun fuel _ reg ln _ gn => do
        let (text, ret) ← Makefile.outputToFile fuel ln gn reg.mkList
        return (reg, text, ret) }]

def ofAttr (reg : Registry) : ℕ :=
  outputMethods.foldl (fun ofAttr method => if method.ofNumber reg > ofAttr then method.ofNumber reg else ofAttr)
    OUTPUT_ATTR_SINGLE

def totalFileNum (SLR_NUM : ℕ) (reg : Registry) : ℕ := if ofAttr reg = OUTPUT_ATTR_SINGLE then 1 else SLR_NUM

def outputFileName (input output : Str) (i : ℕ) : Str :=
  output ++ "_".toList ++ decimal (i + 1) ++
    (if found ".cpp".toList input then ".cpp".toList else []) ++
    (if found ".mk".toList input then ".mk".toList else []) ++
    (if found ".h".toList input then ".h".toList else [])

section
variable (fuel : ℕ) (env : Env) (SLR_NUM : ℕ)

/-- One method on the files `j`, `j + 1`, …: what the files hold then, and the sum of the returned values. -/
def pollFiles (method : OutputMethod) (ln : ℕ) : ℕ → List Str → Registry → Except Stop (Registry × List Str × ℤ)
  | _, [], reg => .ok (reg, [], 0)
  | j, file :: files, reg => do
    let (reg, text, ret) ← method.output fuel env reg ln j SLR_NUM
    let (reg, files, rets) ← pollFiles method ln (j + 1) files reg
    return (reg, (file ++ text) :: files, ret + rets)

def pollMethods (ln : ℕ) : List OutputMethod → List Str → Registry → Except Stop (Registry × List Str × ℤ)
  | [], files, reg => .ok (reg, files, 0)
  | method :: methods, files, reg => do
    let (reg, files, ret) ← pollFiles fuel env SLR_NUM method ln 0 files reg
    let (reg, files, rets) ← pollMethods ln methods files reg
    return (reg, files, ret + rets)

/-- The loop over the lines of the first input, from line `lineNumber` on. -/
def writeLines : ℕ → List Str → List Str → Registry → Except Stop (List Str)
  | _, [], files, _ => .ok files
  | lineNumber, line :: lines, files, reg => do
    let (reg, files, ret) ← pollMethods fuel env SLR_NUM lineNumber outputMethods files reg
    let files := if ret = 0 then files.map (· ++ endl line) else files
    writeLines (lineNumber + 1) lines files reg

/-- The output files, by name, with what they hold. -/
def fileOutput (input output : Str) (reg : Registry) : Except Stop (List (Str × Str)) := do
  let names := (List.range (totalFileNum SLR_NUM reg)).map (outputFileName input output)
  match env.read input with
  | none => .error (.exit EXIT_FAILURE)
  | some text => do
    let files ← writeLines fuel env SLR_NUM 0 (getlines text) (names.map fun _ => []) reg
    return names.zip files

/-- An output file is emptied before the base is read again, so the files read are taken to be others. -/
def main (argv : List Str) : Except Stop (List (Str × Str)) :=
  match argv.head?, argv.getLast? with
  | some input, some output => do
    let reg ← argv.dropLast.foldlM (fun reg input => fileInput env input reg) Registry.init
    fileOutput fuel env SLR_NUM input output reg
  | _, _ => .error .noArgument

/-! ## What is left of a run that stops

Every text ends with `std::endl`, so what has been printed is in the files when the program exits. -/

/-- The files of one method, up to the call that stops. -/
def filesLeft (method : OutputMethod) (ln : ℕ) : ℕ → List Str → Registry → List Str
  | _, [], _ => []
  | j, file :: files, reg =>
    match method.output fuel env reg ln j SLR_NUM with
    | .ok (reg, text, _) => (file ++ text) :: filesLeft method ln (j + 1) files reg
    | .error _ => (file ++ method.printed fuel reg ln) :: files

def methodsLeft (ln : ℕ) : List OutputMethod → List Str → Registry → List Str
  | [], files, _ => files
  | method :: methods, files, reg =>
    match pollFiles fuel env SLR_NUM method ln 0 files reg with
    | .ok (reg, files, _) => methodsLeft ln methods files reg
    | .error _ => filesLeft fuel env SLR_NUM method ln 0 files reg

def linesLeft : ℕ → List Str → List Str → Registry → List Str
  | _, [], files, _ => files
  | lineNumber, line :: lines, files, reg =>
    match pollMethods fuel env SLR_NUM lineNumber outputMethods files reg with
    | .ok (reg, files, ret) =>
      linesLeft (lineNumber + 1) lines (if ret = 0 then files.map (· ++ endl line) else files) reg
    | .error _ => methodsLeft fuel env SLR_NUM lineNumber outputMethods files reg

/-- The output files are opened before the input is. -/
def outputLeft (input output : Str) (reg : Registry) : List (Str × Str) :=
  let names := (List.range (totalFileNum SLR_NUM reg)).map (outputFileName input output)
  match env.read input with
  | none => names.map fun name => (name, [])
  | some text => names.zip (linesLeft fuel env SLR_NUM 0 (getlines text) (names.map fun _ => []) reg)

/-- The output files and what they hold when the program has ended, has exited, or stays in a loop. -/
def mainLeft (argv : List Str) : List (Str × Str) :=
  match argv.head?, argv.getLast? with
  | some input, some output =>
    match argv.dropLast.foldlM (fun reg input => fileInput env input reg) Registry.init with
    | .ok reg => outputLeft fuel env SLR_NUM input output reg
    | .error _ => []
  | _, _ => []

variable {fuel env SLR_NUM}

theorem linesLeft_of_ok {n : ℕ} {lines files out : List Str} {reg : Registry}
    (h : writeLines fuel env SLR_NUM n lines files reg = .ok out) :
    linesLeft fuel env SLR_NUM n lines files reg = out := by
  induction lines generalizing n files reg with
  | nil => exact Except.ok.inj h
  | cons line lines ih =>
    rw [writeLines] at h
    obtain ⟨⟨reg₁, files₁, ret⟩, h₁, h⟩ := bind_eq_ok.1 h
    rw [linesLeft, h₁]
    exact ih h

/-- A program that ends leaves what it has written. -/
theorem mainLeft_of_ok {argv : List Str} {files : List (Str × Str)} (h : main fuel env SLR_NUM argv = .ok files) :
    mainLeft fuel env SLR_NUM argv = files := by
  unfold main at h
  unfold mainLeft
  split at h
  · obtain ⟨reg, hreg, hout⟩ := bind_eq_ok.1 h
    simp only [hreg]
    unfold fileOutput at hout
    unfold outputLeft
    split at hout
    · cases hout
    · obtain ⟨out, hwrite, hfiles⟩ := bind_eq_ok.1 hout
      obtain rfl := Except.ok.inj hfiles
      simp only [linesLeft_of_ok hwrite]
  · cases h

/-- Several files are written iff something has been filed for the kernel interface. -/
theorem totalFileNum_eq (reg : Registry) :
    totalFileNum SLR_NUM reg = if reg.kernelArgList = [] then 1 else SLR_NUM := by
  by_cases hl : reg.kernelArgList = []
  · simp [totalFileNum, ofAttr, outputMethods, hl, KernelInterface.getOfNumber, MemInterface.getOfNumber,
      Customize.getOfNumber, Makefile.getOfNumber, OUTPUT_ATTR_SINGLE]
  · have hpos : 0 < reg.kernelArgList.length := List.length_pos_iff.2 hl
    simp [totalFileNum, ofAttr, outputMethods, hl, hpos, KernelInterface.getOfNumber, MemInterface.getOfNumber,
      Customize.getOfNumber, Makefile.getOfNumber, OUTPUT_ATTR_SINGLE, OUTPUT_ATTR_MULTI]

theorem fileOutput_eq_ok {input output text : Str} {reg : Registry} {files : List (Str × Str)}
    (hread : env.read input = some text) : fileOutput fuel env SLR_NUM input output reg = .ok files ↔ ∃ out,
      writeLines fuel env SLR_NUM 0 (getlines text) ((List.range' 0 (totalFileNum SLR_NUM reg)).map fun _ => []) reg =
        .ok out ∧
      files = ((List.range (totalFileNum SLR_NUM reg)).map (outputFileName input output)).zip out := by
  have hempty : (fun _ => []) ∘ outputFileName input output = fun _ => ([] : Str) := rfl
  simp only [fileOutput, hread, List.map_map, hempty, ← List.range_eq_range', bind_eq_ok]
  refine exists_congr fun out => and_congr_right fun _ => ?_
  exact ⟨fun h => (Except.ok.inj h).symm, fun h => h ▸ rfl⟩

theorem mainLeft_eq (input output : Str) (inputs : List Str) :
    mainLeft fuel env SLR_NUM (input :: inputs ++ [output]) =
      match (input :: inputs).foldlM (fun reg input => fileInput env input reg) Registry.init with
      | .ok reg => outputLeft fuel env SLR_NUM input output reg
      | .error _ => [] := by
  have hhead : (input :: inputs ++ [output]).head? = some input := rfl
  simp only [mainLeft, hhead, List.getLast?_concat, List.dropLast_concat]

/-- The last argument names the output, the first the base. -/
theorem main_eq (input output : Str) (inputs : List Str) : main fuel env SLR_NUM (input :: inputs ++ [output]) =
    (input :: inputs).foldlM (fun reg input => fileInput env input reg) Registry.init >>=
      fileOutput fuel env SLR_NUM input output := by
  have hhead : (input :: inputs ++ [output]).head? = some input := rfl
  simp only [main, hhead, List.getLast?_concat, List.dropLast_concat]

end

end ThundeRiNG.Automation
