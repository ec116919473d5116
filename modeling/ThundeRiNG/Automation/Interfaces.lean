import ThundeRiNG.Lib.Text

/-!
# Registries of the code generator (`automation/parser.h`, `parser_debug.cpp`, `parser/`)

A pragma handler files the pragma with the line after it (`object`). `ln` is the number of that line, counted from
0, so an output method drops line `ln` and prints its own text at line `ln - 1`, where the pragma stands.

| here | there |
| --- | --- |
| `Stop`                          | the `exit` of the program, and a replace loop that is still running |
| `ArgInstance`                   | `arg_instance_t` (`parser.h:48-56`) |
| `replaceFirst`, `replaceAll`    | `parser_debug.cpp:14-20`, `parser.h:89-100` and the loops written out |
| `KernelInterface`               | `parser/kernel_interface.cpp` |
| `MemInterface`                  | `parser/mem_interface.cpp` |
| `Makefile`                      | `parser/makefile.cpp` |

A handler returns its `int` and the new registry, an output method what it wrote and its `int`. `std::string` is a
list of characters, and numbers of lines and files are below `2 ^ 31`.
-/

namespace ThundeRiNG.Automation

open Text

abbrev Str := List Char

inductive Stop where
  | exit (status : ℤ)
  /-- The program goes on after `fuel` searches of one loop. -/
  | running
  /-- `argv[1]` is null. -/
  | noArgument
deriving DecidableEq, Repr

theorem bind_eq_ok {α β : Type} {x : Except Stop α} {f : α → Except Stop β} {b : β} :
    (x >>= f) = .ok b ↔ ∃ a, x = .ok a ∧ f a = .ok b := by
  cases x with
  | error e => exact ⟨(fun h => nomatch h), (fun ⟨_, h, _⟩ => nomatch h)⟩
  | ok a => exact ⟨(fun h => ⟨a, rfl, h⟩), (fun ⟨_, ha, h⟩ => Except.ok.inj ha ▸ h)⟩

def EXIT_FAILURE : ℤ := 1

structure ArgInstance where
  orginal : Str
  object : Str
  name : Str
  fileName : Str
  ln : ℕ
  id : ℕ
deriving DecidableEq, Repr

def OUTPUT_ATTR_SINGLE : ℕ := 1
def OUTPUT_ATTR_MULTI : ℕ := 2

/-! ## Replacing -/

def replaceAll (fuel : ℕ) (object sub target : Str) : Except Stop Str :=
  match rewriteLoop sub target fuel object with
  | some s => .ok s
  | none => .error .running

/-- `(*of) << s << std::endl` -/
def endl (s : Str) : Str := s ++ ['\n']

/-- The copies for `j = 0, …, gn - 1`, one line each. -/
def copies (gn : ℕ) (copy : ℕ → Except Stop Str) : Except Stop Str := do
  let lines ← (List.range gn).mapM copy
  return unlines lines

/-! ## `kernel_interface.cpp` -/

namespace KernelInterface

structure KernelArgInstance where
  name : Str
  kernelArg : ArgInstance
deriving DecidableEq, Repr

def getKernelArg (kernelArgList : List KernelArgInstance) (arg : Str) : Option KernelArgInstance :=
  kernelArgList.find? (arg = ·.name)

def registerKernelArg (item : ArgInstance) (kernelArgList : List KernelArgInstance) : ℤ × List KernelArgInstance :=
  if (getKernelArg kernelArgList item.name).isSome then (-1, kernelArgList)
  else (0, kernelArgList ++ [{ name := item.name, kernelArg := item }])

def getOfNumber (kernelArgList : List KernelArgInstance) : ℕ :=
  if kernelArgList.length > 0 then OUTPUT_ATTR_MULTI else OUTPUT_ATTR_SINGLE

def CU_INDEX : Str := "#%d#".toList

/-- The first entry that has to do with line `ln` decides. -/
def outputToFile (fuel ln fileid : ℕ) : List KernelArgInstance → Except Stop (Str × ℤ)
  | [] => .ok ([], 0)
  | e :: kernelArgList =>
    if e.kernelArg.ln = ln then .ok ([], 1)
    else if e.kernelArg.ln = ln + 1 then do
      let object ← replaceAll fuel e.kernelArg.object CU_INDEX (decimal (fileid + 1))
      return (endl object, 1)
    else outputToFile fuel ln fileid kernelArgList

end KernelInterface

/-! ## `mem_interface.cpp` -/

namespace MemInterface

def PRAGMA_ID_MEM_ARG : ℕ := 1
def PRAGMA_ID_MEM_ATTR : ℕ := 2
def PRAGMA_ID_MEM_INSTANCE : ℕ := 3

/-- `attr` is `none` until an attribute is registered; the source leaves its `ln` uninitialised until then. -/
structure MemArgInstance where
  mask : ℕ
  name : Str
  input : ArgInstance
  attr : Option ArgInstance
  instances : List ArgInstance
deriving DecidableEq, Repr

def dependenceMap : List ℕ := [PRAGMA_ID_MEM_ARG, PRAGMA_ID_MEM_ATTR, PRAGMA_ID_MEM_INSTANCE]

def getMemArg (memList : List MemArgInstance) (arg : Str) : Option MemArgInstance := memList.find? (arg = ·.name)

/-- What is done through the pointer `get_mem_arg` returns. -/
def setMemArg (arg : Str) (f : MemArgInstance → MemArgInstance) : List MemArgInstance → List MemArgInstance
  | [] => []
  | e :: memList => if arg = e.name then f e :: memList else e :: setMemArg arg f memList

def findInDependency (id : ℕ) : Option ℕ := dependenceMap.idxOf? id

def getDependencyMask (id : ℕ) : ℕ :=
  match findInDependency id with
  | some i => (1 <<< i) - 1
  | none => 0

def registerMemArg (item : ArgInstance) (memList : List MemArgInstance) : ℤ × List MemArgInstance :=
  if (getMemArg memList item.name).isSome then (-1, memList)
  else
    match findInDependency item.id with
    | none => (-1, memList)
    | some depBit =>
      (0, memList ++
        [{ mask := 0 ||| (1 <<< depBit), name := item.name, input := item, attr := none, instances := [] }])

def registerMemAttr (item : ArgInstance) (memList : List MemArgInstance) : ℤ × List MemArgInstance :=
  match getMemArg memList item.name with
  | none => (-1, memList)
  | some registered =>
    if registered.mask ≠ getDependencyMask item.id then (-1, memList)
    else
      -- the attribute is stored before the id is looked at
      let memList := setMemArg item.name (fun e => { e with attr := some item }) memList
      match findInDependency item.id with
      | none => (-1, memList)
      | some depBit =>
        (0, setMemArg item.name (fun e => { e with mask := e.mask ||| (1 <<< depBit), attr := some item }) memList)

def registerMemInstance (item : ArgInstance) (memList : List MemArgInstance) : ℤ × List MemArgInstance :=
  match getMemArg memList item.name with
  | none => (-1, memList)
  | some registered =>
    if registered.mask &&& getDependencyMask item.id ≠ getDependencyMask item.id then (-1, memList)
    else
      match findInDependency item.id with
      | none => (-1, memList)
      | some depBit =>
        (0, setMemArg item.name
          (fun e => { e with mask := e.mask ||| (1 <<< depBit), instances := e.instances ++ [item] }) memList)

def getOfNumber : ℕ := OUTPUT_ATTR_SINGLE

def argCopy (fuel : ℕ) (object : Str) (j : ℕ) : Except Stop Str := replaceAll fuel object "#%d#".toList (decimal j)

def instanceCopy (fuel : ℕ) (object : Str) (j : ℕ) : Except Stop Str := do
  let object ← replaceAll fuel object "#%d#".toList (decimal j)
  let object ← replaceAll fuel object "#%d+1#".toList (decimal (j + 1))
  replaceAll fuel object "#%d+2#".toList (decimal (j + 2))

/-- `none`: nothing in the entry has to do with line `ln`. -/
def outputInstances (fuel ln gn : ℕ) : List ArgInstance → Except Stop (Option Str)
  | [] => .ok none
  | k :: instances =>
    if k.ln = ln then .ok (some [])
    else if k.ln = ln + 1 then do
      let text ← copies gn (instanceCopy fuel k.object)
      return some text
    else outputInstances fuel ln gn instances

def outputToFile (fuel : ℕ) (uninitLn : Str → ℕ) (ln gn : ℕ) : List MemArgInstance → Except Stop (Str × ℤ)
  | [] => .ok ([], 0)
  | e :: memList =>
    let attrLn := (e.attr.map ArgInstance.ln).getD (uninitLn e.name)
    if e.input.ln = ln then .ok ([], 1)
    else if e.input.ln = ln + 1 then do
      let text ← copies gn (argCopy fuel e.input.object)
      return (text, 1)
    else if attrLn = ln then .ok ([], 1)
    else if attrLn = ln + 1 then .ok ([], 1)
    else do
      match ← outputInstances fuel ln gn e.instances with
      | some text => return (text, 1)
      | none => outputToFile fuel uninitLn ln gn memList

end MemInterface

/-! ## `makefile.cpp` -/

namespace Makefile

structure MkArgInstance where
  name : Str
  input : ArgInstance
deriving DecidableEq, Repr

/-- The name stays empty. -/
def registerMakefileInstance (item : ArgInstance) (mkList : List MkArgInstance) : ℤ × List MkArgInstance :=
  (0, mkList ++ [{ name := [], input := item }])

def getOfNumber : ℕ := OUTPUT_ATTR_SINGLE

def outputToFile (fuel ln gn : ℕ) : List MkArgInstance → Except Stop (Str × ℤ)
  | [] => .ok ([], 0)
  | e :: mkList =>
    if e.input.ln = ln then .ok ([], 1)
    else if e.input.ln = ln + 1 then do
      let text ← copies gn fun j => replaceAll fuel e.input.object "$(%d)".toList (decimal j)
      return (text, 1)
    else outputToFile fuel ln gn mkList

end Makefile

end ThundeRiNG.Automation
