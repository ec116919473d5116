import Mathlib.Logic.Function.Basic
import ThundeRiNG.Automation.Interfaces

/-!
# The user's apply code (`automation/parser/customize.cpp`, `customize_str.h`)

The user file declares arguments (`defArgList`) and a region of code; the base file marks the places where text made
from them goes (`marker`, one line for each kind).

| here | there |
| --- | --- |
| `Mark`, `MARKER_FUNCTION`        | the fields of `arg_mark_t`, and `customize.cpp:26-38` |
| `Region`                         | `code_region_t`; a flag and its item are one option |
| `calRegion`                      | the branch for `marker.cal` (`:119-159`) |
| `markerOutput`                   | the body of each `MARKER_OUTPUT` (`:161-389`) |
| `outputToFile`                   | `output_to_file` (`:117-391`) |
| `COV_STR`, `READ_STR`, …         | `customize_str.h` |

`gmemCounter` and `memIdOffset` run on from one output file to the next.
-/

namespace ThundeRiNG.Automation.Customize

open Text

def STREAM_ATTR_STR : Str :=
  ("\n#pragma HLS INTERFACE m_axi port=%s offset=slave bundle=gmem%d \n" ++
  "#pragma HLS INTERFACE s_axilite port=%s bundle=control\n" ++
  "        hls::stream<burst_raw>      %sStream;\n" ++
  "#pragma HLS stream variable=%sStream depth=16\n" ++
  "        burstReadLite(addrOffset, vertexNum, %s, %sStream);\n" ++
  "        ").toList

def STREAM_DUPLEX_OUTPUT_ATTR_STR : Str :=
  ("\n#pragma HLS INTERFACE m_axi port=%s offset=slave bundle=gmem%d \n" ++
  "#pragma HLS INTERFACE s_axilite port=%s bundle=control \n" ++
  "        hls::stream<burst_raw>      %sStream;\n" ++
  "#pragma HLS stream variable=%sStream depth=16\n").toList

def SCALAR_ATTR_STR : Str := "\n#pragma HLS INTERFACE s_axilite port=%s      bundle=control \n".toList

def WRITE_STR : Str := "\n        writeBackLite(vertexNum, %s + (addrOffset >> 4), %sStream);\n".toList

def READ_STR : Str := "\nburst_raw %s_u512;\nread_from_stream(%sStream, %s_u512);\n".toList

def COV_STR : Str :=
  ("type_cov %s_tmp; \n" ++
  "%s_tmp.ui=%s_u512.range((i + 1) * INT_WIDTH - 1, i * INT_WIDTH );\n" ++
  "float %s=%s_tmp.f;").toList

def COV_STR_WRITE : Str :=
  ("type_cov new%s_tmp;\n" ++
  "new%s_tmp.f =new%s;\n" ++
  "new%s_u512.range((i + 1) * INT_WIDTH - 1, i * INT_WIDTH ) = new%s_tmp.ui;").toList

def MAKFILE_STR : Str := "\nBINARY_LINK_OBJS    += --sp  vertexApply_1.%s:DDR[%d]".toList

inductive Var where
  | scalar
  | inputArray
  | duplexArray
deriving DecidableEq, Repr

/-- `memChn` of a scalar is never read. -/
structure DefArgInstance where
  name : Str
  input : ArgInstance
  varType : Var
  memChn : ℕ
deriving DecidableEq, Repr

inductive Mark where
  | function | streamAttr | scalarAttr | write | readFromStream | cov | covWrite | writeToStream | cal | makefile
  | dump | dumpScalar | cl
deriving DecidableEq, Repr

structure Region where
  type : Str
  start : Option ArgInstance
  stop : Option ArgInstance

structure State where
  defArgList : List DefArgInstance
  marker : Mark → Option ArgInstance
  region : Region
  memoryChn : ℕ
  gmemCounter : ℕ
  memIdOffset : ℕ

def State.init : State where
  defArgList := []
  marker := fun _ => none
  region := { type := [], start := none, stop := none }
  memoryChn := 0
  gmemCounter := 6
  memIdOffset := 0

/-! ## The handlers -/

def MARKER_FUNCTION (var : Mark) (item : ArgInstance) (st : State) : ℤ × State :=
  match st.marker var with
  | none => (0, { st with marker := Function.update st.marker var (some item) })
  | some _ => (-1, st)

def registerBaseType (item : ArgInstance) (st : State) : ℤ × State :=
  (0, { st with region := { st.region with type := item.name } })

def registerCodeStart (item : ArgInstance) (st : State) : ℤ × State :=
  match st.region.start with
  | none => (0, { st with region := { st.region with start := some item } })
  | some _ => (-1, st)

def registerCodeEnd (item : ArgInstance) (st : State) : ℤ × State :=
  match st.region.stop with
  | none => (0, { st with region := { st.region with stop := some item } })
  | some _ => (-1, st)

def getDefArg (defArgList : List DefArgInstance) (arg : Str) : Option DefArgInstance :=
  defArgList.find? (arg = ·.name)

def registerDefScalar (item : ArgInstance) (st : State) : ℤ × State :=
  if (getDefArg st.defArgList item.name).isSome then (-1, st)
  else
    (0, { st with
      defArgList := st.defArgList ++ [{ name := item.name, input := item, varType := .scalar, memChn := 0 }] })

/-- The two array handlers differ in the kind. -/
def registerArray (varType : Var) (item : ArgInstance) (st : State) : ℤ × State :=
  if (getDefArg st.defArgList item.name).isSome then (-1, st)
  else
    (0, { st with
      defArgList := st.defArgList ++
        [{ name := item.name, input := item, varType := varType, memChn := st.memoryChn % 4 }]
      memoryChn := st.memoryChn + 1 })

def registerDefInputOnlyArray : ArgInstance → State → ℤ × State := registerArray .inputArray

def registerDefDouArray : ArgInstance → State → ℤ × State := registerArray .duplexArray

def getOfNumber : ℕ := OUTPUT_ATTR_SINGLE

/-! ## What a marker prints for one argument -/

def DefArgInstance.isArray (args : DefArgInstance) : Bool := args.varType = .duplexArray || args.varType = .inputArray

def NEW : Str := "new".toList

/-- The two `#define`s of one memory (`:300-331`, `:334-363`); both end with a line of their own. -/
def dumpDefines (memIdOffset : ℕ) (name : Str) (memChn : ℕ) : Str :=
  let defMemId := endl (" MEM_ID_".toList ++ name ++ " ".toList ++ "(MEM_ID_CUSTOM_BASE +".toList ++
    decimal memIdOffset ++ ")".toList)
  let defMemAttr := endl (" MEM_ATTR_".toList ++ name ++ " ".toList ++ "(".toList ++ "ATTR_PL_DDR".toList ++
    decimal memChn ++ ")".toList)
  endl ("#define ".toList ++ defMemId.map Char.toUpper) ++ endl ("#define ".toList ++ defMemAttr.map Char.toUpper)

def clSetKernelArg (memIdMacro : Str) : Str :=
  endl ("clSetKernelArg(applyHandler->kernel, argvi++, sizeof(cl_mem), get_cl_mem_pointer(".toList ++ memIdMacro ++
    "));".toList)

def makefileObject (fuel : ℕ) (name : Str) (memChn : ℕ) : Except Stop Str := do
  let object ← replaceAll fuel MAKFILE_STR "%s".toList name
  let object ← replaceAll fuel object "%d".toList (decimal memChn)
  return endl object

def streamAttrObject (fuel : ℕ) (object name : Str) (gmemCounter : ℕ) : Except Stop Str := do
  let object ← replaceAll fuel object "%s".toList name
  let object ← replaceAll fuel object "%d".toList (decimal gmemCounter)
  return endl object

def nameObject (fuel : ℕ) (object name : Str) : Except Stop Str := do
  let object ← replaceAll fuel object "%s".toList name
  return endl object

def markerOutput (fuel : ℕ) (var : Mark) (st : State) (args : DefArgInstance) : Except Stop (State × Str) :=
  let name := args.input.name
  match var with
  | .writeToStream =>
    if args.varType = .duplexArray then do
      return (st, ← nameObject fuel "write_to_stream(new%sStream, new%s_u512);".toList name)
    else .ok (st, [])
  | .covWrite =>
    if args.varType = .duplexArray then do
      return (st, ← nameObject fuel COV_STR_WRITE name)
    else .ok (st, [])
  | .cov =>
    if args.isArray then do
      return (st, ← nameObject fuel COV_STR name)
    else .ok (st, [])
  | .readFromStream => do
    let read ← if args.isArray then nameObject fuel READ_STR name else .ok []
    let burst :=
      if args.varType = .duplexArray then endl ("burst_raw ".toList ++ NEW ++ name ++ "_u512;".toList) else []
    return (st, read ++ burst)
  | .function =>
    match args.varType with
    | .duplexArray => .ok (st, endl ("uint16    *".toList ++ name ++ ",".toList) ++
        endl ("uint16    *".toList ++ NEW ++ name ++ ",".toList))
    | .inputArray => .ok (st, endl ("uint16    *".toList ++ name ++ ",".toList))
    | .scalar => .ok (st, endl (st.region.type ++ "     ".toList ++ name ++ ",".toList))
  | .streamAttr =>
    if args.isArray then do
      let input ← streamAttrObject fuel STREAM_ATTR_STR name st.gmemCounter
      let output ← if args.varType = .duplexArray then
        streamAttrObject fuel STREAM_DUPLEX_OUTPUT_ATTR_STR (NEW ++ name) st.gmemCounter else .ok []
      return ({ st with gmemCounter := st.gmemCounter + 1 }, input ++ output)
    else .ok (st, [])
  | .scalarAttr =>
    if args.varType = .scalar then do
      return (st, ← nameObject fuel SCALAR_ATTR_STR name)
    else .ok (st, [])
  | .write =>
    if args.varType = .duplexArray then do
      return (st, ← nameObject fuel WRITE_STR (NEW ++ name))
    else .ok (st, [])
  | .dumpScalar =>
    if args.varType = .scalar then .ok (st, endl (st.region.type ++ " ".toList ++ name ++ ";".toList))
    else .ok (st, [])
  | .dump =>
    match args.varType with
    | .duplexArray => .ok ({ st with memIdOffset := st.memIdOffset + 2 },
        dumpDefines (st.memIdOffset + 1) name args.memChn ++
        dumpDefines (st.memIdOffset + 2) (NEW ++ name) args.memChn)
    | .inputArray => .ok ({ st with memIdOffset := st.memIdOffset + 1 },
        dumpDefines (st.memIdOffset + 1) name args.memChn)
    | .scalar => .ok (st, [])
  | .cl =>
    let memIdMacro (name : Str) := (" MEM_ID_".toList ++ name).map Char.toUpper
    match args.varType with
    | .duplexArray => .ok (st, clSetKernelArg (memIdMacro name) ++ clSetKernelArg (memIdMacro (NEW ++ name)) ++
        endl ("he_set_dirty(".toList ++ memIdMacro (NEW ++ name) ++ ");".toList))
    | .inputArray => .ok (st, clSetKernelArg (memIdMacro name))
    | .scalar => .ok (st,
        endl ("clSetKernelArg(applyHandler->kernel, argvi++, 4,    &(global.".toList ++ name ++ "));".toList))
  | .makefile =>
    match args.varType with
    | .duplexArray => do
      let input ← makefileObject fuel name args.memChn
      let output ← makefileObject fuel (NEW ++ name) args.memChn
      return (st, input ++ output)
    | .inputArray => do return (st, ← makefileObject fuel name args.memChn)
    | .scalar => .ok (st, [])
  | .cal => .ok (st, [])

def markerOutputs (fuel : ℕ) (var : Mark) : State → List DefArgInstance → Except Stop (State × Str)
  | st, [] => .ok (st, [])
  | st, args :: defArgList => do
    let (st, text) ← markerOutput fuel var st args
    let (st, rest) ← markerOutputs fuel var st defArgList
    return (st, text ++ rest)

/-! ## The output method -/

def MARKER_OUTPUT : List Mark :=
  [.writeToStream, .covWrite, .cov, .readFromStream, .function, .streamAttr, .scalarAttr, .write, .dumpScalar, .dump,
    .cl, .makefile]

def atMarker (st : State) (ln : ℕ) (var : Mark) : Bool :=
  match st.marker var with
  | some item => ln + 1 = item.ln
  | none => false

/-- The lines of the user file strictly between `start.ln` and `end.ln - 1`. -/
def calRegion (read : Str → Option Str) (region : Region) : Except Stop Str :=
  match region.start, region.stop with
  | some start, some stop =>
    if start.fileName ≠ stop.fileName then .error (.exit (-1))
    else if start.ln > stop.ln then .error (.exit (-1))
    else
      match read start.fileName with
      | none => .error (.exit EXIT_FAILURE)
      | some text =>
        .ok (unlines ((getlines text).zipIdx.filterMap fun (line, lineNumber) =>
          if lineNumber > start.ln ∧ (lineNumber : ℤ) < stop.ln - 1 then some line else none))
  | _, _ => .error (.exit (-1))

def outputToFile (fuel : ℕ) (read : Str → Option Str) (ln : ℕ) (st : State) : Except Stop (State × Str × ℤ) :=
  if atMarker st ln .cal then do
    let text ← calRegion read st.region
    return (st, text, 1)
  else
    match MARKER_OUTPUT.find? (atMarker st ln) with
    | some var => do
      let (st, text) ← markerOutputs fuel var st st.defArgList
      return (st, text, 1)
    | none => .ok (st, [], 0)

/-- What has been printed when the loop over an argument's name goes on for ever: the first loop for an argument runs
    before anything is printed for it. -/
def markerPrinted (fuel : ℕ) (var : Mark) : State → List DefArgInstance → Str
  | _, [] => []
  | st, args :: defArgList =>
    match markerOutput fuel var st args with
    | .ok (st, text) => text ++ markerPrinted fuel var st defArgList
    | .error _ => []

/-- What a call that stops has printed; the `exit`s come before the first line of the region. -/
def printed (fuel ln : ℕ) (st : State) : Str :=
  if atMarker st ln .cal then []
  else
    match MARKER_OUTPUT.find? (atMarker st ln) with
    | some var => markerPrinted fuel var st st.defArgList
    | none => []

end ThundeRiNG.Automation.Customize
