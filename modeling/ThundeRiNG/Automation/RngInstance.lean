import ThundeRiNG.Automation.Expansion

/-!
# The kernels made of the instance template (`sou/template/template_rng_instance.cpp`)

The template line by line, and what is declared in the `extern "C"` block of each expansion of it: one kernel, with
the number of the file in its name and the four streams of the instance (`generatedKernels_expand`).
-/

namespace ThundeRiNG.Automation

open Text

/-! ## The template -/

/-- `:1-14` -/
def templateHead : List Str :=
  ["#include <ap_axi_sdata.h>".toList,
    "#include <ap_int.h>".toList,
    "#include <hls_stream.h>".toList,
    [],
    [],
    "#include \"rng_type.h\"".toList,
    "#include \"init_state.h\"".toList,
    [],
    "#include \"stream_operation.h\"".toList,
    [],
    "#include \"sou_function.h\"".toList,
    [],
    "#define NRNG (8)".toList,
    []]

def kernelIdPragma : Str := "#pragma THUNDERHLS MULTIPLE_CU_INDEX kernel_id".toList

def kernelIdLine : Str := "#define KERNEL_ID  (#%d# * NRNG  - 1)".toList

/-- `:17-118` -/
def templateBody : List Str :=
  [[],
    "#ifndef KERNEL_ID".toList,
    "#error \"KERNEL_ID not defined\"".toList,
    "#endif".toList,
    [],
    [],
    [],
    [],
    "/*".toList,
    [],
    "void leaf_state_stream( rng_state_stream_t &in,  rng_state_stream_t &out, rng_output_inner_stream_t &inner_out)".toList,
    "\x7b".toList,
    "#pragma HLS interface ap_ctrl_none port=return".toList,
    "    const int id = KERNEL_ID;".toList,
    "    while (1) \x7b".toList,
    "        rng_state_pkt_t s_pkt = in.read();".toList,
    "        out.write(s_pkt);".toList,
    "        rng_state_t update = multi_stream(s_pkt.data,  54u  + id);".toList,
    "        rng32_t leaf_state = output_function(update);".toList,
    "        inner_out.write(leaf_state);".toList,
    "    \x7d".toList,
    "\x7d".toList,
    [],
    "void instance( rng_output_inner_stream_t &s_in, rng_output_stream_t &in,  rng_output_stream_t &out)".toList,
    "\x7b".toList,
    "#pragma HLS interface ap_ctrl_none port=return".toList,
    "    const int id = KERNEL_ID;".toList,
    "    const rng32_t tmp = tmp_xor32_s[id];".toList,
    "    rng32_t sg_state = tmp;".toList,
    "    while (1) \x7b".toList,
    [],
    "        rng32_t sg = xorshiftjump(sg_state);".toList,
    "        sg_state = sg;".toList,
    "        rng32_t rng;".toList,
    "        rng_output_pkt_t o_pkg = in.read();".toList,
    "        rng_output_pkt_t v;".toList,
    "        if (s_in.read_nb(rng))".toList,
    "        \x7b".toList,
    "            rng32_t output = (sg ^ rng);".toList,
    "            v.data = application_function(output, o_pkg.data);".toList,
    "            out.write(v);".toList,
    "        \x7d".toList,
    "        else".toList,
    "        \x7b".toList,
    "            out.write(o_pkg);".toList,
    "        \x7d".toList,
    [],
    [],
    "    \x7d".toList,
    "\x7d".toList,
    [],
    "*/".toList,
    [],
    [],
    "void leaf_state_stream( rng_state_inner_stream_t &in,".toList,
    "                        rng_state_inner_stream_t &out,".toList,
    "                        rng_output_inner_stream_t &inner_out,".toList,
    "                        const int local_id)".toList,
    "\x7b".toList,
    "#pragma HLS interface ap_ctrl_none port=return".toList,
    "#pragma HLS function_instantiate variable=local_id".toList,
    "    const int id = KERNEL_ID + local_id;".toList,
    "    while (1) \x7b".toList,
    "        rng_state_t state = in.read();".toList,
    "        out.write(state);".toList,
    "        rng_state_t update = multi_stream(state,  54u  + id);".toList,
    "        rng32_t leaf_state = output_function(update);".toList,
    "        inner_out.write(leaf_state);".toList,
    "    \x7d".toList,
    "\x7d".toList,
    [],
    "void instance(  rng_output_inner_stream_t &s_in,".toList,
    "                rng_output_inner_stream_t &in,".toList,
    "                rng_output_inner_stream_t &out,".toList,
    "                const int local_id)".toList,
    "\x7b".toList,
    "#pragma HLS interface ap_ctrl_none port=return".toList,
    "#pragma HLS function_instantiate variable=local_id".toList,
    "    const int id = KERNEL_ID + local_id;".toList,
    "    const rng32_t tmp = tmp_xor32_s[id];".toList,
    "    rng32_t sg_state = tmp;".toList,
    "    while (1) \x7b".toList,
    [],
    "        rng32_t sg = xorshiftjump(sg_state);".toList,
    "        sg_state = sg;".toList,
    "        rng32_t rng;".toList,
    "        rng32_t data = in.read();".toList,
    [],
    "        if (s_in.read_nb(rng))".toList,
    "        \x7b".toList,
    "            rng32_t output = (sg ^ rng);".toList,
    "            out.write(application_function(output, data));".toList,
    "        \x7d".toList,
    "        else".toList,
    "        \x7b".toList,
    "            out.write(data);".toList,
    "        \x7d".toList,
    [],
    [],
    "    \x7d".toList,
    "\x7d".toList,
    []]

def cLinkage : Str := "extern \"C\" \x7b".toList

def rngInstancePragma : Str := "#pragma THUNDERHLS MULTIPLE_CU_INDEX rng_instance".toList

def rngInstanceLine : Str := "    void rng_instance_#%d#(  rng_state_stream_t        &s_in,".toList

/-- `:122-156` -/
def templateTail : List Str :=
  ["                             rng_state_stream_t        &s_out,".toList,
    "                             rng_output_stream_t       &o_in,".toList,
    "                             rng_output_stream_t       &o_out)".toList,
    "    \x7b".toList,
    "#pragma HLS interface ap_ctrl_none port=return".toList,
    [],
    [],
    "        static rng_state_inner_stream_t s[NRNG + 1];".toList,
    "#pragma HLS stream variable=s  depth=2".toList,
    [],
    "        static rng_output_inner_stream_t o[NRNG + 1];".toList,
    "#pragma HLS stream variable=o  depth=2".toList,
    [],
    "#pragma HLS dataflow".toList,
    "        axis_to_hls_stream(s_in, s[0]);".toList,
    "        axis_to_hls_stream(o_in, o[0]);".toList,
    [],
    "        static rng_output_inner_stream_t leaf_state[NRNG];".toList,
    "#pragma HLS stream variable=leaf_state  depth=2".toList,
    [],
    "#pragma HLS dataflow".toList,
    [],
    [],
    "        for (int i = 0; i < NRNG; i++)".toList,
    "        \x7b".toList,
    "#pragma HLS unroll".toList,
    "            leaf_state_stream(s[0 + i], s[1 + i], leaf_state[i], i);".toList,
    "            instance(leaf_state[NRNG  - i - 1], o[0 + i], o[1 + i], i);".toList,
    "        \x7d".toList,
    [],
    "        hls_to_axis_stream(s[NRNG], s_out);".toList,
    "        hls_to_axis_stream(o[NRNG], o_out);".toList,
    [],
    "    \x7d".toList,
    "\x7d".toList]

def templateRngInstance : List Str :=
  templateHead ++ kernelIdPragma :: kernelIdLine :: templateBody ++
    cLinkage :: rngInstancePragma :: rngInstanceLine :: templateTail

/-! ## The kernels of a source file -/

/-- The function whose declaration starts in the line. -/
def declName (line : Str) : Option Str :=
  ((line.dropWhile isspace).dropPrefix? "void ".toList).map fun rest => rest.takeWhile (· ≠ '(')

def refParam (line : Str) : Str := (line.dropWhile (· ≠ '&')).tail.takeWhile fun c => c ≠ ',' ∧ c ≠ ')'

/-- The parameters stand on one line each, the last with the closing bracket. -/
def refParams : List Str → List Str
  | [] => []
  | line :: lines => if ')' ∈ line then [refParam line] else refParam line :: refParams lines

structure KernelDecl where
  name : Str
  params : List Str
deriving DecidableEq, Repr

def kernelDecls : List Str → List KernelDecl
  | [] => []
  | line :: lines =>
    match declName line with
    | some name => ⟨name, refParams (line :: lines)⟩ :: kernelDecls lines
    | none => kernelDecls lines

/-- What is declared from the line `extern "C"` on. -/
def generatedKernels (file : List Str) : List KernelDecl := kernelDecls (file.dropWhile (· ≠ cLinkage))

def rngInstanceDecl (j : ℕ) : KernelDecl where
  name := "rng_instance_".toList ++ decimal j
  params := ["s_in".toList, "s_out".toList, "o_in".toList, "o_out".toList]

/-! ## The template is one the generator accepts -/

/-- One line of the file, and no pragma of the generator. -/
def plainLine (line : Str) : Bool := !found (strip PRAGMA_PERFIX) (strip line) && !line.contains '\n'

section
variable {line : Str}

theorem not_isCuPragma_of_plain (h : plainLine line) : ¬ isCuPragma line := by
  simp only [plainLine, Bool.and_eq_true, Bool.not_eq_true'] at h
  exact not_isCuPragma (by simp [h.1])

theorem pragmaOf_of_plain (h : plainLine line) : pragmaOf line = none := by
  simp only [plainLine, Bool.and_eq_true, Bool.not_eq_true'] at h
  exact pragmaOf_eq_none (by simp [h.1])

theorem newline_notMem_of_plain (h : plainLine line) : '\n' ∉ line := by
  simp only [plainLine, Bool.and_eq_true, Bool.not_eq_true'] at h
  simpa using h.2

end

theorem plain_before : ∀ line ∈ templateHead ++ templateBody, plainLine line ∧ line ≠ cLinkage := by
  unfold templateHead templateBody
  repeat' first
    | exact List.forall_mem_nil _
    | refine List.forall_mem_append.2 ⟨?_, ?_⟩
    | refine List.forall_mem_cons.2 ⟨?_, ?_⟩
  -- a literal that is spelled out is evaluated once
  all_goals (try rw [String.toList_ofList])
  all_goals decide

theorem plain_after : ∀ line ∈ templateTail, plainLine line ∧ declName line = none := by
  unfold templateTail
  repeat' first
    | exact List.forall_mem_nil _
    | refine List.forall_mem_cons.2 ⟨?_, ?_⟩
  all_goals (try rw [String.toList_ofList])
  all_goals decide

theorem plain_head (line : Str) (h : line ∈ templateHead) : plainLine line ∧ line ≠ cLinkage :=
  plain_before line (List.mem_append_left _ h)

theorem plain_body (line : Str) (h : line ∈ templateBody) : plainLine line ∧ line ≠ cLinkage :=
  plain_before line (List.mem_append_right _ h)

theorem plain_or_pragma {line : Str} (h : line ∈ templateRngInstance) :
    plainLine line ∨ line = kernelIdPragma ∨ line = rngInstancePragma := by
  simp only [templateRngInstance, List.mem_append, List.mem_cons] at h
  rcases h with (h | rfl | rfl | h) | rfl | rfl | rfl | h
  · exact Or.inl (plain_head line h).1
  · exact Or.inr (Or.inl rfl)
  · exact Or.inl (by decide)
  · exact Or.inl (plain_body line h).1
  · exact Or.inl (by decide)
  · exact Or.inr (Or.inr rfl)
  · exact Or.inl (by decide)
  · exact Or.inl (plain_after line h).1

theorem filter_isCuPragma : templateRngInstance.filter isCuPragma = [kernelIdPragma, rngInstancePragma] := by
  have hhead : templateHead.filter isCuPragma = [] :=
    List.filter_eq_nil_iff.2 fun line h => not_isCuPragma_of_plain (plain_head line h).1
  have hbody : templateBody.filter isCuPragma = [] :=
    List.filter_eq_nil_iff.2 fun line h => not_isCuPragma_of_plain (plain_body line h).1
  have htail : templateTail.filter isCuPragma = [] :=
    List.filter_eq_nil_iff.2 fun line h => not_isCuPragma_of_plain (plain_after line h).1
  have hk : [kernelIdPragma, kernelIdLine].filter isCuPragma = [kernelIdPragma] := by decide
  have hr : [cLinkage, rngInstancePragma, rngInstanceLine].filter isCuPragma = [rngInstancePragma] := by decide
  have hsplit : templateRngInstance = templateHead ++ [kernelIdPragma, kernelIdLine] ++ templateBody ++
      [cLinkage, rngInstancePragma, rngInstanceLine] ++ templateTail := by
    simp [templateRngInstance]
  rw [hsplit]
  simp only [List.filter_append, hhead, hk, hbody, hr, htail, List.nil_append, List.append_nil]
  rfl

theorem eachFollowed_template : EachFollowed templateRngInstance := by
  have htail : EachFollowed templateTail := by
    rw [← List.append_nil templateTail]
    exact .append (fun line h => not_isCuPragma_of_plain (plain_after line h).1) ⟨.nil, by simp⟩
  have hk : ¬ isCuPragma kernelIdLine := by decide
  have hc : ¬ isCuPragma cLinkage := by decide
  have hr : ¬ isCuPragma rngInstanceLine := by decide
  rw [templateRngInstance, List.append_assoc]
  refine .append (fun line h => not_isCuPragma_of_plain (plain_head line h).1) (.pragma hk (.cons hk ?_))
  exact .append (fun line h => not_isCuPragma_of_plain (plain_body line h).1) (.cons hc (.pragma hr (.cons hr htail)))

theorem cuTemplate_rngInstance : CuTemplate templateRngInstance where
  only_cu line h p hp := by
    rcases plain_or_pragma h with h | h
    · rw [pragmaOf_of_plain h] at hp; simp at hp
    · have hcu : isCuPragma line := by rcases h with rfl | rfl <;> decide
      rw [pragmaOf_of_isCuPragma hcu] at hp
      obtain rfl := Option.mem_some_iff.1 hp
      rfl
  distinct := by rw [filter_isCuPragma]; decide
  followed := eachFollowed_template
  some_cu := ⟨kernelIdPragma, by simp [templateRngInstance], by decide⟩

theorem newline_notMem_template {line : Str} (h : line ∈ templateRngInstance) : '\n' ∉ line := by
  rcases plain_or_pragma h with h | rfl | rfl
  · exact newline_notMem_of_plain h
  · decide
  · decide

/-! ## Its expansions -/

theorem subst_kernelIdLine (j : ℕ) : subst "#%d#".toList (decimal j) kernelIdLine =
    "#define KERNEL_ID  (".toList ++ decimal j ++ " * NRNG  - 1)".toList := by
  rw [subst_of_dropInfix (by decide) (show kernelIdLine.dropInfix? "#%d#".toList =
    some ("#define KERNEL_ID  (".toList, " * NRNG  - 1)".toList) by decide),
    subst_eq_self (by decide)]

theorem subst_rngInstanceLine (j : ℕ) : subst "#%d#".toList (decimal j) rngInstanceLine =
    "    void rng_instance_".toList ++ decimal j ++ "(  rng_state_stream_t        &s_in,".toList := by
  rw [subst_of_dropInfix (by decide) (show rngInstanceLine.dropInfix? "#%d#".toList =
    some ("    void rng_instance_".toList, "(  rng_state_stream_t        &s_in,".toList) by decide),
    subst_eq_self (by decide)]

theorem expand_template (j : ℕ) : expand j templateRngInstance =
    templateHead ++ subst "#%d#".toList (decimal j) kernelIdLine :: templateBody ++
      cLinkage :: subst "#%d#".toList (decimal j) rngInstanceLine :: templateTail := by
  have hk : isCuPragma kernelIdPragma := by decide
  have hc : ¬ isCuPragma cLinkage := by decide
  have hr : isCuPragma rngInstancePragma := by decide
  rw [templateRngInstance, List.append_assoc,
    expand_append fun line h => not_isCuPragma_of_plain (plain_head line h).1, List.cons_append, List.cons_append,
    expand_pragma hk,
    expand_append fun line h => not_isCuPragma_of_plain (plain_body line h).1, expand_cons_of_not hc, expand_pragma hr,
    expand_of_not fun line h => not_isCuPragma_of_plain (plain_after line h).1]
  simp

theorem kernelDecls_cons_none {line : Str} {lines : List Str} (h : declName line = none) :
    kernelDecls (line :: lines) = kernelDecls lines := by rw [kernelDecls, h]

theorem kernelDecls_cons_some {line name : Str} {lines : List Str} (h : declName line = some name) :
    kernelDecls (line :: lines) = ⟨name, refParams (line :: lines)⟩ :: kernelDecls lines := by rw [kernelDecls, h]

theorem kernelDecls_of_none {lines : List Str} (h : ∀ line ∈ lines, declName line = none) : kernelDecls lines = [] := by
  induction lines with
  | nil => rfl
  | cons line lines ih =>
    rw [kernelDecls_cons_none (h line List.mem_cons_self)]
    exact ih fun l hl => h l (List.mem_cons_of_mem _ hl)

theorem dropWhile_template (j : ℕ) : (expand j templateRngInstance).dropWhile (· ≠ cLinkage) =
    cLinkage :: subst "#%d#".toList (decimal j) rngInstanceLine :: templateTail := by
  have hhead : ∀ line ∈ templateHead, decide (line ≠ cLinkage) = true :=
    fun line h => decide_eq_true (plain_head line h).2
  have hbody : ∀ line ∈ templateBody, decide (line ≠ cLinkage) = true :=
    fun line h => decide_eq_true (plain_body line h).2
  have hk : subst "#%d#".toList (decimal j) kernelIdLine ≠ cLinkage := fun h => by
    have hfst := congrArg List.head? h
    rw [subst_kernelIdLine, List.append_assoc, List.head?_append_of_ne_nil _ (by decide)] at hfst
    exact absurd hfst (by decide)
  rw [expand_template, List.append_assoc, List.dropWhile_append_of_pos hhead, List.cons_append,
    List.dropWhile_cons_of_pos (by simpa using hk), List.dropWhile_append_of_pos hbody,
    List.dropWhile_cons_of_neg (by simp)]

theorem declName_rngInstanceLine (j : ℕ) : declName (subst "#%d#".toList (decimal j) rngInstanceLine) =
    some ("rng_instance_".toList ++ decimal j) := by
  have hsplit : "    void rng_instance_".toList = "    ".toList ++ ("void ".toList ++ "rng_instance_".toList) := by
    decide
  have hspace : "    ".toList.all isspace := by decide
  have hparen : "(  rng_state_stream_t        &s_in,".toList =
      '(' :: "  rng_state_stream_t        &s_in,".toList := by decide
  have hname : '(' ∉ "rng_instance_".toList ++ decimal j := notMem_append_decimal (by decide) (by decide) j
  have hvoid (s : Str) : ("void ".toList ++ s).dropWhile isspace = "void ".toList ++ s := by
    change (('v' :: "oid ".toList) ++ s).dropWhile isspace = _
    rw [List.cons_append, List.dropWhile_cons_of_neg (by decide)]; rfl
  rw [subst_rngInstanceLine, hsplit, declName, List.append_assoc, List.append_assoc, List.append_assoc,
    List.dropWhile_append_of_pos (List.all_eq_true.1 hspace), hvoid,
    List.dropPrefix?_append_of_beq _ (beq_self_eq_true _), Option.map_some, ← List.append_assoc, hparen,
    takeWhile_ne hname]

theorem refParams_rngInstanceLine (j : ℕ) :
    refParams (subst "#%d#".toList (decimal j) rngInstanceLine :: templateTail) =
      ["s_in".toList, "s_out".toList, "o_in".toList, "o_out".toList] := by
  have hopen : ')' ∉ subst "#%d#".toList (decimal j) rngInstanceLine := by
    rw [subst_rngInstanceLine, List.mem_append, List.mem_append, not_or, not_or]
    exact ⟨⟨by decide, notMem_decimal (by decide)⟩, by decide⟩
  have hbefore : '&' ∉ "    void rng_instance_".toList ++ decimal j := notMem_append_decimal (by decide) (by decide) j
  have hparam : refParam (subst "#%d#".toList (decimal j) rngInstanceLine) = "s_in".toList := by
    rw [refParam, subst_rngInstanceLine, dropWhile_ne hbefore]
    decide
  have htail : refParams templateTail = ["s_out".toList, "o_in".toList, "o_out".toList] := by decide
  rw [refParams, if_neg hopen, hparam, htail]

/-- File `j` is one kernel, `rng_instance_j`. -/
theorem generatedKernels_expand (j : ℕ) : generatedKernels (expand j templateRngInstance) = [rngInstanceDecl j] := by
  have hc : declName cLinkage = none := by decide
  calc generatedKernels (expand j templateRngInstance)
      = kernelDecls (cLinkage :: subst "#%d#".toList (decimal j) rngInstanceLine :: templateTail) :=
        congrArg kernelDecls (dropWhile_template j)
    _ = kernelDecls (subst "#%d#".toList (decimal j) rngInstanceLine :: templateTail) := kernelDecls_cons_none hc
    _ = [rngInstanceDecl j] := by
        rw [kernelDecls_cons_some (declName_rngInstanceLine j), refParams_rngInstanceLine,
          kernelDecls_of_none fun line h => (plain_after line h).2]
        rfl

end ThundeRiNG.Automation
