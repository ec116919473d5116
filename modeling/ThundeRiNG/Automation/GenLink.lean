import Mathlib.Data.List.Perm.Basic
import ThundeRiNG.Automation.RngInstance
import ThundeRiNG.Rng.Link

/-!
# The link configuration (`automation/template/gen_link.c`)

`genLink CUs` is what the program prints. Read back line by line (`options`), its `stream_connect` lines are those of
`STR` and, as text, the links of `streamConnect CUs` (`connections_eq`); its `slr` lines place each kernel once.

| here | there |
| --- | --- |
| `STR`, `SLR_STR`, `END_STR`   | `gen_link.c:3-42` |
| `genLink`                     | the `main` that is compiled (`:69-97`) |
| `kernels`                     | the streams of the declarations in `rsgu/`, `sou/`, `rng/`, `top/`, by direction |

A kernel `k` has the one compute unit `k_1`, and `%d` prints `decimal`.
-/

namespace ThundeRiNG.Automation

open Text

/-! ## What is printed -/

def STR : Str :=
  "stream_connect=ssrng_state_update_0_1.output:ssrng_state_merge_1.in0 \n".toList ++
  "stream_connect=ssrng_state_update_1_1.output:ssrng_state_merge_1.in1 \n".toList ++
  "stream_connect=ssrng_state_update_2_1.output:ssrng_state_merge_1.in2 \n".toList ++
  "stream_connect=ssrng_state_update_3_1.output:ssrng_state_merge_1.in3 \n".toList ++
  "stream_connect=ssrng_state_update_4_1.output:ssrng_state_merge_1.in4 \n".toList ++
  "stream_connect=ssrng_state_update_5_1.output:ssrng_state_merge_1.in5 \n".toList ++
  "stream_connect=ssrng_state_update_6_1.output:ssrng_state_merge_1.in6 \n".toList ++
  "stream_connect=ssrng_state_update_7_1.output:ssrng_state_merge_1.in7 \n".toList ++
  "stream_connect=ssrng_state_update_8_1.output:ssrng_state_merge_1.in8 \n".toList ++
  "stream_connect=mem_read_1.stream:rng_main_1.input \n".toList ++
  "stream_connect=rng_main_1.output:mem_write_1.stream  \n".toList

def SLR_STR : Str :=
  "slr=ssrng_state_update_0_1:SLR0 \n".toList ++
  "slr=ssrng_state_update_1_1:SLR0 \n".toList ++
  "slr=ssrng_state_update_2_1:SLR0 \n".toList ++
  "slr=ssrng_state_update_3_1:SLR0 \n".toList ++
  "slr=ssrng_state_update_4_1:SLR0 \n".toList ++
  "slr=ssrng_state_update_5_1:SLR0 \n".toList ++
  "slr=ssrng_state_update_6_1:SLR0 \n".toList ++
  "slr=ssrng_state_update_7_1:SLR0 \n".toList ++
  "slr=ssrng_state_update_8_1:SLR0 \n".toList ++
  "slr=ssrng_state_merge_1:SLR0 \n".toList ++
  "slr=mem_read_1:SLR0 \n".toList ++
  "slr=rng_main_1:SLR0 \n".toList ++
  "slr=mem_write_1:SLR0 \n".toList ++
  "slr=rng_start_1:SLR0 \n".toList ++
  "slr=rng_end_1:SLR0 \n".toList

def END_STR : Str :=
  "[vivado] \n".toList ++
  "prop=run.impl_1.STEPS.OPT_DESIGN.ARGS.DIRECTIVE=Explore \n".toList ++
  "prop=run.impl_1.STEPS.PLACE_DESIGN.ARGS.DIRECTIVE=Explore \n".toList ++
  "prop=run.impl_1.STEPS.PHYS_OPT_DESIGN.IS_ENABLED=true \n".toList ++
  "prop=run.impl_1.STEPS.PHYS_OPT_DESIGN.ARGS.DIRECTIVE=Explore \n".toList ++
  "prop=run.impl_1.STEPS.ROUTE_DESIGN.ARGS.DIRECTIVE=Explore \n".toList

/-- The body of the first loop (`:79-80`). -/
def linkPair (i : ℕ) : Str :=
  "stream_connect=rng_instance_".toList ++ decimal (i + 1) ++ "_1.s_out:rng_instance_".toList ++ decimal (i + 2) ++
    "_1.s_in\n".toList ++
  "stream_connect=rng_instance_".toList ++ decimal (i + 2) ++ "_1.o_out:rng_instance_".toList ++ decimal (i + 1) ++
    "_1.o_in\n".toList

/-- `:90`, `:92` -/
def slrLine (k : ℕ) : Str := "slr=rng_instance_".toList ++ decimal k ++ "_1:SLR0 \n".toList

def genLink (CUs : ℕ) : Str :=
  "[connectivity]\n".toList ++
  STR ++
  "\n".toList ++
  "stream_connect=ssrng_state_merge_1.out:rng_instance_1_1.s_in \n".toList ++
  (List.range (CUs - 1)).flatMap linkPair ++
  "\n".toList ++
  ("stream_connect=rng_start_1.output:rng_instance_".toList ++ decimal CUs ++ "_1.o_in \n".toList) ++
  ("stream_connect=rng_instance_".toList ++ decimal CUs ++ "_1.s_out:rng_end_1.input\n".toList) ++
  "stream_connect=rng_instance_1_1.o_out:rng_main_1.rng\n".toList ++
  SLR_STR ++
  (List.range (CUs - 1)).flatMap (fun i => slrLine (i + 1)) ++
  slrLine CUs ++
  END_STR

/-! ## The lines `key=left:right` of a configuration -/

def optionOf (key line : Str) : Option (Str × Str) :=
  (line.dropPrefix? key).map fun rest =>
    let rest := strip rest
    (rest.takeWhile (· ≠ ':'), (rest.dropWhile (· ≠ ':')).tail)

def options (key text : Str) : List (Str × Str) := (getlines text).filterMap (optionOf key)

def connections (CUs : ℕ) : List (Str × Str) := options "stream_connect=".toList (genLink CUs)

def slrs (CUs : ℕ) : List (Str × Str) := options "slr=".toList (genLink CUs)

/-! ## The kernels and their streams -/

structure Kernel where
  name : Str
  inputs : List Str
  outputs : List Str
deriving DecidableEq, Repr

/-- All but the instances (`rsgu/`, `top/`, `rng/`). -/
def fixedKernels : List Kernel :=
  [⟨"ssrng_state_update_0".toList, [], ["output".toList]⟩,
    ⟨"ssrng_state_update_1".toList, [], ["output".toList]⟩,
    ⟨"ssrng_state_update_2".toList, [], ["output".toList]⟩,
    ⟨"ssrng_state_update_3".toList, [], ["output".toList]⟩,
    ⟨"ssrng_state_update_4".toList, [], ["output".toList]⟩,
    ⟨"ssrng_state_update_5".toList, [], ["output".toList]⟩,
    ⟨"ssrng_state_update_6".toList, [], ["output".toList]⟩,
    ⟨"ssrng_state_update_7".toList, [], ["output".toList]⟩,
    ⟨"ssrng_state_update_8".toList, [], ["output".toList]⟩,
    ⟨"ssrng_state_merge".toList, ["in0".toList, "in1".toList, "in2".toList, "in3".toList, "in4".toList, "in5".toList,
      "in6".toList, "in7".toList, "in8".toList], ["out".toList]⟩,
    ⟨"mem_read".toList, [], ["stream".toList]⟩,
    ⟨"rng_main".toList, ["rng".toList, "input".toList], ["output".toList]⟩,
    ⟨"mem_write".toList, ["stream".toList], []⟩,
    ⟨"rng_start".toList, [], ["output".toList]⟩,
    ⟨"rng_end".toList, ["input".toList], []⟩]

def rngInstance (k : ℕ) : Kernel where
  name := "rng_instance_".toList ++ decimal k
  inputs := ["s_in".toList, "o_in".toList]
  outputs := ["s_out".toList, "o_out".toList]

def kernels (CUs : ℕ) : List Kernel := fixedKernels ++ (List.range' 1 CUs).map rngInstance

def Kernel.unit (k : Kernel) : Str := k.name ++ "_1".toList

def Kernel.port (k : Kernel) (stream : Str) : Str := k.unit ++ ".".toList ++ stream

def inputPorts (CUs : ℕ) : List Str := (kernels CUs).flatMap fun k => k.inputs.map k.port

def outputPorts (CUs : ℕ) : List Str := (kernels CUs).flatMap fun k => k.outputs.map k.port

/-- A port of `streamConnect`, as the configuration names it. -/
def portText : Port → Str
  | .ssrngStateMergeOut => "ssrng_state_merge_1.out".toList
  | .rngStartOutput => "rng_start_1.output".toList
  | .rngEndInput => "rng_end_1.input".toList
  | .rngMainRng => "rng_main_1.rng".toList
  | .sIn k => "rng_instance_".toList ++ decimal k ++ "_1.s_in".toList
  | .sOut k => "rng_instance_".toList ++ decimal k ++ "_1.s_out".toList
  | .oIn k => "rng_instance_".toList ++ decimal k ++ "_1.o_in".toList
  | .oOut k => "rng_instance_".toList ++ decimal k ++ "_1.o_out".toList

/-! ## Reading the text back -/

section
variable {key x y a b w l : Str}

theorem options_append (h : EndsLine x) : options key (x ++ y) = options key x ++ options key y := by
  rw [options, getlines_append h, List.filterMap_append]; rfl

theorem options_flatMap {ι : Type*} {f : ι → Str} (h : ∀ i, EndsLine (f i)) (is : List ι) :
    options key (is.flatMap f) = is.flatMap fun i => options key (f i) := by
  induction is with
  | nil => rfl
  | cons i is ih => rw [List.flatMap_cons, options_append (h i), ih, List.flatMap_cons]

theorem options_flatten {ps : List Str} (h : ∀ p ∈ ps, EndsLine p) :
    options key ps.flatten = ps.flatMap (options key) := by
  induction ps with
  | nil => rfl
  | cons p ps ih =>
    rw [List.flatten_cons, options_append (h p List.mem_cons_self), ih fun q hq => h q (List.mem_cons_of_mem _ hq),
      List.flatMap_cons]

theorem options_line (h : '\n' ∉ l) : options key (l ++ ['\n']) = (optionOf key l).toList := by
  rw [options, getlines_append_newline h]
  cases hl : optionOf key l <;> simp [hl, getlines]

/-- A line that starts otherwise has another key. -/
theorem options_other {n : ℕ} (h : '\n' ∉ l) (hn : n ≤ key.length) (hl : l.take n ≠ key.take n) :
    options key (l ++ ['\n']) = [] := by
  have hnone : l.dropPrefix? key = none := by
    cases hd : l.dropPrefix? key with
    | none => rfl
    | some s =>
      obtain ⟨p, rfl, hp⟩ := List.dropPrefix?_eq_some_iff.1 hd
      obtain rfl := eq_of_beq hp
      exact absurd (List.take_append_of_le_length hn) hl
  rw [options_line h, optionOf, hnone]; rfl

/-- What a name in the configuration is made of. -/
def IsName (s : Str) : Prop := ∀ c ∈ s, isspace c = false ∧ c ≠ ':'

instance (s : Str) : Decidable (IsName s) := List.decidableBAll (fun c => isspace c = false ∧ c ≠ ':') s

theorem IsName.append (ha : IsName a) (hb : IsName b) : IsName (a ++ b) := List.forall_mem_append.2 ⟨ha, hb⟩

theorem isName_decimal (n : ℕ) : IsName (decimal n) := by
  intro c hc
  have hd := isDigit_of_mem_decimal hc
  refine ⟨?_, fun h => ?_⟩
  · rw [isspace]
    simp only [Bool.or_eq_false_iff, decide_eq_false_iff_not]
    refine ⟨⟨⟨⟨⟨?_, ?_⟩, ?_⟩, ?_⟩, ?_⟩, ?_⟩ <;> (rintro rfl; exact absurd hd (by decide))
  · subst h; exact absurd hd (by decide)

theorem IsName.strip_eq (h : IsName a) : strip a = a := List.filter_eq_self.2 fun c hc => by simp [(h c hc).1]

theorem IsName.newline_notMem (h : IsName a) : '\n' ∉ a := fun hc => absurd (h _ hc).1 (by decide)

theorem newline_notMem_pair (hkey : '\n' ∉ key) (ha : IsName a) (hb : IsName b) (hw : ∀ c ∈ w, c = ' ') :
    '\n' ∉ key ++ a ++ ":".toList ++ b ++ w := by
  simp only [List.mem_append, not_or]
  exact ⟨⟨⟨⟨hkey, ha.newline_notMem⟩, by decide⟩, hb.newline_notMem⟩, fun hc => absurd (hw _ hc) (by decide)⟩

theorem options_pair (hkey : '\n' ∉ key) (ha : IsName a) (hb : IsName b) (hw : ∀ c ∈ w, c = ' ') :
    options key (key ++ a ++ ":".toList ++ b ++ w ++ ['\n']) = [(a, b)] := by
  have hstrip : strip (a ++ (":".toList ++ (b ++ w))) = a ++ ':' :: b := by
    have hspace : strip w = [] := List.filter_eq_nil_iff.2 fun c hc => by rw [hw c hc]; decide
    have hcolon : strip ":".toList = [':'] := by decide
    rw [strip_append, strip_append, strip_append, ha.strip_eq, hb.strip_eq, hspace, hcolon]; simp
  have hname : ':' ∉ a := fun hc => (ha _ hc).2 rfl
  rw [options_line (newline_notMem_pair hkey ha hb hw), optionOf, List.append_assoc, List.append_assoc,
    List.append_assoc, List.dropPrefix?_append_of_beq _ (beq_self_eq_true key)]
  simp only [Option.map_some, Option.toList_some, hstrip]
  rw [takeWhile_ne hname, dropWhile_ne hname]
  simp

/-- Under a key that starts otherwise such a line is nothing. -/
theorem options_pair_other {key' : Str} {n : ℕ} (hkey : '\n' ∉ key) (ha : IsName a) (hb : IsName b)
    (hw : ∀ c ∈ w, c = ' ') (hn : n ≤ key.length) (hn' : n ≤ key'.length) (hne : key.take n ≠ key'.take n) :
    options key' (key ++ a ++ ":".toList ++ b ++ w ++ ['\n']) = [] := by
  refine options_other (newline_notMem_pair hkey ha hb hw) hn' ?_
  rwa [List.append_assoc, List.append_assoc, List.append_assoc, List.take_append_of_le_length hn]

end

section
variable (k : ℕ)

theorem portText_sIn : portText (.sIn k) = "rng_instance_".toList ++ decimal k ++ "_1.s_in".toList := rfl
theorem portText_sOut : portText (.sOut k) = "rng_instance_".toList ++ decimal k ++ "_1.s_out".toList := rfl
theorem portText_oIn : portText (.oIn k) = "rng_instance_".toList ++ decimal k ++ "_1.o_in".toList := rfl
theorem portText_oOut : portText (.oOut k) = "rng_instance_".toList ++ decimal k ++ "_1.o_out".toList := rfl

end

theorem isName_portText (p : Port) : IsName (portText p) := by
  cases p
  case ssrngStateMergeOut => decide
  case rngStartOutput => decide
  case rngEndInput => decide
  case rngMainRng => decide
  all_goals exact (IsName.append (by decide) (isName_decimal _)).append (by decide)

/-! ## The text in pieces that end with a line -/

def CONNECT : Str := "stream_connect=".toList

def SLR : Str := "slr=".toList

def connectLine (p q : Port) (w : Str) : Str := CONNECT ++ portText p ++ ":".toList ++ portText q ++ w ++ ['\n']

theorem instanceKey_eq : "stream_connect=rng_instance_".toList = CONNECT ++ "rng_instance_".toList := by decide

theorem linkPair_eq (i : ℕ) :
    linkPair i = connectLine (.sOut (i + 1)) (.sIn (i + 2)) [] ++ connectLine (.oOut (i + 2)) (.oIn (i + 1)) [] := by
  have hs : "_1.s_out:rng_instance_".toList = "_1.s_out".toList ++ (":".toList ++ "rng_instance_".toList) := by decide
  have ho : "_1.o_out:rng_instance_".toList = "_1.o_out".toList ++ (":".toList ++ "rng_instance_".toList) := by decide
  have hs' : "_1.s_in\n".toList = "_1.s_in".toList ++ ([] ++ ['\n']) := by decide
  have ho' : "_1.o_in\n".toList = "_1.o_in".toList ++ ([] ++ ['\n']) := by decide
  unfold linkPair connectLine
  rewrite [instanceKey_eq, hs, ho, hs', ho']
  simp only [portText_sIn, portText_sOut, portText_oIn, portText_oOut, List.append_assoc]

theorem startLine_eq (CUs : ℕ) : "stream_connect=rng_start_1.output:rng_instance_".toList ++ decimal CUs ++
    "_1.o_in \n".toList = connectLine .rngStartOutput (.oIn CUs) [' '] := by
  have h : "stream_connect=rng_start_1.output:rng_instance_".toList =
      CONNECT ++ (portText .rngStartOutput ++ (":".toList ++ "rng_instance_".toList)) := by decide
  have h' : "_1.o_in \n".toList = "_1.o_in".toList ++ ([' '] ++ ['\n']) := by decide
  rewrite [h, h', connectLine]
  simp only [portText_oIn, List.append_assoc]

theorem endLine_eq (CUs : ℕ) : "stream_connect=rng_instance_".toList ++ decimal CUs ++
    "_1.s_out:rng_end_1.input\n".toList = connectLine (.sOut CUs) .rngEndInput [] := by
  have h' : "_1.s_out:rng_end_1.input\n".toList =
      "_1.s_out".toList ++ (":".toList ++ (portText .rngEndInput ++ ([] ++ ['\n']))) := by decide
  rewrite [instanceKey_eq, h', connectLine]
  simp only [portText_sOut, List.append_assoc]

theorem mergeLine_eq : "stream_connect=ssrng_state_merge_1.out:rng_instance_1_1.s_in \n".toList =
    connectLine .ssrngStateMergeOut (.sIn 1) [' '] := by
  unfold connectLine portText CONNECT
  repeat rewrite [String.toList_ofList]
  decide

theorem mainLine_eq : "stream_connect=rng_instance_1_1.o_out:rng_main_1.rng\n".toList =
    connectLine (.oOut 1) .rngMainRng [] := by
  unfold connectLine portText CONNECT
  repeat rewrite [String.toList_ofList]
  decide

def pieces (CUs : ℕ) : List Str :=
  ["[connectivity]\n".toList, STR, "\n".toList, connectLine .ssrngStateMergeOut (.sIn 1) [' '],
    (List.range (CUs - 1)).flatMap linkPair, "\n".toList, connectLine .rngStartOutput (.oIn CUs) [' '],
    connectLine (.sOut CUs) .rngEndInput [], connectLine (.oOut 1) .rngMainRng [], SLR_STR,
    (List.range (CUs - 1)).flatMap (fun i => slrLine (i + 1)), slrLine CUs, END_STR]

theorem genLink_eq (CUs : ℕ) : genLink CUs = (pieces CUs).flatten := by
  unfold genLink pieces
  rewrite [mergeLine_eq, startLine_eq, endLine_eq, mainLine_eq]
  -- as constants, so that no literal is evaluated below
  generalize "[connectivity]\n".toList = header
  generalize "\n".toList = blank
  simp only [List.flatten_cons, List.flatten_nil, List.append_nil, List.append_assoc]

theorem endsLine_connectLine (p q : Port) (w : Str) : EndsLine (connectLine p q w) := endsLine_newline _

theorem endsLine_linkPair (i : ℕ) : EndsLine (linkPair i) := by
  rw [linkPair_eq]; exact (endsLine_connectLine _ _ _).append (endsLine_connectLine _ _ _)

theorem slrLine_eq (k : ℕ) :
    slrLine k = SLR ++ (rngInstance k).unit ++ ":".toList ++ "SLR0".toList ++ [' '] ++ ['\n'] := by
  have h : "slr=rng_instance_".toList = SLR ++ "rng_instance_".toList := by decide
  have h' : "_1:SLR0 \n".toList = "_1".toList ++ (":".toList ++ ("SLR0".toList ++ ([' '] ++ ['\n']))) := by decide
  have hunit : (rngInstance k).unit = "rng_instance_".toList ++ decimal k ++ "_1".toList := rfl
  unfold slrLine
  rewrite [hunit, h, h']
  simp only [List.append_assoc]

theorem endsLine_slrLine (k : ℕ) : EndsLine (slrLine k) := by rw [slrLine_eq]; exact endsLine_newline _

theorem endsLine_pieces (CUs : ℕ) : ∀ p ∈ pieces CUs, EndsLine p := by
  have hSTR : EndsLine STR := .append_left _ (by decide) (by decide)
  have hSLR : EndsLine SLR_STR := .append_left _ (by decide) (by decide)
  have hEND : EndsLine END_STR := .append_left _ (by decide) (by decide)
  simp only [pieces, List.forall_mem_cons]
  exact ⟨by decide, hSTR, by decide, endsLine_connectLine _ _ _, .flatMap endsLine_linkPair,
    by decide, endsLine_connectLine _ _ _, endsLine_connectLine _ _ _, endsLine_connectLine _ _ _, hSLR,
    .flatMap fun i => endsLine_slrLine (i + 1), endsLine_slrLine CUs, hEND, by simp⟩

/-! ## The lines of each kind -/

section
variable {w : Str}

theorem options_connectLine (p q : Port) (hw : ∀ c ∈ w, c = ' ') :
    options CONNECT (connectLine p q w) = [(portText p, portText q)] :=
  options_pair (by decide) (isName_portText p) (isName_portText q) hw

theorem isName_unit (k : ℕ) : IsName (rngInstance k).unit :=
  (IsName.append (by decide) (isName_decimal k)).append (by decide)

theorem options_slrLine (k : ℕ) : options SLR (slrLine k) = [((rngInstance k).unit, "SLR0".toList)] := by
  rw [slrLine_eq]
  exact options_pair (by decide) (isName_unit k) (by decide) (by simp)

theorem keys_differ : CONNECT.take 4 ≠ SLR.take 4 := by decide

theorem options_SLR_connectLine (p q : Port) (hw : ∀ c ∈ w, c = ' ') : options SLR (connectLine p q w) = [] :=
  options_pair_other (by decide) (isName_portText p) (isName_portText q) hw (by decide) (by decide) keys_differ

theorem options_CONNECT_slrLine (k : ℕ) : options CONNECT (slrLine k) = [] := by
  rw [slrLine_eq]
  exact options_pair_other (by decide) (isName_unit k) (by decide) (by simp) (by decide) (by decide) keys_differ.symm

theorem options_linkPair (i : ℕ) : options CONNECT (linkPair i) =
    [(portText (.sOut (i + 1)), portText (.sIn (i + 2))), (portText (.oOut (i + 2)), portText (.oIn (i + 1)))] := by
  rw [linkPair_eq, options_append (endsLine_connectLine _ _ _), options_connectLine _ _ (by simp),
    options_connectLine _ _ (by simp)]
  rfl

theorem options_SLR_linkPair (i : ℕ) : options SLR (linkPair i) = [] := by
  rw [linkPair_eq, options_append (endsLine_connectLine _ _ _), options_SLR_connectLine _ _ (by simp),
    options_SLR_connectLine _ _ (by simp)]
  rfl

theorem connect_fixed : options CONNECT SLR_STR = [] ∧ options CONNECT END_STR = [] := by
  unfold CONNECT SLR_STR END_STR
  repeat rewrite [String.toList_ofList]
  decide

theorem slr_fixed : options SLR STR = [] ∧ options SLR END_STR = [] := by
  unfold SLR STR END_STR
  repeat rewrite [String.toList_ofList]
  decide

end

/-- The connections are those of `STR` and the links of the kernels, in the order printed. -/
theorem connections_eq (CUs : ℕ) : connections CUs =
    options CONNECT STR ++ (streamConnect CUs).map (Prod.map portText portText) := by
  have hheader : options CONNECT "[connectivity]\n".toList = [] := by decide
  have hblank : options CONNECT "\n".toList = [] := by decide
  have hslr : (List.range (CUs - 1)).flatMap (fun i => options CONNECT (slrLine (i + 1))) = [] := by
    simp [options_CONNECT_slrLine]
  change options CONNECT (genLink CUs) = _
  rewrite [genLink_eq, options_flatten (endsLine_pieces CUs)]
  unfold pieces
  simp only [List.flatMap_cons, List.flatMap_nil]
  rewrite [hheader, hblank, options_connectLine _ _ (by simp), options_connectLine _ _ (by simp),
    options_connectLine _ _ (by simp), options_connectLine _ _ (by simp), connect_fixed.1, connect_fixed.2,
    options_CONNECT_slrLine, options_flatMap endsLine_linkPair,
    options_flatMap fun i => endsLine_slrLine (i + 1), hslr]
  simp [streamConnect, options_linkPair, List.map_flatMap, Prod.map]

theorem fixedSlrs : (options SLR SLR_STR).map Prod.fst = fixedKernels.map Kernel.unit := by
  unfold SLR SLR_STR fixedKernels
  repeat rewrite [String.toList_ofList]
  decide

theorem range_append_last {n : ℕ} (h : 1 ≤ n) : (List.range (n - 1)).map (· + 1) ++ [n] = List.range' 1 n := by
  obtain ⟨m, rfl⟩ := Nat.exists_eq_add_of_le' h
  rw [Nat.add_sub_cancel, List.range'_eq_map_range, List.range_succ, List.map_append]
  simp [Nat.add_comm]

/-- Each kernel is placed once, in the order of `kernels`. -/
theorem slrs_fst {CUs : ℕ} (h : 1 ≤ CUs) : (slrs CUs).map Prod.fst = (kernels CUs).map Kernel.unit := by
  have hheader : options SLR "[connectivity]\n".toList = [] := by decide
  have hblank : options SLR "\n".toList = [] := by decide
  have hlinks : (List.range (CUs - 1)).flatMap (fun i => options SLR (linkPair i)) = [] := by
    simp [options_SLR_linkPair]
  have hslr : (List.range (CUs - 1)).flatMap (fun i => options SLR (slrLine (i + 1))) =
      ((List.range (CUs - 1)).map (· + 1)).map fun k => ((rngInstance k).unit, "SLR0".toList) := by
    simp only [options_slrLine, List.map_map]
    exact List.map_eq_flatMap.symm
  have hinstances : ((List.range (CUs - 1)).map (· + 1)).map (fun k => (rngInstance k).unit) ++
      [(rngInstance CUs).unit] = ((List.range' 1 CUs).map rngInstance).map Kernel.unit := by
    rw [← range_append_last h]; simp
  change (options SLR (genLink CUs)).map _ = _
  rewrite [genLink_eq, options_flatten (endsLine_pieces CUs)]
  unfold pieces
  simp only [List.flatMap_cons, List.flatMap_nil]
  rewrite [hheader, hblank, options_SLR_connectLine _ _ (by simp), options_SLR_connectLine _ _ (by simp),
    options_SLR_connectLine _ _ (by simp), options_SLR_connectLine _ _ (by simp), slr_fixed.1, slr_fixed.2,
    options_slrLine, options_flatMap endsLine_linkPair,
    options_flatMap fun i => endsLine_slrLine (i + 1), hslr, hlinks]
  simp only [List.nil_append, List.append_nil, List.map_append, fixedSlrs, List.map_map]
  rw [kernels, List.map_append, ← hinstances, List.map_map]
  rfl

/-! ## Every port once -/

/-- The pairs of neighbours and the two loose ends, sorted by kernel. -/
theorem chain_perm {α : Type*} (f g : ℕ → α) (n : ℕ) :
    ((List.range n).flatMap (fun i => [f (i + 1), g (i + 2)]) ++ [f (n + 1), g 1]).Perm
      ((List.range' 1 (n + 1)).flatMap fun k => [f k, g k]) := by
  classical
  induction n with
  | zero => simp
  | succ n ih =>
    rw [List.perm_iff_count] at ih ⊢
    intro p
    have hp := ih p
    rw [List.range'_concat, List.flatMap_append]
    simp only [List.range_succ, List.flatMap_append, List.flatMap_cons, List.flatMap_nil, List.append_nil,
      List.count_append, List.count_cons, List.count_nil, Nat.one_mul, Nat.add_comm 1, Nat.add_assoc,
      Nat.reduceAdd] at hp ⊢
    omega

section
variable {CUs : ℕ}

theorem sources_perm (h : 1 ≤ CUs) : ((streamConnect CUs).map Prod.fst).Perm
    (.ssrngStateMergeOut :: .rngStartOutput :: (List.range' 1 CUs).flatMap fun k => [.sOut k, .oOut k]) := by
  obtain ⟨n, rfl⟩ := Nat.exists_eq_add_of_le' h
  have hmap : (streamConnect (n + 1)).map Prod.fst = Port.ssrngStateMergeOut ::
      ((List.range n).flatMap (fun i => [Port.sOut (i + 1), Port.oOut (i + 2)]) ++
        [Port.rngStartOutput, Port.sOut (n + 1), Port.oOut 1]) := by
    simp [streamConnect, List.map_flatMap]
  rewrite [hmap]
  exact (List.perm_middle.trans ((chain_perm _ _ n).cons _)).cons _

theorem destinations_perm (h : 1 ≤ CUs) : ((streamConnect CUs).map Prod.snd).Perm
    (.rngEndInput :: .rngMainRng :: (List.range' 1 CUs).flatMap fun k => [.oIn k, .sIn k]) := by
  obtain ⟨n, rfl⟩ := Nat.exists_eq_add_of_le' h
  have hmap : (streamConnect (n + 1)).map Prod.snd = Port.sIn 1 ::
      ((List.range n).flatMap (fun i => [Port.sIn (i + 2), Port.oIn (i + 1)]) ++
        [Port.oIn (n + 1), Port.rngEndInput, Port.rngMainRng]) := by
    simp [streamConnect, List.map_flatMap]
  have hswap : ((List.range n).flatMap (fun i => [Port.sIn (i + 2), Port.oIn (i + 1)])).Perm
      ((List.range n).flatMap fun i => [.oIn (i + 1), .sIn (i + 2)]) :=
    List.Perm.flatMap_left _ fun i _ => List.Perm.swap ..
  rewrite [hmap]
  refine .trans ?_ (((chain_perm Port.oIn Port.sIn n).cons _).cons _)
  rw [List.perm_iff_count]
  intro p
  have hp := hswap.count_eq p
  simp only [List.count_append, List.count_cons, List.count_nil]
  omega

theorem Kernel.port_eq (k : Kernel) (s : Str) : k.port s = k.name ++ '_' :: '1' :: '.' :: s := by
  have h1 : "_1".toList = ['_', '1'] := by decide
  have h2 : ".".toList = ['.'] := by decide
  rw [Kernel.port, Kernel.unit, h1, h2]
  simp

theorem port_eq (k : ℕ) (s : Str) :
    (rngInstance k).port s = "rng_instance_".toList ++ (decimal k ++ '_' :: '1' :: '.' :: s) := by
  rw [Kernel.port_eq]
  exact List.append_assoc ..

/-- The number ends where the digits do. -/
theorem port_injective {k k' : ℕ} {s s' : Str} (h : (rngInstance k).port s = (rngInstance k').port s') :
    k = k' ∧ s = s' := by
  rw [port_eq, port_eq] at h
  have h := List.append_cancel_left h
  have hdigits (n : ℕ) (t : Str) : (decimal n ++ '_' :: t).takeWhile Char.isDigit = decimal n := by
    rw [List.takeWhile_append_of_pos fun c hc => isDigit_of_mem_decimal hc, List.takeWhile_cons_of_neg (by decide),
      List.append_nil]
  have hk := congrArg (List.takeWhile Char.isDigit) h
  rw [hdigits, hdigits] at hk
  obtain rfl := decimal_injective hk
  have hs := List.append_cancel_left h
  exact ⟨rfl, by simpa using hs⟩

theorem portText_eq (k : ℕ) :
    portText (.sIn k) = (rngInstance k).port "s_in".toList ∧
    portText (.sOut k) = (rngInstance k).port "s_out".toList ∧
    portText (.oIn k) = (rngInstance k).port "o_in".toList ∧
    portText (.oOut k) = (rngInstance k).port "o_out".toList := by
  simp only [port_eq, portText_sIn, portText_sOut, portText_oIn, portText_oOut, List.append_assoc]
  refine ⟨?_, ?_, ?_, ?_⟩ <;> congr 2

theorem fixed_sources :
    ((options CONNECT STR).map Prod.fst ++ [portText .ssrngStateMergeOut, portText .rngStartOutput]).Perm
      (fixedKernels.flatMap fun k => k.outputs.map k.port) := by
  unfold CONNECT STR portText fixedKernels
  repeat rewrite [String.toList_ofList]
  decide

theorem fixed_destinations :
    ((options CONNECT STR).map Prod.snd ++ [portText .rngEndInput, portText .rngMainRng]).Perm
      (fixedKernels.flatMap fun k => k.inputs.map k.port) := by
  unfold CONNECT STR portText fixedKernels
  repeat rewrite [String.toList_ofList]
  decide

theorem connections_sources (h : 1 ≤ CUs) : ((connections CUs).map Prod.fst).Perm (outputPorts CUs) := by
  have hlinks : ((streamConnect CUs).map (Prod.map portText portText)).map Prod.fst =
      ((streamConnect CUs).map Prod.fst).map portText := by simp
  have hinstances : ((List.range' 1 CUs).flatMap fun k => [Port.sOut k, Port.oOut k]).map portText =
      ((List.range' 1 CUs).map rngInstance).flatMap fun k => k.outputs.map k.port := by
    simp only [List.map_flatMap, List.flatMap_map, List.map_cons, List.map_nil, (portText_eq _).2.1,
      (portText_eq _).2.2.2]
    rfl
  rw [connections_eq, List.map_append, hlinks, outputPorts, kernels, List.flatMap_append, ← hinstances]
  refine (((sources_perm h).map portText).append_left _).trans ?_
  simpa using fixed_sources.append_right _

theorem connections_destinations (h : 1 ≤ CUs) : ((connections CUs).map Prod.snd).Perm (inputPorts CUs) := by
  have hlinks : ((streamConnect CUs).map (Prod.map portText portText)).map Prod.snd =
      ((streamConnect CUs).map Prod.snd).map portText := by simp
  have hinstances : (((List.range' 1 CUs).flatMap fun k => [Port.oIn k, Port.sIn k]).map portText).Perm
      (((List.range' 1 CUs).map rngInstance).flatMap fun k => k.inputs.map k.port) := by
    simp only [List.map_flatMap, List.flatMap_map, List.map_cons, List.map_nil, (portText_eq _).1,
      (portText_eq _).2.2.1]
    exact List.Perm.flatMap_left _ fun k _ => List.Perm.swap ..
  rw [connections_eq, List.map_append, hlinks, inputPorts, kernels, List.flatMap_append]
  refine (((destinations_perm h).map portText).append_left _).trans ?_
  simpa using fixed_destinations.append hinstances

/-! ### No two ports have one name -/

theorem nodup_fixed : (fixedKernels.flatMap fun k => (k.outputs ++ k.inputs).map k.port).Nodup := by
  unfold fixedKernels
  repeat rewrite [String.toList_ofList]
  decide

theorem fixed_not_instance : ∀ p ∈ fixedKernels.flatMap fun k => (k.outputs ++ k.inputs).map k.port,
    p.take 13 ≠ "rng_instance_".toList := by
  unfold fixedKernels
  repeat rewrite [String.toList_ofList]
  decide

theorem nodup_instances :
    (((List.range' 1 CUs).map rngInstance).flatMap fun k => (k.outputs ++ k.inputs).map k.port).Nodup := by
  have hstreams : ["s_out".toList, "o_out".toList, "s_in".toList, "o_in".toList].Nodup := by decide
  have hprod := (List.nodup_range' (s := 1) (n := CUs)).product hstreams
  have hinj : Function.Injective fun x : ℕ × Str => (rngInstance x.1).port x.2 := fun x y h => by
    obtain ⟨h1, h2⟩ := port_injective h
    exact Prod.ext h1 h2
  have hmap := hprod.map hinj
  simp only [SProd.sprod, List.product, List.map_flatMap, List.map_map] at hmap
  rw [List.flatMap_map]
  exact hmap

/-- The ports, kernel by kernel. -/
theorem ports_perm (CUs : ℕ) : (outputPorts CUs ++ inputPorts CUs).Perm
    ((kernels CUs).flatMap fun k => (k.outputs ++ k.inputs).map k.port) := by
  simp only [List.map_append]
  exact List.flatMap_append_perm ..

theorem nodup_ports (CUs : ℕ) : (outputPorts CUs ++ inputPorts CUs).Nodup := by
  rw [(ports_perm CUs).nodup_iff, kernels, List.flatMap_append, List.nodup_append]
  refine ⟨nodup_fixed, nodup_instances, fun p hp q hq hpq => fixed_not_instance p hp ?_⟩
  obtain ⟨k, hk, hq⟩ := List.mem_flatMap.1 hq
  obtain ⟨n, _, rfl⟩ := List.mem_map.1 hk
  obtain ⟨s, _, rfl⟩ := List.mem_map.1 hq
  rewrite [hpq, port_eq, List.take_append_of_le_length (by decide)]
  decide

/-- What one of two disjoint sides has, listed in any order. -/
theorem count_of_perm {l l' m m' : List Str} (hl : l.Perm m) (hl' : l'.Perm m') (hnodup : (m ++ m').Nodup) {p : Str}
    (hp : p ∈ m) : l.count p = 1 ∧ l'.count p = 0 := by
  obtain ⟨hm, _, hdisj⟩ := List.nodup_append.1 hnodup
  rw [hl.count_eq, hl'.count_eq]
  exact ⟨List.count_eq_one_of_mem hm hp, List.count_eq_zero.2 fun hp' => hdisj _ hp _ hp' rfl⟩

/-- A stream of a kernel is in one connection, on the side it belongs to. -/
theorem count_output (h : 1 ≤ CUs) {k : Kernel} (hk : k ∈ kernels CUs) {s : Str} (hs : s ∈ k.outputs) :
    ((connections CUs).map Prod.fst).count (k.port s) = 1 ∧ ((connections CUs).map Prod.snd).count (k.port s) = 0 :=
  count_of_perm (connections_sources h) (connections_destinations h) (nodup_ports CUs)
    (List.mem_flatMap.2 ⟨k, hk, List.mem_map_of_mem hs⟩)

theorem count_input (h : 1 ≤ CUs) {k : Kernel} (hk : k ∈ kernels CUs) {s : Str} (hs : s ∈ k.inputs) :
    ((connections CUs).map Prod.fst).count (k.port s) = 0 ∧ ((connections CUs).map Prod.snd).count (k.port s) = 1 :=
  (count_of_perm (connections_destinations h) (connections_sources h) (List.nodup_append_comm.1 (nodup_ports CUs))
    (List.mem_flatMap.2 ⟨k, hk, List.mem_map_of_mem hs⟩)).symm

end

/-! ## The two paths -/

def streamOf (p : Str) : Str := (p.dropWhile (· ≠ '.')).tail

def sEdges (CUs : ℕ) : List (Str × Str) :=
  (connections CUs).filter fun c => streamOf c.1 = "s_out".toList ∨ streamOf c.2 = "s_in".toList

def oEdges (CUs : ℕ) : List (Str × Str) :=
  (connections CUs).filter fun c => streamOf c.1 = "o_out".toList ∨ streamOf c.2 = "o_in".toList

def portStream : Port → Str
  | .ssrngStateMergeOut => "out".toList
  | .rngStartOutput => "output".toList
  | .rngEndInput => "input".toList
  | .rngMainRng => "rng".toList
  | .sIn _ => "s_in".toList
  | .sOut _ => "s_out".toList
  | .oIn _ => "o_in".toList
  | .oOut _ => "o_out".toList

theorem streamOf_instance (k : ℕ) (t : Str) : streamOf ("rng_instance_".toList ++ decimal k ++ t) = streamOf t := by
  have hbefore : '.' ∉ "rng_instance_".toList ++ decimal k := notMem_append_decimal (by decide) (by decide) k
  rw [streamOf, dropWhile_ne hbefore, streamOf]

theorem portStream_instance (k : ℕ) :
    portStream (.sIn k) = "s_in".toList ∧ portStream (.sOut k) = "s_out".toList ∧
    portStream (.oIn k) = "o_in".toList ∧ portStream (.oOut k) = "o_out".toList := ⟨rfl, rfl, rfl, rfl⟩

theorem portStream_fixed :
    portStream .ssrngStateMergeOut = "out".toList ∧ portStream .rngStartOutput = "output".toList ∧
    portStream .rngEndInput = "input".toList ∧ portStream .rngMainRng = "rng".toList := ⟨rfl, rfl, rfl, rfl⟩

theorem streamOf_portText (p : Port) : streamOf (portText p) = portStream p := by
  cases p
  case ssrngStateMergeOut => decide
  case rngStartOutput => decide
  case rngEndInput => decide
  case rngMainRng => decide
  case sIn k => rw [portText_sIn, streamOf_instance, (portStream_instance k).1]; decide
  case sOut k => rw [portText_sOut, streamOf_instance, (portStream_instance k).2.1]; decide
  case oIn k => rw [portText_oIn, streamOf_instance, (portStream_instance k).2.2.1]; decide
  case oOut k => rw [portText_oOut, streamOf_instance, (portStream_instance k).2.2.2]; decide

/-- A path through `1, …, n + 1` from `a` to `b`, as its edges. -/
theorem zip_up {α β : Type*} (a : α) (b : β) (f : ℕ → α) (g : ℕ → β) (n : ℕ) :
    (a :: (List.range' 1 (n + 1)).map f).zip ((List.range' 1 (n + 1)).map g ++ [b]) =
      (a, g 1) :: (List.range n).map (fun i => (f (i + 1), g (i + 2))) ++ [(f (n + 1), b)] := by
  have hf : (List.range' 1 (n + 1)).map f = (List.range n).map (fun i => f (i + 1)) ++ [f (n + 1)] := by
    rw [List.range'_concat, List.range'_eq_map_range]; simp [Nat.add_comm 1]
  have hg : (List.range' 1 (n + 1)).map g = g 1 :: (List.range n).map fun i => g (i + 2) := by
    rw [List.range'_succ, List.range'_eq_map_range]; simp [Nat.add_comm]
  rw [hf, hg, List.cons_append, List.zip_cons_cons, List.zip_append (by simp), List.zip_map']
  rfl

theorem zip_down {α β : Type*} (a : α) (b : β) (f : ℕ → α) (g : ℕ → β) (n : ℕ) :
    (a :: (List.range' 1 (n + 1)).reverse.map f).zip ((List.range' 1 (n + 1)).reverse.map g ++ [b]) =
      (a, g (n + 1)) :: (List.range n).reverse.map (fun i => (f (i + 2), g (i + 1))) ++ [(f 1, b)] := by
  have hf : (List.range' 1 (n + 1)).reverse.map f = (List.range n).reverse.map (fun i => f (i + 2)) ++ [f 1] := by
    rw [List.range'_succ, List.range'_eq_map_range]; simp [Nat.add_comm, List.map_reverse]
  have hg : (List.range' 1 (n + 1)).reverse.map g = g (n + 1) :: (List.range n).reverse.map fun i => g (i + 1) := by
    rw [List.range'_concat, List.range'_eq_map_range]; simp [Nat.add_comm 1, List.map_reverse]
  rw [hf, hg, List.cons_append, List.zip_cons_cons, List.zip_append (by simp), List.zip_map']
  rfl

theorem rotate_perm {α : Type*} (l : List α) (x y : α) : (l ++ [x, y]).Perm (x :: l.reverse ++ [y]) :=
  List.perm_middle.trans (((List.reverse_perm l).symm.append_right [y]).cons x)

section
variable {CUs : ℕ}

/-- The fixed connections are on neither path. -/
theorem edges_STR :
    (options CONNECT STR).filter (fun c => streamOf c.1 = "s_out".toList ∨ streamOf c.2 = "s_in".toList) = [] ∧
    (options CONNECT STR).filter (fun c => streamOf c.1 = "o_out".toList ∨ streamOf c.2 = "o_in".toList) = [] := by
  unfold CONNECT STR
  repeat rewrite [String.toList_ofList]
  decide

/-- `merge → 1 → … → CUs → rng_end` -/
theorem sEdges_eq (h : 1 ≤ CUs) : sEdges CUs =
    ("ssrng_state_merge_1.out".toList :: (List.range' 1 CUs).map fun k => (rngInstance k).port "s_out".toList).zip
      ((List.range' 1 CUs).map (fun k => (rngInstance k).port "s_in".toList) ++ ["rng_end_1.input".toList]) := by
  obtain ⟨n, rfl⟩ := Nat.exists_eq_add_of_le' h
  have hlinks : (streamConnect (n + 1)).filter
      (fun c => portStream c.1 = "s_out".toList ∨ portStream c.2 = "s_in".toList) =
      (Port.ssrngStateMergeOut, Port.sIn 1) :: (List.range n).map (fun i => (Port.sOut (i + 1), Port.sIn (i + 2))) ++
        [(Port.sOut (n + 1), Port.rngEndInput)] := by
    simp [streamConnect, List.filter_flatMap, portStream_instance, portStream_fixed, List.map_eq_flatMap]
  rw [sEdges, connections_eq, List.filter_append, edges_STR.1, List.filter_map]
  simp only [Function.comp_def, Prod.map_fst, Prod.map_snd, streamOf_portText, hlinks, ← (portText_eq _).1,
    ← (portText_eq _).2.1, zip_up, List.nil_append, List.map_append, List.map_cons, List.map_nil, List.map_map]
  rfl

/-- `rng_start → CUs → … → 1 → rng_main`, printed in another order -/
theorem oEdges_perm (h : 1 ≤ CUs) : (oEdges CUs).Perm
    (("rng_start_1.output".toList :: (List.range' 1 CUs).reverse.map fun k => (rngInstance k).port "o_out".toList).zip
      ((List.range' 1 CUs).reverse.map (fun k => (rngInstance k).port "o_in".toList) ++ ["rng_main_1.rng".toList])) := by
  obtain ⟨n, rfl⟩ := Nat.exists_eq_add_of_le' h
  have hlinks : (streamConnect (n + 1)).filter
      (fun c => portStream c.1 = "o_out".toList ∨ portStream c.2 = "o_in".toList) =
      (List.range n).map (fun i => (Port.oOut (i + 2), Port.oIn (i + 1))) ++
        [(Port.rngStartOutput, Port.oIn (n + 1)), (Port.oOut 1, Port.rngMainRng)] := by
    simp [streamConnect, List.filter_flatMap, portStream_instance, portStream_fixed, List.map_eq_flatMap]
  rw [oEdges, connections_eq, List.filter_append, edges_STR.2, List.filter_map]
  simp only [Function.comp_def, Prod.map_fst, Prod.map_snd, streamOf_portText, hlinks, ← (portText_eq _).2.2.1,
    ← (portText_eq _).2.2.2, zip_down, List.nil_append]
  refine ((rotate_perm _ _ _).map _).trans (.of_eq ?_)
  simp only [List.map_append, List.map_cons, List.map_nil, List.map_reverse, List.map_map]
  rfl

end

/-! ## The compute units -/

def unitOf (p : Str) : Str := p.takeWhile (· ≠ '.')

/-- The compute units the `stream_connect` lines speak of. -/
def namedUnits (CUs : ℕ) : List Str := ((connections CUs).map Prod.fst ++ (connections CUs).map Prod.snd).map unitOf

def KernelDecl.unit (d : KernelDecl) : Str := d.name ++ "_1".toList

section
variable {CUs : ℕ}

theorem fixed_units : (fixedKernels.map Kernel.unit).Nodup ∧ ∀ u ∈ fixedKernels.map Kernel.unit,
    u.take 13 ≠ "rng_instance_".toList := by
  unfold fixedKernels
  repeat rewrite [String.toList_ofList]
  decide

theorem fixed_streams : ∀ k ∈ fixedKernels, '.' ∉ k.unit ∧ k.outputs ++ k.inputs ≠ [] := by
  unfold fixedKernels
  repeat rewrite [String.toList_ofList]
  decide

theorem streams {k : Kernel} (hk : k ∈ kernels CUs) : '.' ∉ k.unit ∧ k.outputs ++ k.inputs ≠ [] := by
  rcases List.mem_append.1 hk with hk | hk
  · exact fixed_streams k hk
  · obtain ⟨n, _, rfl⟩ := List.mem_map.1 hk
    refine ⟨fun hdot => ?_, List.cons_ne_nil _ _⟩
    rcases List.mem_append.1 hdot with hdot | hdot
    · exact notMem_append_decimal (by decide) (by decide) n hdot
    · exact absurd hdot (by decide)

theorem unitOf_port {k : Kernel} (h : '.' ∉ k.unit) (s : Str) : unitOf (k.port s) = k.unit := by
  have hport : k.port s = k.unit ++ '.' :: s := by
    rw [Kernel.port, show ".".toList = ['.'] by decide]; simp
  rw [unitOf, hport, takeWhile_ne h]

theorem nodup_units (CUs : ℕ) : ((kernels CUs).map Kernel.unit).Nodup := by
  have hinj : Function.Injective fun n => (rngInstance n).unit := fun m n h => by
    have hport : (rngInstance m).port [] = (rngInstance n).port [] := congrArg (· ++ ".".toList ++ []) h
    exact (port_injective hport).1
  rw [kernels, List.map_append, List.nodup_append, List.map_map]
  refine ⟨fixed_units.1, (List.nodup_range' (s := 1) (n := CUs)).map hinj, fun u hu v hv huv => fixed_units.2 u hu ?_⟩
  obtain ⟨n, _, rfl⟩ := List.mem_map.1 hv
  have hunit : (rngInstance n).unit = "rng_instance_".toList ++ (decimal n ++ "_1".toList) := List.append_assoc ..
  rewrite [huv, Function.comp_apply, hunit, List.take_append_of_le_length (by decide)]
  decide

theorem mem_namedUnits (h : 1 ≤ CUs) (u : Str) : u ∈ namedUnits CUs ↔ u ∈ (kernels CUs).map Kernel.unit := by
  have hperm := ((connections_sources h).append (connections_destinations h)).trans (ports_perm CUs)
  rw [namedUnits, (hperm.map unitOf).mem_iff, List.mem_map, List.mem_map]
  constructor
  · rintro ⟨p, hp, rfl⟩
    obtain ⟨k, hk, hp⟩ := List.mem_flatMap.1 hp
    obtain ⟨s, _, rfl⟩ := List.mem_map.1 hp
    exact ⟨k, hk, (unitOf_port (streams hk).1 s).symm⟩
  · rintro ⟨k, hk, rfl⟩
    obtain ⟨s, hs⟩ := List.exists_mem_of_ne_nil _ (streams hk).2
    exact ⟨k.port s, List.mem_flatMap.2 ⟨k, hk, List.mem_map_of_mem hs⟩, unitOf_port (streams hk).1 s⟩

theorem units_eq (CUs : ℕ) : (kernels CUs).map Kernel.unit =
    fixedKernels.map Kernel.unit ++ ((List.range' 1 CUs).map rngInstanceDecl).map KernelDecl.unit := by
  rw [kernels, List.map_append, List.map_map, List.map_map]
  rfl

/-- The template makes one file for each instance, and in it the kernel of that number. -/
theorem generatedKernels_main {env : Env} {input text : Str} (output : Str) (h : 1 ≤ CUs)
    (hread : env.read input = some text) (htext : getlines text = templateRngInstance) :
    ∃ files, (∃ fuel₀, ∀ fuel ≥ fuel₀, main fuel env CUs [input, output] = .ok files) ∧
      (files.flatMap fun file => generatedKernels (getlines file.2)) = (List.range' 1 CUs).map rngInstanceDecl := by
  have hlines (j : ℕ) : getlines (unlines (expand j templateRngInstance)) = expand j templateRngInstance :=
    getlines_unlines (newline_notMem_expand fun line hline => newline_notMem_template hline)
  have hcu : CuTemplate (getlines text) := htext ▸ cuTemplate_rngInstance
  refine ⟨_, ⟨(getlines text).flatten.length + 1, fun fuel hfuel => main_cu hread hcu h fun line hline => ?_⟩, ?_⟩
  · have := (List.sublist_flatten_of_mem hline).length_le
    omega
  · rw [htext, List.flatMap_map]
    simp only [hlines, generatedKernels_expand]
    rw [List.range'_eq_map_range, List.map_map, ← List.map_eq_flatMap]
    simp [Function.comp_def, Nat.add_comm]

end

/-- The configuration connects every stream once, in two paths, places every kernel once, and speaks of the kernels
that are generated from the template. -/
theorem linkConfiguration {CUs : ℕ} {env : Env} {input output text : Str} (h : 1 ≤ CUs)
    (hread : env.read input = some text) (htext : getlines text = templateRngInstance) :
    (∀ k ∈ kernels CUs,
      (∀ s ∈ k.outputs,
        ((connections CUs).map Prod.fst).count (k.port s) = 1 ∧
        ((connections CUs).map Prod.snd).count (k.port s) = 0) ∧
      (∀ s ∈ k.inputs,
        ((connections CUs).map Prod.fst).count (k.port s) = 0 ∧
        ((connections CUs).map Prod.snd).count (k.port s) = 1)) ∧
    sEdges CUs =
      ("ssrng_state_merge_1.out".toList :: (List.range' 1 CUs).map fun k => (rngInstance k).port "s_out".toList).zip
        ((List.range' 1 CUs).map (fun k => (rngInstance k).port "s_in".toList) ++ ["rng_end_1.input".toList]) ∧
    (oEdges CUs).Perm
      (("rng_start_1.output".toList :: (List.range' 1 CUs).reverse.map fun k => (rngInstance k).port "o_out".toList).zip
        ((List.range' 1 CUs).reverse.map (fun k => (rngInstance k).port "o_in".toList) ++ ["rng_main_1.rng".toList])) ∧
    (∀ k ∈ kernels CUs, ((slrs CUs).map Prod.fst).count k.unit = 1) ∧
    ∃ files, (∃ fuel₀, ∀ fuel ≥ fuel₀, main fuel env CUs [input, output] = .ok files) ∧
      (files.flatMap fun file => generatedKernels (getlines file.2)) = (List.range' 1 CUs).map rngInstanceDecl ∧
      (∀ u, u ∈ namedUnits CUs ↔ u ∈ fixedKernels.map Kernel.unit ∨
        u ∈ (files.flatMap fun file => generatedKernels (getlines file.2)).map KernelDecl.unit) ∧
      (slrs CUs).map Prod.fst = fixedKernels.map Kernel.unit ++
        (files.flatMap fun file => generatedKernels (getlines file.2)).map KernelDecl.unit := by
  refine ⟨fun k hk => ⟨?_, ?_⟩, sEdges_eq h, oEdges_perm h, ?_, ?_⟩
  · intro s hs
    exact count_output h hk hs
  · intro s hs
    exact count_input h hk hs
  · intro k hk
    rw [slrs_fst h]
    exact List.count_eq_one_of_mem (nodup_units CUs) (List.mem_map_of_mem hk)
  · obtain ⟨files, hrun, hkernels⟩ := generatedKernels_main output h hread htext
    refine ⟨files, hrun, hkernels, fun u => ?_, ?_⟩
    · rw [mem_namedUnits h, hkernels, units_eq, List.mem_append]
    · rw [slrs_fst h, hkernels, units_eq]

theorem linkConfiguration_two : sEdges 2 =
    [("ssrng_state_merge_1.out".toList, "rng_instance_1_1.s_in".toList),
      ("rng_instance_1_1.s_out".toList, "rng_instance_2_1.s_in".toList),
      ("rng_instance_2_1.s_out".toList, "rng_end_1.input".toList)] :=
  (@linkConfiguration 2 ⟨fun _ => some (unlines templateRngInstance), fun _ => 0⟩ [] [] _ (by decide) rfl
    (getlines_unlines fun _ h => newline_notMem_template h)).2.1

end ThundeRiNG.Automation
