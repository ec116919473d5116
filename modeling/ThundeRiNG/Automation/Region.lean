import Mathlib.Data.List.Nodup
import ThundeRiNG.Automation.CodeGen

/-!
# Copying the region of user code (`customize.cpp:117-159`, `:419-447`)

The marker for the code and the two ends of the region are each filed at most once, with the number of the line after
the pragma. A `Slot` is such a place in the registry: one keyword fills it, a second filling stops the program, and no
other pragma touches it. So what a slot holds when all inputs are read is where its pragma stood.

| here | there |
| --- | --- |
| `Slot`                       | `region.start`, `region.end`, `marker.cal` with their flags |
| `isStart`, `isEnd`, `isCal`  | lines that `identify_pragmas` files for them |
-/

namespace ThundeRiNG.Automation

open Text

/-! ## Places that are filled once -/

theorem keywords_nodup : (localItem.map ParserItem.keyword).Nodup := by
  simp only [localItem, kernelInterfaceParser, memInterfaceParser, customizeInterfaceParser, makefileInterfaceParser,
    ARG_ITEM, List.map_cons, List.map_nil, List.cons_append, List.nil_append]
  repeat rewrite [String.toList_ofList]
  decide

/-- An item is known by its keyword. -/
theorem item_eq_of_keyword {i j : ParserItem} (hi : i ∈ localItem) (hj : j ∈ localItem) (h : i.keyword = j.keyword) :
    i = j := List.inj_on_of_nodup_map keywords_nodup hi hj h

structure Slot where
  item : ParserItem
  mem : item ∈ localItem
  get : Registry → Option ArgInstance
  fill : ∀ arg reg, 0 ≤ (item.func arg reg).1 → get reg = none ∧ get (item.func arg reg).2 = some arg
  other : ∀ i ∈ localItem, i.keyword ≠ item.keyword → ∀ arg reg, get (i.func arg reg).2 = get reg

def startItem : ParserItem := ⟨16, "USER_APPLY_CODE_START".toList, onCustomize Customize.registerCodeStart⟩
def endItem : ParserItem := ⟨17, "USER_APPLY_CODE_END".toList, onCustomize Customize.registerCodeEnd⟩
def calItem : ParserItem := ARG_ITEM 15 "USER_APPLY_CAL" .cal

section
variable (arg : ArgInstance) (st : Customize.State)

theorem markerFunction_region (var : Customize.Mark) : (Customize.MARKER_FUNCTION var arg st).2.region = st.region := by
  unfold Customize.MARKER_FUNCTION
  split <;> rfl

theorem markerFunction_marker {var var' : Customize.Mark} (h : var' ≠ var) :
    (Customize.MARKER_FUNCTION var arg st).2.marker var' = st.marker var' := by
  unfold Customize.MARKER_FUNCTION
  split
  · exact Function.update_of_ne h _ _
  · rfl

theorem registerDefScalar_region : (Customize.registerDefScalar arg st).2.region = st.region := by
  unfold Customize.registerDefScalar
  split <;> rfl

theorem registerDefScalar_marker : (Customize.registerDefScalar arg st).2.marker = st.marker := by
  unfold Customize.registerDefScalar
  split <;> rfl

theorem registerArray_region (v : Customize.Var) : (Customize.registerArray v arg st).2.region = st.region := by
  unfold Customize.registerArray
  split <;> rfl

theorem registerArray_marker (v : Customize.Var) : (Customize.registerArray v arg st).2.marker = st.marker := by
  unfold Customize.registerArray
  split <;> rfl

theorem registerCodeStart_stop : (Customize.registerCodeStart arg st).2.region.stop = st.region.stop := by
  unfold Customize.registerCodeStart
  split <;> rfl

theorem registerCodeStart_marker : (Customize.registerCodeStart arg st).2.marker = st.marker := by
  unfold Customize.registerCodeStart
  split <;> rfl

theorem registerCodeEnd_start : (Customize.registerCodeEnd arg st).2.region.start = st.region.start := by
  unfold Customize.registerCodeEnd
  split <;> rfl

theorem registerCodeEnd_marker : (Customize.registerCodeEnd arg st).2.marker = st.marker := by
  unfold Customize.registerCodeEnd
  split <;> rfl

end

/-- To check something of every item. -/
theorem forall_localItem {P : ParserItem → Prop} (hkernel : ∀ id k f, P ⟨id, k, onKernel f⟩)
    (hmem : ∀ id k f, P ⟨id, k, onMem f⟩) (hmakefile : ∀ id k f, P ⟨id, k, onMakefile f⟩)
    (hscalar : ∀ id k, P ⟨id, k, onCustomize Customize.registerDefScalar⟩)
    (harray : ∀ id k v, P ⟨id, k, onCustomize (Customize.registerArray v)⟩)
    (htype : ∀ id k, P ⟨id, k, onCustomize Customize.registerBaseType⟩)
    (hmark : ∀ id k, ∀ var ≠ Customize.Mark.cal, P (ARG_ITEM id k var)) (hcal : P calItem) (hstart : P startItem)
    (hend : P endItem) : ∀ i ∈ localItem, P i := by
  simp only [localItem, kernelInterfaceParser, memInterfaceParser, customizeInterfaceParser, makefileInterfaceParser,
    List.cons_append, List.nil_append, List.forall_mem_cons]
  exact ⟨hkernel _ _ _, hmem _ _ _, hmem _ _ _, hmem _ _ _, hscalar _ _, harray _ _ _, harray _ _ _, htype _ _,
    hmark _ _ _ (by decide), hmark _ _ _ (by decide), hmark _ _ _ (by decide), hmark _ _ _ (by decide),
    hmark _ _ _ (by decide), hcal, hmark _ _ _ (by decide), hmark _ _ _ (by decide), hmark _ _ _ (by decide),
    hstart, hend, hmark _ _ _ (by decide), hmark _ _ _ (by decide), hmark _ _ _ (by decide), hmark _ _ _ (by decide),
    hmakefile _ _ _, by simp⟩

/-- Apart from the two pragmas for its ends, none touches them. -/
theorem func_region : ∀ i ∈ localItem, i.keyword ≠ startItem.keyword → i.keyword ≠ endItem.keyword → ∀ arg reg,
    (i.func arg reg).2.customize.region.start = reg.customize.region.start ∧
      (i.func arg reg).2.customize.region.stop = reg.customize.region.stop := by
  refine forall_localItem ?_ ?_ ?_ ?_ ?_ ?_ ?_ ?_ ?_ ?_
  · intro id k f _ _ arg reg; exact ⟨rfl, rfl⟩
  · intro id k f _ _ arg reg; exact ⟨rfl, rfl⟩
  · intro id k f _ _ arg reg; exact ⟨rfl, rfl⟩
  · intro id k _ _ arg reg; exact ⟨congrArg _ (registerDefScalar_region ..), congrArg _ (registerDefScalar_region ..)⟩
  · intro id k v _ _ arg reg; exact ⟨congrArg _ (registerArray_region ..), congrArg _ (registerArray_region ..)⟩
  · intro id k _ _ arg reg; exact ⟨rfl, rfl⟩
  · intro id k v _ _ _ arg reg; exact ⟨congrArg _ (markerFunction_region ..), congrArg _ (markerFunction_region ..)⟩
  · intro _ _ arg reg; exact ⟨congrArg _ (markerFunction_region ..), congrArg _ (markerFunction_region ..)⟩
  · intro hne; exact absurd rfl hne
  · intro _ hne; exact absurd rfl hne

theorem startItem_mem : startItem ∈ localItem := by simp [localItem, customizeInterfaceParser, startItem]
theorem endItem_mem : endItem ∈ localItem := by simp [localItem, customizeInterfaceParser, endItem]

def startSlot : Slot where
  item := startItem
  mem := startItem_mem
  get reg := reg.customize.region.start
  fill arg reg h := by
    simp only [startItem, onCustomize, Customize.registerCodeStart] at h ⊢
    split at h
    · rename_i hnone; simp [hnone]
    · simp at h
  other i hi hne arg reg := by
    by_cases hend : i.keyword = endItem.keyword
    · obtain rfl := item_eq_of_keyword hi endItem_mem hend
      exact registerCodeEnd_start ..
    · exact (func_region i hi hne hend arg reg).1

def endSlot : Slot where
  item := endItem
  mem := endItem_mem
  get reg := reg.customize.region.stop
  fill arg reg h := by
    simp only [endItem, onCustomize, Customize.registerCodeEnd] at h ⊢
    split at h
    · rename_i hnone; simp [hnone]
    · simp at h
  other i hi hne arg reg := by
    by_cases hstart : i.keyword = startItem.keyword
    · obtain rfl := item_eq_of_keyword hi startItem_mem hstart
      exact registerCodeStart_stop ..
    · exact (func_region i hi hstart hne arg reg).2

def calSlot : Slot where
  item := calItem
  mem := by simp [localItem, customizeInterfaceParser, calItem]
  get reg := reg.customize.marker .cal
  fill arg reg h := by
    simp only [calItem, ARG_ITEM, onCustomize, Customize.MARKER_FUNCTION] at h ⊢
    split at h
    · rename_i hnone; simp [hnone]
    · simp at h
  other := by
    refine forall_localItem ?_ ?_ ?_ ?_ ?_ ?_ ?_ ?_ ?_ ?_
    · intro id k f _ arg reg; rfl
    · intro id k f _ arg reg; rfl
    · intro id k f _ arg reg; rfl
    · intro id k _ arg reg; exact congrFun (registerDefScalar_marker ..) _
    · intro id k v _ arg reg; exact congrFun (registerArray_marker ..) _
    · intro id k _ arg reg; rfl
    · intro id k var hvar _ arg reg; exact markerFunction_marker _ _ hvar.symm
    · intro hne; exact absurd rfl hne
    · intro _ arg reg; exact congrFun (registerCodeStart_marker ..) _
    · intro _ arg reg; exact congrFun (registerCodeEnd_marker ..) _

/-! ## What a slot holds after reading -/

namespace Slot

variable (slot : Slot) {fileName line next : Str} {n : ℕ} {lines : List Str} {reg reg' : Registry}

/-- The line is filed for the slot, if a line follows. -/
def isLine (line : Str) : Bool := (pragmaOf line).any (·.1.keyword = slot.item.keyword)

/-- Filed for this slot as the line before line `n` of the file. -/
def FiledAt (fileName : Str) (n : ℕ) (reg : Registry) : Prop :=
  ∃ arg, slot.get reg = some arg ∧ arg.fileName = fileName ∧ arg.ln = n

theorem identifyPragmas_cases (h : identifyPragmas fileName line next n reg = .ok reg') :
    slot.isLine line = true ∧ slot.get reg = none ∧ slot.FiledAt fileName n reg' ∨
      slot.isLine line = false ∧ slot.get reg' = slot.get reg := by
  rcases identifyPragmas_ok h with ⟨hp, rfl⟩ | ⟨item, name, arg, hp, hmem, rfl, hret, rfl⟩
  · exact .inr ⟨by rw [isLine, hp]; rfl, rfl⟩
  · by_cases hkey : item.keyword = slot.item.keyword
    · obtain rfl := item_eq_of_keyword hmem slot.mem hkey
      obtain ⟨hnone, hsome⟩ := slot.fill _ _ hret
      exact .inl ⟨by rw [isLine, hp]; simp, hnone, _, hsome, rfl, rfl⟩
    · exact .inr ⟨by rw [isLine, hp]; simpa using hkey, slot.other item hmem hkey _ _⟩

/-- A full slot stays as it is. -/
theorem readLines_full {arg : ArgInstance} (hfull : slot.get reg = some arg)
    (h : readLines fileName (n + 1) line lines reg = .ok reg') : slot.get reg' = some arg := by
  induction lines generalizing line n reg with
  | nil =>
    obtain rfl := Except.ok.inj h
    exact hfull
  | cons next lines ih =>
    obtain ⟨reg₁, hid, hrest⟩ := readLines_cons h
    rcases slot.identifyPragmas_cases hid with ⟨-, hnone, -⟩ | ⟨-, hkeep⟩
    · rw [hfull] at hnone; cases hnone
    · exact ih (hkeep.trans hfull) hrest

/-- Without a pragma of its own before the last line, a slot stays as it is. -/
theorem readLines_keep (hnone : ∀ l ∈ (line :: lines).dropLast, slot.isLine l = false)
    (h : readLines fileName (n + 1) line lines reg = .ok reg') : slot.get reg' = slot.get reg := by
  induction lines generalizing line n reg with
  | nil =>
    obtain rfl := Except.ok.inj h
    rfl
  | cons next lines ih =>
    obtain ⟨reg₁, hid, hrest⟩ := readLines_cons h
    rw [List.dropLast_cons_cons] at hnone
    rcases slot.identifyPragmas_cases hid with ⟨hline, -⟩ | ⟨-, hkeep⟩
    · rw [hnone line List.mem_cons_self] at hline; cases hline
    · rw [ih (fun l hl => hnone l (List.mem_cons_of_mem _ hl)) hrest, hkeep]

/-- A pragma of its own, not in the last line, fills it. -/
theorem readLines_fill {before after : List Str} {k : Str} (hlines : line :: lines = before ++ k :: after)
    (hafter : after ≠ []) (hk : slot.isLine k = true) (h : readLines fileName (n + 1) line lines reg = .ok reg') :
    slot.FiledAt fileName (n + 1 + before.length) reg' := by
  induction before generalizing line lines n reg with
  | nil =>
    obtain ⟨rfl, rfl⟩ := List.cons.inj hlines
    obtain ⟨next, after, rfl⟩ := List.exists_cons_of_ne_nil hafter
    obtain ⟨reg₁, hid, hrest⟩ := readLines_cons h
    rcases slot.identifyPragmas_cases hid with ⟨-, -, arg, harg, hname, hln⟩ | ⟨hline, -⟩
    · exact ⟨arg, slot.readLines_full harg hrest, hname, hln⟩
    · rw [hk] at hline; cases hline
  | cons b before ih =>
    rw [List.cons_append] at hlines
    obtain ⟨rfl, rfl⟩ := List.cons.inj hlines
    obtain ⟨next, rest, hrest⟩ := List.exists_cons_of_ne_nil (show before ++ k :: after ≠ [] by simp)
    rw [hrest] at h
    obtain ⟨reg₁, -, h⟩ := readLines_cons h
    have hfill := ih hrest.symm h
    rwa [List.length_cons, show n + 1 + (before.length + 1) = n + 1 + 1 + before.length by omega]

/-- What a slot holds was there before or is from this file. -/
theorem readLines_origin {arg : ArgInstance} (harg : slot.get reg' = some arg)
    (h : readLines fileName (n + 1) line lines reg = .ok reg') : slot.get reg = some arg ∨ arg.fileName = fileName := by
  induction lines generalizing line n reg with
  | nil =>
    obtain rfl := Except.ok.inj h
    exact .inl harg
  | cons next lines ih =>
    obtain ⟨reg₁, hid, hrest⟩ := readLines_cons h
    rcases ih hrest with harg' | hname
    · rcases slot.identifyPragmas_cases hid with ⟨-, -, arg', hsome, hname, -⟩ | ⟨-, hkeep⟩
      · rw [hsome] at harg'
        obtain rfl := Option.some.inj harg'
        exact .inr hname
      · exact .inl (hkeep.symm.trans harg')
    · exact .inr hname

end Slot

/-! ## What is emitted -/

section
variable {α : Type} {p : ℕ → Prop} [DecidablePred p] {k : ℕ}

theorem filterMap_zipIdx_none {l : List α} (h : ∀ i, k ≤ i → i < k + l.length → ¬ p i) :
    (l.zipIdx k).filterMap (fun x => if p x.2 then some x.1 else none) = [] := by
  refine List.filterMap_eq_nil_iff.2 ?_
  rintro ⟨x, i⟩ hx
  obtain ⟨hle, hlt, -⟩ := List.mem_zipIdx hx
  exact if_neg (h i hle hlt)

theorem filterMap_zipIdx_all {l : List α} (h : ∀ i, k ≤ i → i < k + l.length → p i) :
    (l.zipIdx k).filterMap (fun x => if p x.2 then some x.1 else none) = l := by
  induction l generalizing k with
  | nil => rfl
  | cons x l ih =>
    rw [List.length_cons] at h
    simp only [List.zipIdx_cons, List.filterMap_cons, if_pos (h k le_rfl (by omega))]
    rw [ih fun i hi hi' => h i (by omega) (by omega)]

/-- Of the lines `R` between `A` and `B`, the first has number `A.length`. -/
theorem filterMap_zipIdx_between (A R B : List α) :
    ((A ++ R ++ B).zipIdx.filterMap fun x =>
      if A.length < x.2 ∧ x.2 < A.length + R.length then some x.1 else none) = R.tail := by
  rw [List.zipIdx_append, List.zipIdx_append, List.filterMap_append, List.filterMap_append,
    filterMap_zipIdx_none (p := fun i => A.length < i ∧ i < A.length + R.length) (l := A)
      (by intro i hi hi'; omega),
    filterMap_zipIdx_none (p := fun i => A.length < i ∧ i < A.length + R.length) (l := B)
      (by intro i hi hi'; rw [List.length_append] at hi; omega), List.nil_append, List.append_nil, Nat.zero_add]
  cases R with
  | nil => rfl
  | cons x R =>
    simp only [List.zipIdx_cons, List.filterMap_cons, Nat.lt_irrefl, false_and, if_false, List.length_cons,
      List.tail_cons]
    exact filterMap_zipIdx_all (p := fun i => A.length < i ∧ i < A.length + (R.length + 1))
      fun i hi hi' => by omega

end

/-- The pragma lines of the region and of its marker. -/
def isStart (line : Str) : Bool := startSlot.isLine line
def isEnd (line : Str) : Bool := endSlot.isLine line
def isCal (line : Str) : Bool := calSlot.isLine line

/-- The start is filed one line late for the comparison it goes into, so the first line of the region is left out. -/
theorem calRegion_eq {read : Str → Option Str} {region : Customize.Region} {fileName text : Str}
    {start stop : ArgInstance} {before body after : List Str} {l l' : Str} (hstart : region.start = some start)
    (hstop : region.stop = some stop) (hname : start.fileName = fileName) (hname' : stop.fileName = fileName)
    (hln : start.ln = before.length + 1)
    (hln' : stop.ln = before.length + 1 + body.length + 1) (hread : read fileName = some text)
    (hlines : getlines text = before ++ l :: (body ++ l' :: after)) :
    Customize.calRegion read region = .ok (unlines body.tail) := by
  have hsplit : getlines text = (before ++ [l]) ++ body ++ (l' :: after) := by rw [hlines]; simp
  have hlines' := filterMap_zipIdx_between (before ++ [l]) body (l' :: after)
  rw [← hsplit] at hlines'
  rw [Customize.calRegion, hstart, hstop]
  simp only [hname, hname', ne_eq, not_true_eq_false, if_false, hln, hln', hread]
  rw [if_neg (by omega), ← hlines']
  congr 2
  refine List.filterMap_congr fun x _ => ?_
  simp only [List.length_append, List.length_singleton]
  refine if_congr ?_ rfl rfl
  omega

theorem Slot.not_isLine {slot slot' : Slot} {line : Str} (h : slot.isLine line = true)
    (hne : slot.item.keyword ≠ slot'.item.keyword) : slot'.isLine line = false := by
  cases hp : pragmaOf line with
  | none => rw [Slot.isLine, hp] at h; cases h
  | some p =>
    rw [Slot.isLine, hp] at h ⊢
    simp only [Option.any_some, decide_eq_true_eq, decide_eq_false_iff_not] at h ⊢
    rwa [h]

theorem fileInput_fill (slot : Slot) {env : Env} {input text k : Str} {before after : List Str} {reg reg' : Registry}
    (hread : env.read input = some text) (hlines : getlines text = before ++ k :: after) (hafter : after ≠ [])
    (hk : slot.isLine k = true) (h : fileInput env input reg = .ok reg') :
    slot.FiledAt input (before.length + 1) reg' := by
  obtain ⟨line, lines, hcons⟩ := List.exists_cons_of_ne_nil (show before ++ k :: after ≠ [] by simp)
  rw [fileInput_cons hread (hlines.trans hcons)] at h
  have hfill := slot.readLines_fill (n := 0) hcons.symm hafter hk h
  rwa [show 0 + 1 + before.length = before.length + 1 by omega] at hfill

theorem fileInput_keep (slot : Slot) {env : Env} {input text : Str} {reg reg' : Registry}
    (hread : env.read input = some text) (hnone : ∀ l ∈ (getlines text).dropLast, slot.isLine l = false)
    (h : fileInput env input reg = .ok reg') : slot.get reg' = slot.get reg := by
  obtain ⟨text', hread', ⟨-, rfl⟩ | ⟨line, lines, hlines, h⟩⟩ := fileInput_ok h
  · rfl
  · obtain rfl := Option.some.inj (hread.symm.trans hread')
    rw [hlines] at hnone
    exact slot.readLines_keep (n := 0) hnone h

theorem fileInput_full (slot : Slot) {env : Env} {input : Str} {reg reg' : Registry} {arg : ArgInstance}
    (hfull : slot.get reg = some arg) (h : fileInput env input reg = .ok reg') : slot.get reg' = some arg := by
  obtain ⟨text, -, ⟨-, rfl⟩ | ⟨line, lines, -, h⟩⟩ := fileInput_ok h
  · exact hfull
  · exact slot.readLines_full (n := 0) hfull h

theorem fileInput_origin (slot : Slot) {env : Env} {input : Str} {reg reg' : Registry} {arg : ArgInstance}
    (harg : slot.get reg' = some arg) (h : fileInput env input reg = .ok reg') :
    slot.get reg = some arg ∨ arg.fileName = input := by
  obtain ⟨text, -, ⟨-, rfl⟩ | ⟨line, lines, -, h⟩⟩ := fileInput_ok h
  · exact .inl harg
  · exact slot.readLines_origin (n := 0) harg h

theorem unlines_tail_eq_iff {body : List Str} : unlines body.tail = unlines body ↔ body = [] := by
  constructor
  · intro h
    cases body with
    | nil => rfl
    | cons l body =>
      have hlen := congrArg List.length h
      rw [List.tail_cons, unlines_cons] at hlen
      simp at hlen
      omega
  · rintro rfl
    rfl

theorem outputToFile_cal {fuel n : ℕ} {read : Str → Option Str} {st : Customize.State}
    (h : Customize.atMarker st n .cal = true) (text : Str) :
    (∃ st' ret, Customize.outputToFile fuel read n st = .ok (st', text, ret)) ↔
      Customize.calRegion read st.region = .ok text := by
  rw [Customize.outputToFile, if_pos h]
  constructor
  · rintro ⟨st', ret, heq⟩
    obtain ⟨text', hcal, heq⟩ := bind_eq_ok.1 heq
    cases heq
    exact hcal
  · intro hcal
    exact ⟨st, 1, bind_eq_ok.2 ⟨text, hcal, rfl⟩⟩

section
variable {env : Env} {base user baseText userText : Str} {reg₁ reg : Registry}

theorem foldlM_two (h : [base, user].foldlM (fun reg input => fileInput env input reg) Registry.init = .ok reg) :
    ∃ reg₁, fileInput env base .init = .ok reg₁ ∧ fileInput env user reg₁ = .ok reg := by
  rw [List.foldlM_cons] at h
  obtain ⟨reg₁, h₁, h⟩ := bind_eq_ok.1 h
  obtain ⟨reg₂, h₂, h⟩ := bind_eq_ok.1 h
  cases h
  exact ⟨reg₁, h₁, h₂⟩

variable (hread₁ : fileInput env base .init = .ok reg₁) (hread : fileInput env user reg₁ = .ok reg)
include hread₁ hread

/-- The marker is filed when the base is read, and stays. -/
theorem atMarker_cal {cal : Str} {n : ℕ} (hbase : env.read base = some baseText)
    (hcal : (getlines baseText)[n]? = some cal) (hcal' : isCal cal = true) (hnext : n + 1 < (getlines baseText).length)
    (gmemCounter memIdOffset : ℕ) :
    Customize.atMarker { reg.customize with gmemCounter := gmemCounter, memIdOffset := memIdOffset } n .cal = true := by
  have hsplit : getlines baseText = (getlines baseText).take n ++ cal :: (getlines baseText).drop (n + 1) := by
    obtain ⟨hn, rfl⟩ := List.getElem?_eq_some_iff.1 hcal
    rw [← List.drop_eq_getElem_cons hn, List.take_append_drop]
  have hafter : (getlines baseText).drop (n + 1) ≠ [] := by
    rw [Ne, List.drop_eq_nil_iff]; omega
  obtain ⟨arg, harg, -, hln⟩ := fileInput_fill calSlot hbase hsplit hafter hcal' hread₁
  have hfull : reg.customize.marker .cal = some arg := fileInput_full calSlot harg hread
  rw [List.length_take, Nat.min_eq_left (by omega)] at hln
  simp [Customize.atMarker, hfull, hln]

variable {before body after : List Str} {start stop : Str} (hbase : env.read base = some baseText)
  (huser : env.read user = some userText) (hlines : getlines userText = before ++ start :: (body ++ stop :: after))
  (hstart : isStart start = true)
include hbase huser hlines hstart

omit hread₁ hbase in
/-- With both ends filed, the emitted lines are those of the region without the first. -/
theorem calRegion_inner (hstop : isEnd stop = true) (hafter : after ≠ []) :
    Customize.calRegion env.read reg.customize.region = .ok (unlines body.tail) := by
  obtain ⟨argStart, hargStart, hnameStart, hlnStart⟩ := fileInput_fill startSlot huser hlines (by simp) hstart hread
  have hlines' : getlines userText = (before ++ start :: body) ++ stop :: after := by rw [hlines]; simp
  obtain ⟨argEnd, hargEnd, hnameEnd, hlnEnd⟩ := fileInput_fill endSlot huser hlines' hafter hstop hread
  rw [List.length_append, List.length_cons] at hlnEnd
  exact calRegion_eq hargStart hargEnd hnameStart hnameEnd hlnStart (by omega) huser hlines

/-- An end in the last line is not filed; what is filed for it, if anything, is from the base file. -/
theorem calRegion_last (hone : ∀ l ∈ before ++ body ++ after, isStart l = false ∧ isEnd l = false) (hafter : after = [])
    (text : Str) : Customize.calRegion env.read reg.customize.region ≠ .ok text := by
  subst hafter
  obtain ⟨argStart, hargStart, hnameStart, -⟩ := fileInput_fill startSlot huser hlines (by simp) hstart hread
  have hstartSome : reg.customize.region.start = some argStart := hargStart
  have hnone : ∀ l ∈ (getlines userText).dropLast, endSlot.isLine l = false := by
    intro l hl
    rw [hlines, show before ++ start :: (body ++ [stop]) = (before ++ start :: body) ++ [stop] by simp,
      List.dropLast_concat] at hl
    rcases List.mem_append.1 hl with hl | hl
    · exact (hone l (by simp [hl])).2
    · rcases List.mem_cons.1 hl with rfl | hl
      · exact Slot.not_isLine hstart (by decide)
      · exact (hone l (by simp [hl])).2
  have hkeep := fileInput_keep endSlot huser hnone hread
  intro hok
  rw [Customize.calRegion, hstartSome] at hok
  cases hend : endSlot.get reg with
  | none =>
    have hstopNone : reg.customize.region.stop = none := hend
    rw [hstopNone] at hok
    cases hok
  | some argEnd =>
    have hstopSome : reg.customize.region.stop = some argEnd := hend
    have hfiled := hkeep.symm.trans hend
    have hname : argEnd.fileName = base :=
      (fileInput_origin endSlot hfiled hread₁).resolve_left (by simp [endSlot, Registry.init, Customize.State.init])
    have hne : user ≠ base := by
      rintro rfl
      obtain rfl := Option.some.inj (huser.symm.trans hbase)
      rw [fileInput_keep endSlot huser hnone hread₁] at hfiled
      cases hfiled
    rw [hstopSome] at hok
    simp only [hname, hnameStart, hne, ne_eq, not_false_eq_true, if_true] at hok
    cases hok

end

/-- **The region**: for a user file with one start and one later end, and a base file with a marker line that another
    line follows, whose pragmas are all accepted, the marker emits the lines between iff there are none and the end
    is not the last line of the user file. The counters do not matter. This is what the customize interface prints for
    the marker line: another interface may answer for that line too, and print beside it. Neither file is an output
    file. -/
theorem regionCopied_iff {env : Env} {base user baseText userText : Str} {before body after : List Str}
    {start stop cal : Str} {n : ℕ} {reg : Registry} (hbase : env.read base = some baseText)
    (huser : env.read user = some userText)
    (hlines : getlines userText = before ++ start :: (body ++ stop :: after)) (hstart : isStart start = true)
    (hstop : isEnd stop = true) (hone : ∀ l ∈ before ++ body ++ after, isStart l = false ∧ isEnd l = false)
    (hcal : (getlines baseText)[n]? = some cal) (hcal' : isCal cal = true) (hnext : n + 1 < (getlines baseText).length)
    (hreg : [base, user].foldlM (fun reg input => fileInput env input reg) Registry.init = .ok reg)
    (fuel gmemCounter memIdOffset : ℕ) :
    (∃ st ret, Customize.outputToFile fuel env.read n
        { reg.customize with gmemCounter := gmemCounter, memIdOffset := memIdOffset } =
      .ok (st, unlines body, ret)) ↔ body = [] ∧ after ≠ [] := by
  obtain ⟨reg₁, hread₁, hread⟩ := foldlM_two hreg
  rw [outputToFile_cal (atMarker_cal hread₁ hread hbase hcal hcal' hnext _ _)]
  by_cases hafter : after = []
  · simp only [hafter, ne_eq, not_true_eq_false, and_false, iff_false]
    exact calRegion_last hread₁ hread hbase huser hlines hstart hone hafter _
  · have hregion := calRegion_inner hread huser hlines hstart hstop hafter
    rw [hregion, Except.ok.injEq, unlines_tail_eq_iff]
    exact ⟨fun h => ⟨h, hafter⟩, And.left⟩

def markedBase : Str := "#pragma THUNDERHLS USER_APPLY_CAL\n\n".toList

/-- A user file with the given text between the two pragmas, and a last line. -/
def regionUser (body : Str) : Str :=
  "#pragma THUNDERHLS USER_APPLY_CODE_START\n".toList ++ body ++
    "#pragma THUNDERHLS USER_APPLY_CODE_END\n\n".toList

def regionEnv (body : Str) : Env where
  read file := if file = "user.cpp".toList then some (regionUser body) else some markedBase
  uninitLn _ := 0

theorem regionCopied_iff_empty : ∃ reg,
    ["base.cpp".toList, "user.cpp".toList].foldlM (fun reg input => fileInput (regionEnv []) input reg) Registry.init =
      .ok reg ∧
    ((∃ st ret, Customize.outputToFile 0 (regionEnv []).read 0
        { reg.customize with gmemCounter := 6, memIdOffset := 0 } =
      .ok (st, unlines [], ret)) ↔ ([] : List Str) = [] ∧ [[]] ≠ ([] : List Str)) :=
  ⟨_, rfl, @regionCopied_iff (regionEnv []) "base.cpp".toList "user.cpp".toList markedBase (regionUser []) [] [] [[]]
    _ _ _ 0 _ rfl rfl rfl (by decide) (by decide) (by decide) rfl (by decide) (by decide) rfl 0 6 0⟩

/-- A region of one line is not copied. -/
theorem regionNotCopied :
    ¬ ∀ (env : Env) (base user baseText userText : Str) (before body after : List Str) (start stop cal : Str) (n : ℕ)
      (reg : Registry), env.read base = some baseText → env.read user = some userText →
      getlines userText = before ++ start :: (body ++ stop :: after) → isStart start = true → isEnd stop = true →
      (∀ l ∈ before ++ body ++ after, isStart l = false ∧ isEnd l = false) → (getlines baseText)[n]? = some cal →
      isCal cal = true → n + 1 < (getlines baseText).length →
      [base, user].foldlM (fun reg input => fileInput env input reg) Registry.init = .ok reg →
      ∃ st ret, Customize.outputToFile 0 env.read n reg.customize = .ok (st, unlines body, ret) := by
  intro h
  obtain ⟨st, ret, hout⟩ := h (regionEnv "float x;\n".toList) "base.cpp".toList "user.cpp".toList markedBase
    (regionUser "float x;\n".toList) [] ["float x;".toList] [[]] _ _ _ 0 _ rfl rfl rfl (by decide) (by decide)
    (by decide) rfl (by decide) (by decide) rfl
  have htext := (outputToFile_cal (by decide) _).1 ⟨st, ret, hout⟩
  have hnil : (Except.ok (unlines ["float x;".toList]) : Except Stop Str) = .ok [] := htext.symm.trans rfl
  cases hnil

end ThundeRiNG.Automation
