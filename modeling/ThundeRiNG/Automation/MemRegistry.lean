import Mathlib.Data.List.Nodup
import ThundeRiNG.Automation.CodeGen

/-!
# The order of the memory pragmas (`mem_interface.cpp:36-167`)

An argument of the memory interface is declared, gets its attribute and is then instantiated, any number of times. The
three handlers keep this order by a mask of what has come: the attribute asks for the mask of the stages before it
exactly, an instance asks for these bits among others. `Ordered` says what the list holds after any calls, beside the
number of attributes accepted for each name (`Ordered.run`).

| here | there |
| --- | --- |
| `Call`             | a call of a handler through `local_parser`, with the id of its entry |
| `Stage`            | `mask` and the two fields that are filled after `input` |
| `acceptedAttrs`    | calls of `register_mem_attr` that returned 0 |
-/

namespace ThundeRiNG.Automation.MemInterface

/-! ## Calls -/

inductive Handler where
  | arg
  | attr
  | inst
deriving DecidableEq, Repr

def Handler.id : Handler → ℕ
  | .arg => PRAGMA_ID_MEM_ARG
  | .attr => PRAGMA_ID_MEM_ATTR
  | .inst => PRAGMA_ID_MEM_INSTANCE

def Handler.register : Handler → ArgInstance → List MemArgInstance → ℤ × List MemArgInstance
  | .arg => registerMemArg
  | .attr => registerMemAttr
  | .inst => registerMemInstance

structure Call where
  handler : Handler
  item : ArgInstance
  id_eq : item.id = handler.id

def Call.ret (c : Call) (memList : List MemArgInstance) : ℤ := (c.handler.register c.item memList).1

def Call.next (c : Call) (memList : List MemArgInstance) : List MemArgInstance :=
  (c.handler.register c.item memList).2

def run (calls : List Call) (memList : List MemArgInstance) : List MemArgInstance :=
  calls.foldl (fun memList c => c.next memList) memList

def Call.acceptsAttr (c : Call) (name : Str) (memList : List MemArgInstance) : Bool :=
  c.handler = .attr && c.item.name = name && c.ret memList = 0

/-- The attributes accepted for `name` in a run. -/
def acceptedAttrs (name : Str) : List Call → List MemArgInstance → ℕ
  | [], _ => 0
  | c :: calls, memList => (c.acceptsAttr name memList).toNat + acceptedAttrs name calls (c.next memList)

/-! ## What a call can do -/

def newArg (item : ArgInstance) : MemArgInstance :=
  { mask := 1, name := item.name, input := item, attr := none, instances := [] }

/-- What an accepted call does to the entry of its name. -/
def Handler.Advances : Handler → ArgInstance → MemArgInstance → MemArgInstance → Prop
  | .arg, _, _, _ => False
  | .attr, item, e, e' => e.mask = 1 ∧ e' = { e with mask := e.mask ||| 2, attr := some item }
  | .inst, item, e, e' => e.mask &&& 3 = 3 ∧ e' = { e with mask := e.mask ||| 4, instances := e.instances ++ [item] }

section
variable {memList : List MemArgInstance} {arg : Str} {e : MemArgInstance}

theorem getMemArg_isSome : (getMemArg memList arg).isSome ↔ arg ∈ memList.map MemArgInstance.name := by
  rw [getMemArg, List.find?_isSome, List.mem_map]
  simp only [decide_eq_true_eq, @eq_comm _ arg]

/-- The entry that is found is the one that is written to. -/
theorem getMemArg_split (h : getMemArg memList arg = some e) : ∃ before after,
    memList = before ++ e :: after ∧ e.name = arg ∧ ∀ f, setMemArg arg f memList = before ++ f e :: after := by
  induction memList with
  | nil => cases h
  | cons d memList ih =>
    rw [getMemArg, List.find?_cons] at h
    by_cases hd : arg = d.name
    · obtain rfl : d = e := by simpa [hd] using h
      refine ⟨[], memList, rfl, hd.symm, fun f => ?_⟩
      rw [setMemArg, if_pos hd]
      rfl
    · rw [decide_eq_false hd] at h
      obtain ⟨before, after, rfl, hname, hset⟩ := ih h
      refine ⟨d :: before, after, rfl, hname, fun f => ?_⟩
      rw [setMemArg, if_neg hd, hset]
      rfl

theorem setMemArg_setMemArg {f g : MemArgInstance → MemArgInstance} (hf : ∀ e, (f e).name = e.name)
    (memList : List MemArgInstance) : setMemArg arg g (setMemArg arg f memList) = setMemArg arg (g ∘ f) memList := by
  induction memList with
  | nil => rfl
  | cons d memList ih =>
    by_cases hd : arg = d.name
    · rw [setMemArg, if_pos hd, setMemArg, if_pos (by rw [hf, hd]), setMemArg, if_pos hd]
      rfl
    · rw [setMemArg, if_neg hd, setMemArg, if_neg hd, setMemArg, if_neg hd, ih]

end

section
variable {item : ArgInstance} (memList : List MemArgInstance)

/-- What an accepted call did to the list: the entry of the name is advanced in its place. -/
def Advanced (h : Handler) (item : ArgInstance) (memList memList' : List MemArgInstance) : Prop :=
  ∃ before e e' after, memList = before ++ e :: after ∧ e.name = item.name ∧ h.Advances item e e' ∧
    memList' = before ++ e' :: after

theorem registerMemArg_cases (hid : item.id = PRAGMA_ID_MEM_ARG) :
    registerMemArg item memList = (-1, memList) ∨
      item.name ∉ memList.map MemArgInstance.name ∧ registerMemArg item memList = (0, memList ++ [newArg item]) := by
  have hdep : findInDependency item.id = some 0 := by rw [hid]; decide
  unfold registerMemArg
  split
  · exact .inl rfl
  · rename_i hnew
    rw [hdep]
    exact .inr ⟨mt getMemArg_isSome.2 hnew, rfl⟩

theorem registerMemAttr_cases (hid : item.id = PRAGMA_ID_MEM_ATTR) :
    registerMemAttr item memList = (-1, memList) ∨
      ∃ memList', registerMemAttr item memList = (0, memList') ∧ Advanced .attr item memList memList' := by
  have hdep : findInDependency item.id = some 1 := by rw [hid]; decide
  have hmask : getDependencyMask item.id = 1 := by rw [hid]; decide
  unfold registerMemAttr
  split
  · exact .inl rfl
  · rename_i e hreg
    split
    · exact .inl rfl
    · rename_i he
      rw [hmask, not_not] at he
      obtain ⟨before, after, hsplit, hname, hset⟩ := getMemArg_split hreg
      rw [hdep]
      refine .inr ⟨_, rfl, before, e, { e with mask := e.mask ||| 2, attr := some item }, after, hsplit, hname,
        ⟨he, rfl⟩, ?_⟩
      -- the attribute is written twice
      refine (setMemArg_setMemArg ?_ memList).trans (hset _)
      exact fun _ => rfl

theorem registerMemInstance_cases (hid : item.id = PRAGMA_ID_MEM_INSTANCE) :
    registerMemInstance item memList = (-1, memList) ∨
      ∃ memList', registerMemInstance item memList = (0, memList') ∧ Advanced .inst item memList memList' := by
  have hdep : findInDependency item.id = some 2 := by rw [hid]; decide
  have hmask : getDependencyMask item.id = 3 := by rw [hid]; decide
  unfold registerMemInstance
  split
  · exact .inl rfl
  · rename_i e hreg
    split
    · exact .inl rfl
    · rename_i he
      rw [hmask, not_not] at he
      obtain ⟨before, after, hsplit, hname, hset⟩ := getMemArg_split hreg
      rw [hdep]
      exact .inr ⟨_, rfl, before, e, _, after, hsplit, hname, ⟨he, rfl⟩, hset _⟩

end

/-- A call is rejected and does nothing, declares a new name, or advances the entry of its name. -/
theorem Call.cases (c : Call) (memList : List MemArgInstance) :
    c.ret memList = -1 ∧ c.next memList = memList ∨
    c.ret memList = 0 ∧ c.handler = .arg ∧ c.item.name ∉ memList.map MemArgInstance.name ∧
      c.next memList = memList ++ [newArg c.item] ∨
    c.ret memList = 0 ∧ Advanced c.handler c.item memList (c.next memList) := by
  obtain ⟨handler, item, hid⟩ := c
  unfold Call.ret Call.next
  cases handler with
  | arg =>
    rcases registerMemArg_cases memList hid with h | ⟨hnew, h⟩
    · exact .inl (by simp [Handler.register, h])
    · exact .inr (.inl (by simp only [Handler.register, h]; exact ⟨trivial, trivial, hnew, trivial⟩))
  | attr =>
    rcases registerMemAttr_cases memList hid with h | ⟨memList', h, hadv⟩
    · exact .inl (by simp [Handler.register, h])
    · exact .inr (.inr (by simp only [Handler.register, h]; exact ⟨trivial, hadv⟩))
  | inst =>
    rcases registerMemInstance_cases memList hid with h | ⟨memList', h, hadv⟩
    · exact .inl (by simp [Handler.register, h])
    · exact .inr (.inr (by simp only [Handler.register, h]; exact ⟨trivial, hadv⟩))

/-! ## The order -/

/-- How far the entry is, `n` attributes having been accepted for its name. -/
inductive Stage (n : ℕ) (e : MemArgInstance) : Prop
  | declared (hmask : e.mask = 1) (hn : n = 0) (hinst : e.instances = [])
  | described (hmask : e.mask = 3) (hn : n = 1) (hinst : e.instances = [])
  | instantiated (hmask : e.mask = 7) (hn : n = 1) (hinst : e.instances ≠ [])

structure Ordered (attrs : Str → ℕ) (memList : List MemArgInstance) : Prop where
  nodup : (memList.map MemArgInstance.name).Nodup
  stage : ∀ e ∈ memList, Stage (attrs e.name) e
  absent : ∀ name ∉ memList.map MemArgInstance.name, attrs name = 0

theorem Ordered.nil : Ordered (fun _ => 0) [] where
  nodup := List.nodup_nil
  stage := by simp
  absent := by simp

theorem Stage.advances {h : Handler} {item : ArgInstance} {e e' : MemArgInstance} {n : ℕ} (hstage : Stage n e)
    (hadv : h.Advances item e e') : e'.name = e.name ∧ Stage (n + (decide (h = .attr)).toNat) e' := by
  cases h with
  | arg => exact hadv.elim
  | attr =>
    obtain ⟨hmask, rfl⟩ := hadv
    cases hstage with
    | declared _ hn hinst => exact ⟨rfl, .described (by simp [hmask]) (by simp [hn]) hinst⟩
    | described hm => simp [hmask] at hm
    | instantiated hm => simp [hmask] at hm
  | inst =>
    obtain ⟨hmask, rfl⟩ := hadv
    cases hstage with
    | declared hm => simp [hm] at hmask
    | described hm hn => exact ⟨rfl, .instantiated (by simp [hm]) (by simpa using hn) (by simp)⟩
    | instantiated hm hn => exact ⟨rfl, .instantiated (by simp [hm]) (by simpa using hn) (by simp)⟩

section
variable {attrs : Str → ℕ} {memList : List MemArgInstance}

theorem Ordered.declare (h : Ordered attrs memList) {item : ArgInstance}
    (hnew : item.name ∉ memList.map MemArgInstance.name) : Ordered attrs (memList ++ [newArg item]) where
  nodup := by
    rw [List.map_append, List.nodup_append]
    refine ⟨h.nodup, by simp, ?_⟩
    rintro name hname _ hitem rfl
    obtain rfl : name = item.name := by simpa [newArg] using hitem
    exact hnew hname
  stage e he := by
    rcases List.mem_append.1 he with he | he
    · exact h.stage e he
    · obtain rfl := List.mem_singleton.1 he
      exact .declared rfl (h.absent _ hnew) rfl
  absent name hname := by
    rw [List.map_append, List.mem_append, not_or] at hname
    exact h.absent name hname.1

/-- The entry that is advanced is the only one of its name. -/
theorem Ordered.advance (h : Ordered attrs memList) {c : Call} {memList' : List MemArgInstance}
    (hadv : Advanced c.handler c.item memList memList') :
    Ordered (fun name => attrs name + (decide (c.handler = .attr ∧ c.item.name = name)).toNat) memList' := by
  obtain ⟨before, e, e', after, rfl, hname, hadv, rfl⟩ := hadv
  obtain ⟨hname', hstage⟩ := (h.stage e (by simp)).advances hadv
  have hnames : (before ++ e' :: after).map MemArgInstance.name = (before ++ e :: after).map MemArgInstance.name := by
    simp [hname']
  refine ⟨hnames ▸ h.nodup, fun d hd => ?_, fun name habsent => ?_⟩
  · by_cases hd' : d = e'
    · subst hd'
      simpa [hname', hname] using hstage
    · have hmem : d ∈ before ∨ d ∈ after := by simpa [hd'] using hd
      have hne : c.item.name ≠ d.name := by
        intro heq
        have hnodup := h.nodup
        rw [List.map_append, List.map_cons, List.nodup_middle, List.nodup_cons] at hnodup
        refine hnodup.1 ?_
        rw [hname, heq, ← List.map_append]
        exact List.mem_map_of_mem (by simpa using hmem)
      have hother := h.stage d (by rcases hmem with hmem | hmem <;> simp [hmem])
      simpa [hne] using hother
  · rw [hnames] at habsent
    have hne : c.item.name ≠ name := by
      rintro rfl
      exact habsent (by simp [hname])
    simp [h.absent name habsent, hne]

/-- One call keeps the order, with its attribute counted if it was accepted. -/
theorem Ordered.next (h : Ordered attrs memList) (c : Call) :
    Ordered (fun name => attrs name + (c.acceptsAttr name memList).toNat) (c.next memList) := by
  rcases c.cases memList with ⟨hret, hnext⟩ | ⟨-, harg, hnew, hnext⟩ | ⟨hret, hadv⟩
  · rw [hnext]
    simpa [Call.acceptsAttr, hret] using h
  · rw [hnext]
    simpa [Call.acceptsAttr, harg] using h.declare hnew
  · simpa [Call.acceptsAttr, hret] using h.advance hadv

theorem Ordered.run (h : Ordered attrs memList) (calls : List Call) :
    Ordered (fun name => attrs name + acceptedAttrs name calls memList) (run calls memList) := by
  induction calls generalizing attrs memList with
  | nil => exact h
  | cons c calls ih =>
    have hrest := ih (h.next c)
    simp only [Nat.add_assoc] at hrest
    exact hrest

theorem Stage.mask_cases {n : ℕ} {e : MemArgInstance} (h : Stage n e) :
    (e.mask = 1 ∨ e.mask = 3 ∨ e.mask = 7) ∧ (e.instances ≠ [] ↔ e.mask = 7) := by
  cases h with
  | declared hmask _ hinst => simp [hmask, hinst]
  | described hmask _ hinst => simp [hmask, hinst]
  | instantiated hmask _ hinst => simp [hmask, hinst]

theorem Stage.testBit {n : ℕ} {e : MemArgInstance} (h : Stage n e) : n = (e.mask.testBit 1).toNat := by
  cases h with
  | declared hmask hn => rw [hmask, hn]; rfl
  | described hmask hn => rw [hmask, hn]; rfl
  | instantiated hmask hn => rw [hmask, hn]; rfl

/-- A name has as many attributes as an entry of it with bit 1. -/
theorem Ordered.attrs_pos (h : Ordered attrs memList) (name : Str) :
    (0 < attrs name ↔ ∃ e ∈ memList, e.name = name ∧ e.mask.testBit 1) ∧ attrs name ≤ 1 := by
  by_cases hname : name ∈ memList.map MemArgInstance.name
  · obtain ⟨e, he, rfl⟩ := List.mem_map.1 hname
    have hn := (h.stage e he).testBit
    refine ⟨⟨fun hpos => ⟨e, he, rfl, ?_⟩, ?_⟩, ?_⟩
    · rw [hn] at hpos
      exact Bool.toNat_eq_one.1 (Nat.le_antisymm (Bool.toNat_le _) hpos)
    · rintro ⟨d, hd, hname, hbit⟩
      rw [← hname, (h.stage d hd).testBit, hbit]
      exact Nat.one_pos
    · exact hn ▸ Bool.toNat_le _
  · rw [h.absent name hname]
    refine ⟨⟨fun hpos => absurd hpos (Nat.lt_irrefl 0), ?_⟩, Nat.zero_le _⟩
    rintro ⟨e, he, rfl, -⟩
    exact absurd (List.mem_map_of_mem he) hname

end

/-- **The registry**: after any calls the names differ, an entry has been declared, then described once, then
    instantiated, in this order and as its mask says, and a rejected call changes nothing. -/
theorem memList_ordered (calls : List Call) :
    ((run calls []).map MemArgInstance.name).Nodup ∧
    (∀ e ∈ run calls [], (e.mask = 1 ∨ e.mask = 3 ∨ e.mask = 7) ∧ (e.instances ≠ [] ↔ e.mask = 7)) ∧
    (∀ name, (0 < acceptedAttrs name calls [] ↔ ∃ e ∈ run calls [], e.name = name ∧ e.mask.testBit 1) ∧
      acceptedAttrs name calls [] ≤ 1) ∧
    ∀ c : Call, c.ret (run calls []) = -1 → c.next (run calls []) = run calls [] := by
  have h := Ordered.nil.run calls
  simp only [Nat.zero_add] at h
  refine ⟨h.nodup, fun e he => (h.stage e he).mask_cases, h.attrs_pos, fun c hret => ?_⟩
  rcases c.cases (run calls []) with ⟨-, hnext⟩ | ⟨hzero, -⟩ | ⟨hzero, -⟩
  · exact hnext
  · rw [hzero] at hret; cases hret
  · rw [hzero] at hret; cases hret

/-! ## The registry of the program -/

theorem func_memList {item : ParserItem} (h : item ∈ localItem) (arg : ArgInstance) (hid : arg.id = item.id)
    (reg : Registry) : (item.func arg reg).2.memList = reg.memList ∨
      ∃ c : Call, (item.func arg reg).2.memList = c.next reg.memList := by
  rcases func_of_mem_localItem h with h | h | ⟨f, hf⟩ | ⟨f, hf⟩
  · obtain rfl := List.mem_singleton.1 h
    exact .inl rfl
  · simp only [memInterfaceParser, List.mem_cons, List.not_mem_nil, or_false] at h
    rcases h with rfl | rfl | rfl
    · exact .inr ⟨⟨.arg, arg, hid⟩, rfl⟩
    · exact .inr ⟨⟨.attr, arg, hid⟩, rfl⟩
    · exact .inr ⟨⟨.inst, arg, hid⟩, rfl⟩
  · exact .inl (by rw [hf]; rfl)
  · exact .inl (by rw [hf]; rfl)

/-- What the program has in its list was made by such calls, so its entries are in order. -/
theorem inputs_ordered {env : Env} {inputs : List Str} {reg : Registry}
    (h : inputs.foldlM (fun reg input => fileInput env input reg) Registry.init = .ok reg) :
    ∃ calls, reg.memList = run calls [] ∧ Ordered (fun name => acceptedAttrs name calls []) reg.memList := by
  have hcalls : ∃ calls, reg.memList = run calls [] := by
    refine inputs_induction (P := fun reg => ∃ calls, reg.memList = run calls []) ?_ ⟨[], rfl⟩ h
    rintro item hmem arg reg hid ⟨calls, hreg⟩
    rcases func_memList hmem arg hid reg with hsame | ⟨c, hnext⟩
    · exact ⟨calls, hsame.trans hreg⟩
    · exact ⟨calls ++ [c], by rw [hnext, hreg, run, run, List.foldl_append]; rfl⟩
  obtain ⟨calls, hreg⟩ := hcalls
  refine ⟨calls, hreg, ?_⟩
  have horder := Ordered.nil.run calls
  simp only [Nat.zero_add] at horder
  rwa [hreg]

end ThundeRiNG.Automation.MemInterface
