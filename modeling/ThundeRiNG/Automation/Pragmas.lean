import Mathlib.Data.List.Nodup
import ThundeRiNG.Automation.Expansion
import ThundeRiNG.Automation.Region

/-!
# What counts as a pragma (`parser.cpp:33-100`, the `local_parser` tables)

A line is taken without its whitespace, and the first keyword in the order of the tables whose pragma stands in it
wins, wherever it stands. That is stated here over the tokens of the line, their concatenation being the line without
whitespace; the lines that a reader of the tables would write are a special case (`calls_grammar_iff`).

| here | there |
| --- | --- |
| `keywords`, `earlier` | the keywords in the order in which `parser_init` registers them |
| `pragmaText`          | `pragma_string` without whitespace |
| `Calls`               | the call of `func` in `identify_pragmas` (`:74-94`) |
-/

namespace ThundeRiNG.Automation

open Text

def keywords : List Str := localItem.map ParserItem.keyword

/-- The keywords registered before `K`. -/
def earlier (K : Str) : List Str := keywords.takeWhile (· ≠ K)

def PERFIX : Str := "#pragmaTHUNDERHLS".toList

def pragmaText (K : Str) : Str := PERFIX ++ K

/-- The handler of `K` is called with argument `a`. -/
def Calls (line K a : Str) : Prop := ∃ item, pragmaOf line = some (item, a) ∧ item.keyword = K

/-- The line split on whitespace. -/
def tokens (line : Str) : List Str := (line.splitOnP isspace).filter (· ≠ [])

/-! ## Tokens -/

theorem flatten_splitOnP (line : Str) : (line.splitOnP isspace).flatten = strip line := by
  induction line with
  | nil => rfl
  | cons c line ih =>
    rw [List.splitOnP_cons_eq_if_modifyHead, strip, List.filter_cons]
    by_cases hc : isspace c
    · simpa [hc, strip] using ih
    · obtain ⟨l, ls, hl⟩ := List.exists_cons_of_ne_nil (List.splitOnP_ne_nil isspace line)
      rw [hl] at ih
      simpa [hc, hl, strip] using ih

theorem flatten_filter_ne_nil (ls : List Str) : (ls.filter (· ≠ [])).flatten = ls.flatten := by
  induction ls with
  | nil => rfl
  | cons l ls ih =>
    by_cases hl : l = []
    · simpa [hl] using ih
    · simpa [hl] using ih

/-- The tokens in a row are the line without whitespace. -/
theorem flatten_tokens (line : Str) : (tokens line).flatten = strip line := by
  rw [tokens, flatten_filter_ne_nil, flatten_splitOnP]

/-! ## The tables -/

/-- No keyword has a blank or a `#`. -/
theorem keywords_plain : ∀ K ∈ keywords, strip K = K ∧ '#' ∉ K := by
  simp only [keywords, localItem, kernelInterfaceParser, memInterfaceParser, customizeInterfaceParser,
    makefileInterfaceParser, ARG_ITEM, List.map_cons, List.map_nil, List.cons_append, List.nil_append]
  repeat rewrite [String.toList_ofList]
  decide

def USER_APPLY_WRITE : Str := "USER_APPLY_WRITE".toList
def TO_STREAM : Str := "_TO_STREAM".toList

/-- A keyword comes after those that begin with it, and only one begins another. -/
theorem keywords_pairwise : keywords.Pairwise fun k K =>
    ¬ k <+: K ∧ (K <+: k → K = USER_APPLY_WRITE ∧ k = USER_APPLY_WRITE ++ TO_STREAM) := by
  unfold USER_APPLY_WRITE TO_STREAM
  simp only [keywords, localItem, kernelInterfaceParser, memInterfaceParser, customizeInterfaceParser,
    makefileInterfaceParser, ARG_ITEM, List.map_cons, List.map_nil, List.cons_append, List.nil_append]
  repeat rewrite [String.toList_ofList]
  decide +kernel

theorem earlier_eq {K : Str} {before after : List Str} (h : keywords = before ++ K :: after) : earlier K = before := by
  have hnodup : keywords.Nodup := keywords_nodup
  rw [h] at hnodup
  have hne : ∀ k ∈ before, decide (k ≠ K) = true := by
    rintro k hk
    refine decide_eq_true ?_
    rintro rfl
    exact (List.nodup_append.1 hnodup).2.2 k hk k List.mem_cons_self rfl
  rw [earlier, h, List.takeWhile_append_of_pos hne, List.takeWhile_cons_of_neg (by simp), List.append_nil]

theorem earlier_of_split {item : ParserItem} {before after : List ParserItem}
    (h : localItem = before ++ item :: after) : earlier item.keyword = before.map ParserItem.keyword := by
  have hsplit : keywords = before.map ParserItem.keyword ++ item.keyword :: after.map ParserItem.keyword := by
    rw [keywords, h]; simp
  exact earlier_eq hsplit

theorem keywords_split {K : Str} (h : K ∈ keywords) : ∃ after, keywords = earlier K ++ K :: after := by
  obtain ⟨before, after, hsplit⟩ := List.append_of_mem h
  exact ⟨after, by rw [earlier_eq hsplit, hsplit]⟩

theorem not_prefix_of_earlier {K k : Str} (hK : K ∈ keywords) (hk : k ∈ earlier K) :
    ¬ k <+: K ∧ (K <+: k → K = USER_APPLY_WRITE ∧ k = USER_APPLY_WRITE ++ TO_STREAM) := by
  obtain ⟨after, hsplit⟩ := keywords_split hK
  have hpair := keywords_pairwise
  rw [hsplit] at hpair
  exact (List.pairwise_append.1 hpair).2.2 k hk K List.mem_cons_self

theorem strip_pragmaString_eq {item : ParserItem} (h : item ∈ localItem) :
    strip item.pragmaString = pragmaText item.keyword := by
  have hK := (keywords_plain item.keyword (List.mem_map_of_mem h)).1
  rw [ParserItem.pragmaString, strip_append, strip_append, hK]
  rfl

/-! ## The handler that is called -/

/-- The first item with a property of its keyword. -/
theorem find_localItem {q : ParserItem → Bool} (q' : Str → Prop) (hq : ∀ i ∈ localItem, q i = true ↔ q' i.keyword)
    (item : ParserItem) :
    localItem.find? q = some item ↔ item ∈ localItem ∧ q' item.keyword ∧ ∀ k ∈ earlier item.keyword, ¬ q' k := by
  rw [List.find?_eq_some_iff_append]
  constructor
  · rintro ⟨hitem, before, after, hsplit, hbefore⟩
    have hmem : item ∈ localItem := by rw [hsplit]; simp
    have hearlier := earlier_of_split hsplit
    refine ⟨hmem, (hq item hmem).1 hitem, ?_⟩
    rw [hearlier]
    rintro k hk hk'
    obtain ⟨i, hi, rfl⟩ := List.mem_map.1 hk
    have hno := hbefore i hi
    rw [(hq i (by rw [hsplit]; simp [hi])).2 hk'] at hno
    cases hno
  · rintro ⟨hmem, hitem, hbefore⟩
    refine ⟨(hq item hmem).2 hitem, ?_⟩
    obtain ⟨before, after, hsplit⟩ := List.append_of_mem hmem
    have hearlier := earlier_of_split hsplit
    rw [hearlier] at hbefore
    refine ⟨before, after, hsplit, fun i hi => ?_⟩
    have hno := mt (hq i (by rw [hsplit]; simp [hi])).1 (hbefore _ (List.mem_map_of_mem hi))
    simpa using hno

theorem found_pragma (line : Str) {i : ParserItem} (hi : i ∈ localItem) :
    found (strip i.pragmaString) (strip line) = true ↔ pragmaText i.keyword <:+: (tokens line).flatten := by
  rw [found_iff, strip_pragmaString_eq hi, flatten_tokens]

/-- `x` stands before, and `y` after the first occurrence of `pat`. -/
def FirstAt (pat s x y : Str) : Prop := s = x ++ pat ++ y ∧ ∀ x' y', s = x' ++ pat ++ y' → x.length ≤ x'.length

theorem erase_eq {pat s x y : Str} (h : FirstAt pat s x y) : erase pat s = x ++ y := by
  rw [erase, replaceFirst, dropInfix_eq_some.2 h]
  simp

theorem exists_firstAt {pat s : Str} (h : pat <:+: s) : ∃ x y, FirstAt pat s x y := by
  cases hs : s.dropInfix? pat with
  | none => exact absurd h (dropInfix_eq_none.1 hs)
  | some p => exact ⟨p.1, p.2, dropInfix_eq_some.1 hs⟩

/-- The rule the code follows: the first registered keyword whose pragma stands in the row of tokens, and as the
    argument the row without its first occurrence. -/
theorem calls_iff (line K a : Str) :
    Calls line K a ↔ K ∈ keywords ∧ (∃ x y, FirstAt (pragmaText K) (tokens line).flatten x y ∧ a = x ++ y) ∧
      ∀ k ∈ earlier K, ¬ pragmaText k <:+: (tokens line).flatten := by
  have hfind := find_localItem (pragmaText · <:+: (tokens line).flatten) fun i hi => found_pragma line hi
  constructor
  · rintro ⟨item, hp, rfl⟩
    obtain ⟨i, hi, heq⟩ := Option.map_eq_some_iff.1 hp
    obtain ⟨rfl, rfl⟩ := Prod.mk.inj heq
    obtain ⟨hmem, hin, hearlier⟩ := (hfind i).1 hi
    obtain ⟨x, y, hxy⟩ := exists_firstAt hin
    refine ⟨List.mem_map_of_mem hmem, ⟨x, y, hxy, ?_⟩, hearlier⟩
    rw [findArg, strip_pragmaString_eq hmem, ← flatten_tokens, erase_eq hxy]
  · rintro ⟨hK, ⟨x, y, hxy, rfl⟩, hearlier⟩
    obtain ⟨item, hmem, rfl⟩ := List.mem_map.1 hK
    have hi := (hfind item).2 ⟨hmem, ⟨x, y, hxy.1.symm⟩, hearlier⟩
    refine ⟨item, ?_, rfl⟩
    simp only [pragmaOf, hi, Option.map_some, findArg]
    rw [strip_pragmaString_eq hmem, ← flatten_tokens, erase_eq hxy]

theorem not_calls_of_not_found {line : Str} (h : ¬ PERFIX <:+: (tokens line).flatten) (K a : Str) :
    ¬ Calls line K a := by
  rintro ⟨item, hp, -⟩
  rw [flatten_tokens] at h
  rw [pragmaOf_eq_none (by rw [found_iff]; exact h)] at hp
  cases hp

/-! ## Lines of the grammar -/

/-- A line of the grammar: the two words of the prefix and the keyword as tokens of their own. -/
def Grammar (line K : Str) (rest : List Str) : Prop :=
  tokens line = "#pragma".toList :: "THUNDERHLS".toList :: K :: rest

theorem Grammar.flatten_eq {line K : Str} {rest : List Str} (h : Grammar line K rest) :
    (tokens line).flatten = PERFIX ++ K ++ rest.flatten := by
  rw [h]
  simp only [List.flatten_cons, ← List.append_assoc]
  rfl

/-- In `#pragmaTHUNDERHLS`, a keyword and more text, a pragma stands at the start or in the rest, as the `#` shows. -/
theorem pragmaText_infix_iff {K k R : Str} (hK : '#' ∉ K) :
    pragmaText k <:+: PERFIX ++ K ++ R ↔ k <+: K ++ R ∨ pragmaText k <:+: R := by
  constructor
  · rintro ⟨x, y, hxy⟩
    rw [List.append_assoc] at hxy
    rcases List.append_eq_append_iff.1 hxy with ⟨a', hM, hT⟩ | ⟨c', rfl, hR⟩
    · cases x with
      | nil =>
        left
        rw [List.nil_append, List.append_assoc, pragmaText, List.append_assoc, List.append_right_inj] at hxy
        exact ⟨y, hxy⟩
      | cons c x =>
        right
        cases a' with
        | nil => exact ⟨[], y, by simpa using hT⟩
        | cons d a' =>
          -- the `#` of the occurrence is one of the letters after the first
          have hd : d = '#' := (List.cons.inj hT).1.symm
          have hmem : '#' ∈ (PERFIX ++ K).tail := by
            rw [hM, hd]; simp
          have htail : '#' ∉ PERFIX.tail := by decide
          have hsplit : (PERFIX ++ K).tail = PERFIX.tail ++ K := rfl
          rw [hsplit, List.mem_append] at hmem
          exact absurd hmem (not_or.2 ⟨htail, hK⟩)
    · right
      exact ⟨c', y, by rw [List.append_assoc, ← hR]⟩
  · rintro (⟨y, hy⟩ | ⟨x, y, rfl⟩)
    · exact ⟨[], y, by rw [List.nil_append, pragmaText, List.append_assoc, hy, List.append_assoc]⟩
    · exact ⟨PERFIX ++ K ++ x, y, by simp⟩

theorem writeToStream_mem_earlier : USER_APPLY_WRITE ++ TO_STREAM ∈ earlier USER_APPLY_WRITE := by
  unfold USER_APPLY_WRITE TO_STREAM
  simp only [earlier, keywords, localItem, kernelInterfaceParser, memInterfaceParser, customizeInterfaceParser,
    makefileInterfaceParser, ARG_ITEM, List.map_cons, List.map_nil, List.cons_append, List.nil_append]
  repeat rewrite [String.toList_ofList]
  decide

/-- Of the earlier keywords only one can be the keyword run on into the text after it. -/
theorem exists_earlier_prefix_iff {K R : Str} (hK : K ∈ keywords) :
    (∃ k ∈ earlier K, k <+: K ++ R) ↔ K = USER_APPLY_WRITE ∧ TO_STREAM <+: R := by
  constructor
  · rintro ⟨k, hk, hpre⟩
    obtain ⟨hnot, honly⟩ := not_prefix_of_earlier hK hk
    rcases List.prefix_or_prefix_of_prefix hpre (List.prefix_append K R) with h | h
    · exact absurd h hnot
    · obtain ⟨rfl, rfl⟩ := honly h
      exact ⟨rfl, (List.prefix_append_right_inj _).1 hpre⟩
  · rintro ⟨rfl, hR⟩
    exact ⟨_, writeToStream_mem_earlier, (List.prefix_append_right_inj _).2 hR⟩

/-- A line of the grammar calls the handler of its keyword, with the remaining tokens, unless they complete the
    keyword to a longer one or hold the pragma of an earlier one. -/
theorem calls_grammar_iff {line K : Str} {rest : List Str} (hK : K ∈ keywords) (h : Grammar line K rest) (a : Str) :
    Calls line K a ↔ a = rest.flatten ∧ ¬ (K = USER_APPLY_WRITE ∧ TO_STREAM <+: rest.flatten) ∧
      ∀ k ∈ earlier K, ¬ pragmaText k <:+: rest.flatten := by
  have hfirst : FirstAt (pragmaText K) (tokens line).flatten [] rest.flatten :=
    ⟨by rw [h.flatten_eq, List.nil_append, pragmaText], fun _ _ _ => Nat.zero_le _⟩
  have hargument : (∃ x y, FirstAt (pragmaText K) (tokens line).flatten x y ∧ a = x ++ y) ↔ a = rest.flatten := by
    constructor
    · rintro ⟨x, y, hxy, rfl⟩
      obtain rfl := List.eq_nil_of_length_eq_zero (Nat.le_zero.1 (hxy.2 [] rest.flatten hfirst.1))
      exact List.append_cancel_left (hxy.1.symm.trans hfirst.1)
    · rintro rfl
      exact ⟨[], rest.flatten, hfirst, rfl⟩
  have hearlier : (∀ k ∈ earlier K, ¬ pragmaText k <:+: (tokens line).flatten) ↔
      ¬ (K = USER_APPLY_WRITE ∧ TO_STREAM <+: rest.flatten) ∧ ∀ k ∈ earlier K, ¬ pragmaText k <:+: rest.flatten := by
    rw [← exists_earlier_prefix_iff hK, h.flatten_eq]
    simp only [pragmaText_infix_iff (keywords_plain K hK).2, not_or, not_exists, not_and, imp_and, forall_and]
  rw [calls_iff, hargument, hearlier]
  exact ⟨And.right, fun h' => ⟨hK, h'⟩⟩

/-- **Recognition**: over all lines, a handler is called by the rule of the first occurrence of the first keyword; on
    a line of the grammar this is its own, with the tokens after it, but for the two exceptions; and without the
    prefix in the row of tokens none is called. -/
theorem pragmas_recognised (line : Str) :
    (∀ K a, Calls line K a ↔ K ∈ keywords ∧
      (∃ x y, FirstAt (pragmaText K) (tokens line).flatten x y ∧ a = x ++ y) ∧
      ∀ k ∈ earlier K, ¬ pragmaText k <:+: (tokens line).flatten) ∧
    (∀ K ∈ keywords, ∀ rest, Grammar line K rest → ∀ a, Calls line K a ↔ a = rest.flatten ∧
      ¬ (K = USER_APPLY_WRITE ∧ TO_STREAM <+: rest.flatten) ∧ ∀ k ∈ earlier K, ¬ pragmaText k <:+: rest.flatten) ∧
    (¬ PERFIX <:+: (tokens line).flatten → ∀ K a, ¬ Calls line K a) := by
  refine ⟨calls_iff line, ?_, not_calls_of_not_found⟩
  intro K hK rest h a
  exact calls_grammar_iff hK h a

theorem pragmas_recognised_scalar :
    Calls "  #pragma THUNDERHLS  DEF_SCALAR damping".toList "DEF_SCALAR".toList "damping".toList ∧
      ∀ K a, ¬ Calls "#include <ap_int.h>".toList K a := by
  constructor
  · have hgrammar : Grammar "  #pragma THUNDERHLS  DEF_SCALAR damping".toList "DEF_SCALAR".toList ["damping".toList] := by
      unfold Grammar
      decide
    refine ((pragmas_recognised _).2.1 _ (by decide) _ hgrammar _).2 ⟨rfl, by decide, ?_⟩
    unfold earlier keywords
    decide
  · exact (pragmas_recognised _).2.2 (by decide)

/-- A pragma in a comment counts, and the comment becomes part of the argument. -/
theorem calls_comment :
    ¬ ∀ line K a, Calls line K a ↔ K ∈ keywords ∧ ∃ rest, Grammar line K rest ∧ a = rest.flatten := by
  intro h
  obtain ⟨-, rest, hgrammar, -⟩ := (h "// #pragma THUNDERHLS DEF_SCALAR x".toList "DEF_SCALAR".toList "//x".toList).1
    ⟨⟨7, "DEF_SCALAR".toList, onCustomize Customize.registerDefScalar⟩, rfl, rfl⟩
  have hhead : _ = some "#pragma".toList := congrArg List.head? hgrammar
  exact absurd hhead (by decide)

end ThundeRiNG.Automation
