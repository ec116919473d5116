import Mathlib.Data.BitVec
import Mathlib.Data.List.Nodup
import Mathlib.Logic.Function.Basic
import ThundeRiNG.Lib.Text

/-!
# Straight-line C

The fragment of C in which a generator writes down a network of gates: assignments to variables and array elements, of
expressions made with `^`, `?:` and parentheses. The levels of C's grammar are types of their own (`Primary`,
`ExclusiveOr`, `Conditional`), so that each tree is one that C can read.

`read` is a lexer and a parser; it gives back each program from its text (`read_text`). `exec` runs the assignments in
their order, and where none of them reads what another one writes that is all of them at once (`exec_parallel`).
-/

namespace StraightC

open Text

/-! ## Programs -/

def isWordChar (c : Char) : Bool := c.isAlphanum || c == '_'

def isIdent : List Char → Bool
  | [] => false
  | c :: w => isWordChar c && !c.isDigit && w.all isWordChar

/-- A variable, or an element of an array. -/
structure Lval where
  name : List Char
  index : Option ℕ
  ident : isIdent name = true
  deriving DecidableEq

mutual

inductive Primary
  | num (n : ℕ)
  | get (l : Lval)
  | paren (e : Conditional)

inductive ExclusiveOr
  | primary (a : Primary)
  | xor (s : ExclusiveOr) (a : Primary)

inductive Conditional
  | exclusiveOr (s : ExclusiveOr)
  | cond (s : ExclusiveOr) (t e : Conditional)

end

structure Stmt where
  target : Lval
  value : Conditional

/-! ## What they do -/

abbrev Mem (w : ℕ) := Lval → BitVec w

section
variable {w : ℕ} (mem : Mem w)

mutual

def Primary.eval : Primary → BitVec w
  | .num n => BitVec.ofNat w n
  | .get l => mem l
  | .paren e => e.eval

def ExclusiveOr.eval : ExclusiveOr → BitVec w
  | .primary a => a.eval
  | .xor s a => s.eval ^^^ a.eval

def Conditional.eval : Conditional → BitVec w
  | .exclusiveOr s => s.eval
  | .cond s t e => if s.eval ≠ 0 then t.eval else e.eval

end

def Stmt.exec (s : Stmt) : Mem w := Function.update mem s.target (s.value.eval mem)

def exec (prog : List Stmt) : Mem w := prog.foldl Stmt.exec mem

end

mutual

def Primary.reads : Primary → List Lval
  | .num _ => []
  | .get l => [l]
  | .paren e => e.reads

def ExclusiveOr.reads : ExclusiveOr → List Lval
  | .primary a => a.reads
  | .xor s a => s.reads ++ a.reads

def Conditional.reads : Conditional → List Lval
  | .exclusiveOr s => s.reads
  | .cond s t e => s.reads ++ t.reads ++ e.reads

end

section
variable {w : ℕ} {mem mem' : Mem w}

mutual

theorem Primary.eval_congr : ∀ a : Primary, (∀ l ∈ a.reads, mem l = mem' l) → a.eval mem = a.eval mem'
  | .num _, _ => rfl
  | .get l, h => h l (List.mem_singleton_self l)
  | .paren e, h => e.eval_congr h

theorem ExclusiveOr.eval_congr : ∀ s : ExclusiveOr, (∀ l ∈ s.reads, mem l = mem' l) → s.eval mem = s.eval mem'
  | .primary a, h => a.eval_congr h
  | .xor s a, h => by
    simp only [ExclusiveOr.reads, List.mem_append] at h
    rw [ExclusiveOr.eval, ExclusiveOr.eval, s.eval_congr fun l hl => h l (.inl hl),
      a.eval_congr fun l hl => h l (.inr hl)]

theorem Conditional.eval_congr : ∀ e : Conditional, (∀ l ∈ e.reads, mem l = mem' l) → e.eval mem = e.eval mem'
  | .exclusiveOr s, h => s.eval_congr h
  | .cond s t e, h => by
    simp only [Conditional.reads, List.mem_append] at h
    rw [Conditional.eval, Conditional.eval, s.eval_congr fun l hl => h l (.inl (.inl hl)),
      t.eval_congr fun l hl => h l (.inl (.inr hl)), e.eval_congr fun l hl => h l (.inr hl)]

end

theorem exec_append (mem : Mem w) (prog prog' : List Stmt) : exec mem (prog ++ prog') = exec (exec mem prog) prog' :=
  List.foldl_append

/-- Assignments none of which reads or overwrites what another one writes can be done all at once. -/
theorem exec_parallel {prog : List Stmt} (hnodup : (prog.map Stmt.target).Nodup)
    (hreads : ∀ s ∈ prog, ∀ t ∈ prog, s.target ∉ t.value.reads) (mem : Mem w) :
    (∀ s ∈ prog, exec mem prog s.target = s.value.eval mem) ∧
      ∀ l ∉ prog.map Stmt.target, exec mem prog l = mem l := by
  induction prog generalizing mem with
  | nil => exact ⟨fun s hs => absurd hs List.not_mem_nil, fun _ _ => rfl⟩
  | cons s prog ih =>
    obtain ⟨hs, hprog⟩ := List.nodup_cons.1 (List.map_cons ▸ hnodup)
    obtain ⟨hval, hframe⟩ := ih hprog (fun s hs t ht => hreads s (.tail _ hs) t (.tail _ ht)) (s.exec mem)
    have heval : ∀ t ∈ s :: prog, t.value.eval (s.exec mem) = t.value.eval mem := by
      intro t ht
      refine t.value.eval_congr fun l hl => Function.update_of_ne ?_ _ _
      rintro rfl
      exact hreads s (.head _) t ht hl
    refine ⟨fun t ht => ?_, fun l hl => ?_⟩
    · rcases List.mem_cons.1 ht with rfl | ht'
      · exact (hframe _ hs).trans (Function.update_self _ _ _)
      · exact (hval t ht').trans (heval t ht)
    · rw [List.map_cons, List.mem_cons, not_or] at hl
      exact (hframe l hl.2).trans (Function.update_of_ne hl.1 _ _)

end

/-! ## Their tokens -/

inductive Token
  | word (w : List Char)
  | sym (c : Char)
  deriving DecidableEq

def Lval.tokens (l : Lval) : List Token :=
  match l.index with
  | none => [.word l.name]
  | some i => [.word l.name, .sym '[', .word (decimal i), .sym ']']

mutual

def Primary.tokens : Primary → List Token
  | .num n => [.word (decimal n)]
  | .get l => l.tokens
  | .paren e => .sym '(' :: e.tokens ++ [.sym ')']

def ExclusiveOr.tokens : ExclusiveOr → List Token
  | .primary a => a.tokens
  | .xor s a => s.tokens ++ .sym '^' :: a.tokens

def Conditional.tokens : Conditional → List Token
  | .exclusiveOr s => s.tokens
  | .cond s t e => s.tokens ++ .sym '?' :: t.tokens ++ .sym ':' :: e.tokens

end

def Stmt.tokens (s : Stmt) : List Token := s.target.tokens ++ .sym '=' :: s.value.tokens ++ [.sym ';']

/-! ## Parsing -/

/-- A decimal number without leading zeros, which would make it an octal one. -/
def number (w : List Char) : Option ℕ :=
  if decimal (Nat.ofDigitChars 10 w 0) = w then some (Nat.ofDigitChars 10 w 0) else none

theorem number_decimal (n : ℕ) : number (decimal n) = some n := by
  have h : Nat.ofDigitChars 10 (decimal n) 0 = n := Nat.ofDigitChars_ten_toDigits
  rw [number, h, if_pos rfl]

def parseLval : List Token → Option (Lval × List Token)
  | .word w :: .sym '[' :: .word d :: .sym ']' :: ts =>
    if h : isIdent w = true then (number d).map fun i => (⟨w, some i, h⟩, ts) else none
  | .word w :: ts => if h : isIdent w = true then some (⟨w, none, h⟩, ts) else none
  | _ => none

def parseWord (w : List Char) (ts : List Token) : Option (Primary × List Token) :=
  match number w with
  | some n => some (.num n, ts)
  | none => (parseLval (.word w :: ts)).map fun (l, ts) => (.get l, ts)

mutual

def parsePrimary : ℕ → List Token → Option (Primary × List Token)
  | f + 1, .sym '(' :: ts => do
    let (e, ts) ← parseConditional f ts
    match ts with
    | .sym ')' :: ts => some (.paren e, ts)
    | _ => none
  | _ + 1, .word w :: ts => parseWord w ts
  | _, _ => none

def parseExclusiveOr : ℕ → List Token → Option (ExclusiveOr × List Token)
  | f + 1, ts => do
    let (a, ts) ← parsePrimary f ts
    parseXors f (.primary a) ts
  | 0, _ => none

/-- What comes after the first operands of `^`. -/
def parseXors : ℕ → ExclusiveOr → List Token → Option (ExclusiveOr × List Token)
  | f + 1, s, .sym '^' :: ts => do
    let (a, ts) ← parsePrimary f ts
    parseXors f (.xor s a) ts
  | _ + 1, s, ts => some (s, ts)
  | 0, _, _ => none

def parseConditional : ℕ → List Token → Option (Conditional × List Token)
  | f + 1, ts => do
    let (s, ts) ← parseExclusiveOr f ts
    match ts with
    | .sym '?' :: ts => do
      let (t, ts) ← parseConditional f ts
      match ts with
      | .sym ':' :: ts => do
        let (e, ts) ← parseConditional f ts
        some (.cond s t e, ts)
      | _ => none
    | ts => some (.exclusiveOr s, ts)
  | 0, _ => none

end

/-- Each call takes off a token within three calls. -/
def parseStmt (ts : List Token) : Option (Stmt × List Token) := do
  let (l, ts) ← parseLval ts
  match ts with
  | .sym '=' :: ts => do
    let (e, ts) ← parseConditional (3 * ts.length + 2) ts
    match ts with
    | .sym ';' :: ts => some (⟨l, e⟩, ts)
    | _ => none
  | _ => none

/-- At most `f` statements. -/
def parseStmts : ℕ → List Token → Option (List Stmt)
  | _, [] => some []
  | f + 1, ts => do
    let (s, ts) ← parseStmt ts
    (parseStmts f ts).map (s :: ·)
  | 0, _ => none

/-! ## Text -/

def Token.chars : Token → List Char
  | .word w => w
  | .sym c => [c]

/-- A line for each statement. -/
def Stmt.text (s : Stmt) : List Char := s.tokens.flatMap Token.chars ++ ['\n']

def text (prog : List Stmt) : List Char := prog.flatMap Stmt.text

def flush (w : List Char) (ts : List Token) : List Token := if w = [] then ts else .word w :: ts

/-- The word at the front, and the tokens after it. -/
def lexFrom : List Char → List Char × List Token
  | [] => ([], [])
  | c :: s =>
    let (w, ts) := lexFrom s
    if isWordChar c then (c :: w, ts)
    else if c.isWhitespace then ([], flush w ts)
    else ([], .sym c :: flush w ts)

def lex (s : List Char) : List Token := flush (lexFrom s).1 (lexFrom s).2

def read (s : List Char) : Option (List Stmt) := parseStmts (lex s).length (lex s)

/-- Nothing happens where the text is no program. -/
def run {w : ℕ} (s : List Char) (mem : Mem w) : Option (Mem w) := (read s).map (exec mem)

/-! ## The parser reads the tokens back -/

/-- `ts` does not begin with one of the symbols `cs`. -/
def NotHead (cs : List Char) (ts : List Token) : Prop := ∀ c ∈ cs, ts.head? ≠ some (.sym c)

theorem notHead_sym {cs : List Char} {c : Char} (h : c ∉ cs) (ts : List Token) : NotHead cs (.sym c :: ts) := by
  rintro d hd heq
  obtain rfl : c = d := by simpa using heq
  exact h hd

theorem NotHead.mono {cs cs' : List Char} {ts : List Token} (h : NotHead cs ts) (hsub : cs' ⊆ cs) : NotHead cs' ts :=
  fun c hc => h c (hsub hc)

theorem parseLval_tokens (l : Lval) {r : List Token} (hr : NotHead ['['] r) :
    parseLval (l.tokens ++ r) = some (l, r) := by
  obtain ⟨name, _ | i, hident⟩ := l
  · have hbracket : ∀ ts, r ≠ .sym '[' :: ts := by
      rintro ts rfl
      exact hr '[' (List.mem_singleton_self _) rfl
    change parseLval (.word name :: r) = _
    rw [parseLval, dif_pos hident]
    rintro d ts h
    exact hbracket _ h
  · simp [Lval.tokens, parseLval, hident, number_decimal]

theorem number_ident {w : List Char} (h : isIdent w = true) : number w = none := by
  rw [number, if_neg]
  intro hdec
  cases w with
  | nil => cases h
  | cons c w =>
    have hdigit : c.isDigit = true := isDigit_of_mem_decimal (hdec ▸ List.mem_cons_self)
    simp [isIdent, hdigit] at h

theorem Primary.tokens_length_pos (a : Primary) : 0 < a.tokens.length := by
  cases a with
  | num n => exact Nat.one_pos
  | get l =>
    rw [Primary.tokens, Lval.tokens]
    split <;> simp
  | paren e => simp [Primary.tokens]

theorem parseXors_done {r : List Token} (hr : NotHead ['^'] r) {f : ℕ} (hf : 0 < f) (s : ExclusiveOr) :
    parseXors f s r = some (s, r) := by
  obtain ⟨f, rfl⟩ := Nat.exists_eq_add_one.2 hf
  rw [parseXors]
  rintro ts rfl
  exact hr '^' (List.mem_singleton_self _) rfl

mutual

theorem parsePrimary_tokens : ∀ (a : Primary) {r : List Token} {f : ℕ}, NotHead ['['] r →
    3 * (a.tokens ++ r).length ≤ f → parsePrimary f (a.tokens ++ r) = some (a, r)
  | .num n, r, f, hr, hf => by
    obtain ⟨f, rfl⟩ := Nat.exists_eq_add_one.2 (show 0 < f by simp [Primary.tokens] at hf; omega)
    simp [Primary.tokens, parsePrimary, parseWord, number_decimal]
  | .get l, r, f, hr, hf => by
    have hread := parseLval_tokens l hr
    obtain ⟨f, rfl⟩ := Nat.exists_eq_add_one.2 (show 0 < f by
      have := (Primary.get l).tokens_length_pos
      rw [List.length_append] at hf
      omega)
    obtain ⟨ts, hts⟩ : ∃ ts, l.tokens ++ r = .word l.name :: ts := by
      rw [Lval.tokens]
      split <;> exact ⟨_, rfl⟩
    rw [Primary.tokens, hts, parsePrimary, parseWord, number_ident l.ident]
    simp only [← hts, hread, Option.map_some]
  | .paren e, r, f, hr, hf => by
    obtain ⟨f, rfl⟩ := Nat.exists_eq_add_one.2 (show 0 < f by simp [Primary.tokens] at hf; omega)
    have he := parseConditional_tokens e (r := .sym ')' :: r) (f := f) (notHead_sym (by decide) r) (by
      simp [Primary.tokens] at hf ⊢
      omega)
    rw [Primary.tokens, List.append_assoc, List.cons_append, parsePrimary]
    simp [he]

theorem parseExclusiveOr_tokens : ∀ (s : ExclusiveOr) {r : List Token} {f : ℕ}, NotHead ['['] r →
    3 * (s.tokens ++ r).length + 1 ≤ f →
      ∃ f', 3 * r.length + 1 ≤ f' ∧ parseExclusiveOr f (s.tokens ++ r) = parseXors f' s r
  | .primary a, r, f, hr, hf => by
    obtain ⟨f, rfl⟩ := Nat.exists_eq_add_one.2 (show 0 < f by omega)
    have ha := parsePrimary_tokens a (f := f) hr (by rw [ExclusiveOr.tokens] at hf; omega)
    refine ⟨f, ?_, ?_⟩
    · have := a.tokens_length_pos
      rw [ExclusiveOr.tokens, List.length_append] at hf
      omega
    · rw [ExclusiveOr.tokens, parseExclusiveOr, ha]
      rfl
  | .xor s a, r, f, hr, hf => by
    rw [ExclusiveOr.tokens, List.append_assoc, List.cons_append] at hf ⊢
    obtain ⟨f', hf', hs⟩ := parseExclusiveOr_tokens s (r := .sym '^' :: (a.tokens ++ r)) (notHead_sym (by decide) _) hf
    obtain ⟨f', rfl⟩ := Nat.exists_eq_add_one.2 (show 0 < f' by omega)
    rw [List.length_cons] at hf'
    have ha := parsePrimary_tokens a (f := f') hr (by omega)
    refine ⟨f', ?_, ?_⟩
    · rw [List.length_append] at hf'
      omega
    · rw [hs, parseXors, ha]
      rfl

theorem parseConditional_tokens : ∀ (e : Conditional) {r : List Token} {f : ℕ}, NotHead ['[', '^', '?'] r →
    3 * (e.tokens ++ r).length + 2 ≤ f → parseConditional f (e.tokens ++ r) = some (e, r)
  | .exclusiveOr s, r, f, hr, hf => by
    obtain ⟨f, rfl⟩ := Nat.exists_eq_add_one.2 (show 0 < f by omega)
    rw [Conditional.tokens] at hf ⊢
    obtain ⟨f', hf', hs⟩ := parseExclusiveOr_tokens s (f := f) (hr.mono (by simp)) (by omega)
    rw [parseConditional, hs, parseXors_done (hr.mono (by simp)) (by omega)]
    simp only [Option.bind_eq_bind, Option.bind_some]
    split
    · rename_i h
      exact absurd rfl (hr '?' (by simp))
    · rfl
  | .cond s t e, r, f, hr, hf => by
    obtain ⟨f, rfl⟩ := Nat.exists_eq_add_one.2 (show 0 < f by omega)
    have htokens : (Conditional.cond s t e).tokens ++ r =
        s.tokens ++ .sym '?' :: (t.tokens ++ .sym ':' :: (e.tokens ++ r)) := by
      simp [Conditional.tokens]
    rw [htokens] at hf ⊢
    simp only [List.length_append, List.length_cons] at hf
    obtain ⟨f', hf', hs⟩ := parseExclusiveOr_tokens s (f := f)
      (r := .sym '?' :: (t.tokens ++ .sym ':' :: (e.tokens ++ r))) (notHead_sym (by decide) _)
      (by simp only [List.length_append, List.length_cons]; omega)
    have ht := parseConditional_tokens t (f := f) (r := .sym ':' :: (e.tokens ++ r)) (notHead_sym (by decide) _)
      (by simp only [List.length_append, List.length_cons]; omega)
    have he := parseConditional_tokens e (f := f) hr (by simp only [List.length_append]; omega)
    rw [parseConditional, hs, parseXors_done (notHead_sym (by decide) _) (by omega)]
    simp [ht, he]

end

theorem parseStmt_tokens (s : Stmt) (r : List Token) : parseStmt (s.tokens ++ r) = some (s, r) := by
  have htokens : s.tokens ++ r = s.target.tokens ++ .sym '=' :: (s.value.tokens ++ .sym ';' :: r) := by
    simp [Stmt.tokens]
  have hvalue := parseConditional_tokens s.value (r := .sym ';' :: r)
    (f := 3 * (s.value.tokens ++ .sym ';' :: r).length + 2) (notHead_sym (by decide) r) le_rfl
  rw [htokens, parseStmt, parseLval_tokens s.target (notHead_sym (by decide) _)]
  simp only [Option.bind_eq_bind, Option.bind_some, hvalue]

theorem parseStmts_tokens (prog : List Stmt) {f : ℕ} (hf : prog.length ≤ f) :
    parseStmts f (prog.flatMap Stmt.tokens) = some prog := by
  induction prog generalizing f with
  | nil => cases f <;> rfl
  | cons s prog ih =>
    obtain ⟨f, rfl⟩ := Nat.exists_eq_add_one.2 (Nat.zero_lt_of_lt hf)
    obtain ⟨t, ts, hts⟩ : ∃ t ts, s.tokens ++ prog.flatMap Stmt.tokens = t :: ts := by
      refine List.exists_cons_of_ne_nil ?_
      simp [Stmt.tokens]
    have hs := parseStmt_tokens s (prog.flatMap Stmt.tokens)
    rw [hts] at hs
    rw [List.flatMap_cons, hts, parseStmts, hs]
    · simp [ih (Nat.le_of_succ_le_succ hf)]
    · simp

/-! ## The lexer reads the text back -/

/-- `s` does not go on with a word. -/
def Breaks (s : List Char) : Prop := (lexFrom s).1 = []

/-- The letters of `ts` are read as `ts`. -/
def Lexes (ts : List Token) : Prop := ∀ s, Breaks s → lex (ts.flatMap Token.chars ++ s) = ts ++ lex s

def IsSym (c : Char) : Prop := isWordChar c = false ∧ c.isWhitespace = false

theorem breaks_cons {c : Char} (hc : isWordChar c = false) (s : List Char) : Breaks (c :: s) := by
  rw [Breaks, lexFrom]
  simp only [hc, Bool.false_eq_true, if_false]
  split <;> rfl

theorem lex_sym {c : Char} (hc : IsSym c) (s : List Char) : lex (c :: s) = .sym c :: lex s := by
  simp [lex, lexFrom, hc.1, hc.2, flush]

theorem lex_newline (s : List Char) : lex ('\n' :: s) = lex s := by
  have hword : isWordChar '\n' = false := by decide
  have hspace : '\n'.isWhitespace = true := by decide
  simp [lex, lexFrom, hword, hspace, flush]

theorem lexFrom_word {w : List Char} (hw : ∀ c ∈ w, isWordChar c = true) (s : List Char) :
    lexFrom (w ++ s) = (w ++ (lexFrom s).1, (lexFrom s).2) := by
  induction w with
  | nil => rfl
  | cons c w ih =>
    rw [List.cons_append, lexFrom, ih fun d hd => hw d (.tail _ hd)]
    simp [hw c (.head _)]

theorem lexes_word {w : List Char} (hne : w ≠ []) (hw : ∀ c ∈ w, isWordChar c = true) : Lexes [.word w] := by
  intro s hs
  rw [Breaks] at hs
  simp [lex, Token.chars, lexFrom_word hw, flush, hne, hs]

theorem Lexes.append_sym {ts us : List Token} (hts : Lexes ts) {c : Char} (hc : IsSym c) (hus : Lexes us) :
    Lexes (ts ++ .sym c :: us) := by
  intro s hs
  have htext : (ts ++ .sym c :: us).flatMap Token.chars ++ s =
      ts.flatMap Token.chars ++ c :: (us.flatMap Token.chars ++ s) := by simp [Token.chars]
  rw [htext, hts _ (breaks_cons hc.1 _), lex_sym hc, hus s hs]
  simp

theorem lexes_nil : Lexes [] := fun _ _ => rfl

theorem lexes_decimal (n : ℕ) : Lexes [.word (decimal n)] :=
  lexes_word (decimal_ne_nil n) fun c hc => by simp [isWordChar, Char.isAlphanum, isDigit_of_mem_decimal hc]

theorem lexes_name (l : Lval) : Lexes [.word l.name] := by
  obtain ⟨_ | ⟨c, w⟩, _, hident⟩ := l
  · cases hident
  · simp only [isIdent, Bool.and_eq_true, List.all_eq_true] at hident
    exact lexes_word (List.cons_ne_nil c w) (List.forall_mem_cons.2 ⟨hident.1.1, hident.2⟩)

theorem Lval.lexes (l : Lval) : Lexes l.tokens := by
  rw [Lval.tokens]
  split
  · exact lexes_name l
  · exact (lexes_name l).append_sym ⟨by decide, by decide⟩
      ((lexes_decimal _).append_sym ⟨by decide, by decide⟩ lexes_nil)

mutual

theorem Primary.lexes : ∀ a : Primary, Lexes a.tokens
  | .num n => lexes_decimal n
  | .get l => l.lexes
  | .paren e => lexes_nil.append_sym ⟨by decide, by decide⟩ (e.lexes.append_sym ⟨by decide, by decide⟩ lexes_nil)

theorem ExclusiveOr.lexes : ∀ s : ExclusiveOr, Lexes s.tokens
  | .primary a => a.lexes
  | .xor s a => s.lexes.append_sym ⟨by decide, by decide⟩ a.lexes

theorem Conditional.lexes : ∀ e : Conditional, Lexes e.tokens
  | .exclusiveOr s => s.lexes
  | .cond s t e => by
    have h := s.lexes.append_sym (c := '?') ⟨by decide, by decide⟩
      (t.lexes.append_sym (c := ':') ⟨by decide, by decide⟩ e.lexes)
    simpa [Conditional.tokens] using h

end

theorem Stmt.lexes (s : Stmt) : Lexes s.tokens := by
  have h := s.target.lexes.append_sym (c := '=') ⟨by decide, by decide⟩
    (s.value.lexes.append_sym (c := ';') ⟨by decide, by decide⟩ lexes_nil)
  simpa [Stmt.tokens] using h

theorem lex_text (prog : List Stmt) : lex (text prog) = prog.flatMap Stmt.tokens := by
  induction prog with
  | nil => rfl
  | cons s prog ih =>
    have hline : text (s :: prog) = s.tokens.flatMap Token.chars ++ '\n' :: text prog := by simp [text, Stmt.text]
    rw [hline, s.lexes _ (breaks_cons (by decide) _), lex_newline, ih, List.flatMap_cons]

/-- **Every program is read back from its text.** -/
theorem read_text (prog : List Stmt) : read (text prog) = some prog := by
  rw [read, lex_text]
  refine parseStmts_tokens prog ?_
  induction prog with
  | nil => exact le_rfl
  | cons s prog ih =>
    rw [List.flatMap_cons, List.length_append, List.length_cons, Stmt.tokens, List.length_append, List.length_append]
    rw [List.length_cons]
    omega

attribute [simp] Token.chars Lval.tokens Primary.tokens ExclusiveOr.tokens Conditional.tokens Stmt.tokens

theorem run_text {w : ℕ} (prog : List Stmt) (mem : Mem w) : run (text prog) mem = some (exec mem prog) := by
  rw [run, read_text, Option.map_some]

end StraightC
