import HtapStack.Lib.SqlLexer
/-!
# The dialects' comments and quotations

A `Lexer` for the rules that the dialects of SQL have of their own: whether `//`
begins a comment too, whether comments nest, whether a backslash escapes in a literal,
whether names stand between back quotes, and whether text stands between two `$$`.
-/

namespace HtapStack.Sql
open Py

structure Rules where
  slashes : Bool
  nested : Bool
  escapes : Bool
  backquotes : Bool
  dollars : Bool
  deriving DecidableEq, Repr

inductive Quote where
  | single
  | double
  | back
  deriving DecidableEq, Repr

def Quote.char : Quote → Char
  | .single => '\x27'
  | .double => '\x22'
  | .back => '\x60'

namespace Rules

/-- Where a reader stands. After a `-`, a `/`, a `*` or a `$` it cannot tell yet, and
after a backslash it takes what comes next as it is. A comment is within `n` others. -/
inductive Mode where
  | code
  | dash
  | slash
  | dollar
  | lineComment
  | comment (n : Nat)
  | star (n : Nat)
  | commentSlash (n : Nat)
  | quote (q : Quote)
  | escaped (q : Quote)
  | dollars
  | dollarsEnd
  deriving DecidableEq, Repr

def Mode.held : Mode → List Lexeme
  | .dash => [.code (.sign '-')]
  | .slash => [.code (.sign '/')]
  | .dollar => [.code (.sign '$')]
  | .dollarsEnd => [.quoted (.sign '$')]
  | _ => []

def Mode.region : Mode → Region
  | .code | .dash | .slash | .dollar => .code
  | .lineComment => .lineComment
  | .comment _ | .star _ | .commentSlash _ => .blockComment
  | .quote _ | .escaped _ | .dollars | .dollarsEnd => .quoted

def Mode.settle : Mode → Mode
  | .dash | .slash | .dollar => .code
  | .star n | .commentSlash n => .comment n
  | .escaped q => .quote q
  | .dollarsEnd => .dollars
  | m => m

def isLineEnd (c : Char) : Bool := c == '\n' || c == '\r'

variable (rules : Rules)

/-- The quotation that a sign begins. -/
def opening (c : Char) : Option Quote :=
  if c = '\x27' then some .single
  else if c = '\x22' then some .double
  else if c = '\x60' ∧ rules.backquotes = true then some .back
  else none

def readCode : Token → Mode × List Lexeme
  | .word w => (.code, [.code (.word w)])
  | .sign c =>
    if isSpace c then (.code, [])
    else if c = '-' then (.dash, [])
    else if c = '/' then (.slash, [])
    else if c = '$' ∧ rules.dollars = true then (.dollar, [])
    else
      match rules.opening c with
      | some q => (.quote q, [.code (.sign c)])
      | none => (.code, [.code (.sign c)])

def read (m : Mode) (t : Token) : Mode × List Lexeme :=
  match m with
  | .code => rules.readCode t
  | .dash => if t = .sign '-' then (.lineComment, []) else ((rules.readCode t).1, m.held ++ (rules.readCode t).2)
  | .slash =>
    if t = .sign '*' then (.comment 0, [])
    else if t = .sign '/' ∧ rules.slashes = true then (.lineComment, [])
    else ((rules.readCode t).1, m.held ++ (rules.readCode t).2)
  | .dollar =>
    if t = .sign '$' then (.dollars, m.held ++ [.code t]) else ((rules.readCode t).1, m.held ++ (rules.readCode t).2)
  | .lineComment => if t = .sign '\n' ∨ t = .sign '\r' then (.code, []) else (.lineComment, [])
  | .comment n =>
    if t = .sign '*' then (.star n, [])
    else if t = .sign '/' ∧ rules.nested = true then (.commentSlash n, [])
    else (.comment n, [])
  | .star n =>
    if t = .sign '/' then (if n = 0 then .code else .comment (n - 1), [])
    else if t = .sign '*' then (.star n, [])
    else (.comment n, [])
  | .commentSlash n =>
    if t = .sign '*' then (.comment (n + 1), [])
    else if t = .sign '/' then (.commentSlash n, [])
    else (.comment n, [])
  | .quote q =>
    if t = .sign q.char then (.code, [.code t])
    else if t = .sign '\x5c' ∧ rules.escapes = true ∧ q ≠ .back then (.escaped q, [.quoted t])
    else (.quote q, [.quoted t])
  | .escaped q => (.quote q, [.quoted t])
  | .dollars => if t = .sign '$' then (.dollarsEnd, []) else (.dollars, [.quoted t])
  | .dollarsEnd =>
    if t = .sign '$' then (.code, [.code t, .code t]) else (.dollars, m.held ++ [.quoted t])

/-! ## It is a lexer -/

theorem ne_of_space {c : Char} (hc : isSpace c = true) :
    c ∉ ['-', '/', '*', '$', '\x27', '\x22', '\x60', '\x5c', '.'] := by
  intro h
  simp only [List.mem_cons, List.not_mem_nil, or_false] at h
  rcases h with rfl | rfl | rfl | rfl | rfl | rfl | rfl | rfl | rfl <;> revert hc <;> decide

variable {rules} {m : Mode} {c : Char}

theorem read_space (hc : isSpace c = true) (hm : m.region = .lineComment → isLineEnd c = false) :
    rules.read m (.sign c) = (m.settle, m.held ++ m.region.emits (.sign c)) := by
  have hne := ne_of_space hc
  simp only [List.mem_cons, List.not_mem_nil, or_false, not_or] at hne
  obtain ⟨h₁, h₂, h₃, h₄, h₅, h₆, h₇, h₈, -⟩ := hne
  cases m with
  | lineComment =>
    have hend := hm rfl
    simp only [isLineEnd, Bool.or_eq_false_iff, beq_eq_false_iff_ne] at hend
    simp [read, hend.1, hend.2, Mode.settle, Mode.held, Mode.region, Region.emits]
  | quote q | escaped q =>
    cases q <;> simp [read, Quote.char, h₅, h₆, h₇, h₈, Mode.settle, Mode.held, Mode.region, Region.emits]
  | _ => simp [read, readCode, hc, h₁, h₂, h₃, h₄, Mode.settle, Mode.held, Mode.region, Region.emits]

theorem read_lineEnd (hm : m.region = .lineComment) (hend : isLineEnd c = true) :
    rules.read m (.sign c) = (.code, []) := by
  obtain rfl : m = .lineComment := by cases m <;> first | rfl | cases hm
  simp only [isLineEnd, Bool.or_eq_true, beq_iff_eq] at hend
  simp [read, hend]

theorem read_word (hm : m.settle = m) (w : List Char) :
    rules.read m (.word w) = (m, m.region.emits (.word w)) := by
  cases m <;> simp [Mode.settle] at hm <;> simp [read, readCode, Mode.region, Region.emits]

theorem read_dot (hm : m.settle = m) : rules.read m (.sign '.') = (m, m.region.emits (.sign '.')) := by
  have hspace : isSpace '.' = false := by decide
  cases m with
  | quote q => cases q <;> simp [read, Quote.char, Mode.region, Region.emits]
  | _ =>
    simp [Mode.settle] at hm <;>
      simp [read, readCode, opening, hspace, Mode.region, Region.emits]

/-- The tokeniser of a dialect with these rules. -/
def lexer (rules : Rules) : Lexer where
  Mode := Mode
  start := .code
  read := rules.read
  held := Mode.held
  region := Mode.region
  settled m := m.settle = m
  settle := Mode.settle
  lineEnd := isLineEnd
  lineEnd_blank := rfl
  lineEnd_dot := rfl
  settled_start := rfl
  region_start := rfl
  settled_settle m := decide_eq_true (by cases m <;> rfl)
  settle_of_settled m h := of_decide_eq_true h
  region_settle m := by cases m <;> rfl
  held_settled m h := by cases m <;> first | rfl | cases h
  held_comment m h := by cases m <;> first | rfl | cases h
  read_space m c hc hm := read_space hc hm
  read_lineEnd m c _ hm hend := by simp [read_lineEnd hm hend, Mode.settle, Mode.region]
  read_quiet m t hm ht hspace := by
    have hsettle := of_decide_eq_true hm
    cases t with
    | word w => exact read_word hsettle w
    | sign c =>
      obtain rfl : c = '.' := ht.resolve_left (Bool.eq_false_iff.1 (hspace c rfl))
      exact read_dot hsettle
  read_comment m w h := by cases m <;> first | rfl | cases h
  region_word m w := by cases m <;> rfl

end Rules

end HtapStack.Sql
