import HtapStack.Lib.SqlRules
import HtapStack.Query.Rewriting
/-!
# What an engine takes a text for

The engines parse what they are issued, each by its own grammar, and their parsers
are not part of the stack. A `Grammar` is any of them: a tokeniser, where a table
is named, what the clause `ALLOW FILTERING` is, and the limits of a statement. What
holds of them all is that one table is named like another and that a limit at
the end of a text is its limit or no clause at all.

`Grammar.ofRules` is one that can be run. It knows the clauses of a query by their
keywords, level by level of parentheses.
-/

namespace HtapStack.Query
open Py Sql Compare

/-- ` LIMIT n`, in tokens of SQL. -/
def limitWords (n : Nat) : List Lexeme := [.code (.word "LIMIT".toList), .code (.word (toString n).toList)]

def filteringWords : List Lexeme := [.code (.word "ALLOW".toList), .code (.word "FILTERING".toList)]

/-- `table` says whether a table is named next, `clause` whether `ALLOW FILTERING`
between two texts is the clause, and `opens` whether a statement's own limit may come
next. `limits` is what the statement has of these: the number, or `none` where there is
none, as in `LIMIT ALL`. -/
structure Grammar extends Lexer where
  table : List Lexeme → Bool
  clause : List Lexeme → List Lexeme → Bool
  opens : List Lexeme → Bool
  limits : List Lexeme → List (Option Nat)
  opens_quoted : ∀ x t y, opens (x ++ .quoted t :: y) = opens (x ++ y)
  limits_quoted : ∀ x t y, limits (x ++ .quoted t :: y) = limits (x ++ y)
  opens_name : ∀ x old new y, Name old → Name new → opens (x ++ (old.map .code ++ y)) = opens (x ++ (new.map .code ++ y))
  limits_name : ∀ x old new y, Name old → Name new →
    limits (x ++ (old.map .code ++ y)) = limits (x ++ (new.map .code ++ y))
  limits_limit : ∀ x n, limits (x ++ limitWords n) = if opens x then limits x ++ [some n] else limits x
  limits_filtering : ∀ x, limits (x ++ filteringWords) = limits x

/-! ## What comes to the same -/

/-- Lexemes that make no difference to the limits of a statement. -/
def Grammar.Alike (G : Grammar) (a b : List Lexeme) : Prop :=
  ∀ x y, G.limits (x ++ (a ++ y)) = G.limits (x ++ (b ++ y)) ∧ G.opens (x ++ (a ++ y)) = G.opens (x ++ (b ++ y))

section
variable {G : Grammar} {a b c d : List Lexeme}

theorem Grammar.Alike.refl (a : List Lexeme) : G.Alike a a := fun _ _ => ⟨rfl, rfl⟩

theorem Grammar.Alike.trans (h : G.Alike a b) (h' : G.Alike b c) : G.Alike a c :=
  fun x y => ⟨(h x y).1.trans (h' x y).1, (h x y).2.trans (h' x y).2⟩

theorem Grammar.Alike.symm (h : G.Alike a b) : G.Alike b a := fun x y => ⟨(h x y).1.symm, (h x y).2.symm⟩

theorem Grammar.Alike.append (h : G.Alike a b) (h' : G.Alike c d) : G.Alike (a ++ c) (b ++ d) := by
  intro x y
  have hfirst := h x (c ++ y)
  have hlast := h' (x ++ b) y
  simp only [List.append_assoc] at hfirst hlast ⊢
  exact ⟨hfirst.1.trans hlast.1, hfirst.2.trans hlast.2⟩

theorem Grammar.alike_quoted (ts : List Token) : G.Alike (ts.map .quoted) [] := by
  induction ts with
  | nil => exact .refl _
  | cons t ts ih =>
    intro x y
    exact ⟨(G.limits_quoted x t _).trans (ih x y).1, (G.opens_quoted x t _).trans (ih x y).2⟩

theorem Grammar.alike_name {old new : List Token} (hold : Name old) (hnew : Name new) :
    G.Alike (old.map .code) (new.map .code) :=
  fun x y => ⟨G.limits_name x old new y hold hnew, G.opens_name x old new y hold hnew⟩

theorem Grammar.Alike.limits (h : G.Alike a b) : G.limits a = G.limits b := by
  have hnil := (h [] []).1
  rwa [List.nil_append, List.nil_append, List.append_nil, List.append_nil] at hnil

theorem Grammar.Alike.opens (h : G.Alike a b) : G.opens a = G.opens b := by
  have hnil := (h [] []).2
  rwa [List.nil_append, List.nil_append, List.append_nil, List.append_nil] at hnil

end

theorem quiet_spelling {w t : List Char} (hw : foldAll w = foldAll t) (ht : t.length ≠ 1) : Quiet (.word w) := by
  rintro c rfl
  have hlength := congrArg List.length hw
  simp only [foldAll, List.length_map, List.length_singleton] at hlength
  exact absurd hlength.symm ht

theorem Name.quiet {ts : List Token} (h : Name ts) :
    (∀ x ∈ ts, Quiet x) ∧ ts ≠ [] ∧ (∀ c, .sign c ∈ ts → c = '.') ∧ visible ts = ts.map .code := by
  have htables : ∀ t ∈ demoTables, t.length ≠ 1 ∧ (bulkViewPrefix ++ t).length ≠ 1 := by decide
  cases h with
  | table ht hw => exact ⟨List.forall_mem_singleton.2 (quiet_spelling hw (htables _ ht).1), List.cons_ne_nil _ _, by simp, rfl⟩
  | view ht hw => exact ⟨List.forall_mem_singleton.2 (quiet_spelling hw (htables _ ht).2), List.cons_ne_nil _ _, by simp, rfl⟩
  | qualified hk ht hw =>
    refine ⟨?_, List.cons_ne_nil _ _, by simp, rfl⟩
    refine List.forall_mem_cons.2 ⟨quiet_spelling hk (by decide), List.forall_mem_cons.2 ⟨.inr rfl, ?_⟩⟩
    exact List.forall_mem_singleton.2 (quiet_spelling hw (htables _ ht).1)

theorem quiet_number (limit : Nat) : Quiet (.word (toString limit).toList) := by
  intro c hc
  have hmem : c ∈ Nat.toDigits 10 limit := by
    rw [Nat.toString_eq_repr, Nat.toList_repr] at hc
    exact hc ▸ List.mem_singleton_self c
  have hdigit := (isDigit_iff c).1 (Nat.isDigit_of_mem_toDigits (by decide) (by decide) hmem)
  rw [Bool.eq_false_iff, ne_eq, isAlpha_iff]
  omega

theorem quiet_limitClause (limit : Nat) :
    ∀ t ∈ [Token.sign ' ', .word "LIMIT".toList, .sign ' ', .word (toString limit).toList], Quiet t := by
  have hblank : Quiet (.sign ' ') := .inl (by decide)
  have hlimit : Quiet (.word "LIMIT".toList) := nofun
  refine List.forall_mem_cons.2 ⟨hblank, List.forall_mem_cons.2 ⟨hlimit, List.forall_mem_cons.2 ⟨hblank, ?_⟩⟩⟩
  exact List.forall_mem_singleton.2 (quiet_number limit)

theorem quiet_allowFiltering : ∀ t ∈ [Token.sign ' ', .word "ALLOW".toList, .sign ' ', .word "FILTERING".toList], Quiet t := by
  have hblank : Quiet (.sign ' ') := .inl (by decide)
  have hallow : Quiet (.word "ALLOW".toList) := nofun
  have hfiltering : Quiet (.word "FILTERING".toList) := nofun
  refine List.forall_mem_cons.2 ⟨hblank, List.forall_mem_cons.2 ⟨hallow, List.forall_mem_cons.2 ⟨hblank, ?_⟩⟩⟩
  exact List.forall_mem_singleton.2 hfiltering

/-- What a name reads as after white space. -/
theorem Name.lexAll {G : Grammar} {m : G.Mode} {name : List Token} (h : Name name) (hm : G.settled m = true) :
    G.lexAll m name = (m, name.flatMap (G.region m).emits) := by
  obtain ⟨hq, hne, hdot, -⟩ := h.quiet
  rw [Lexer.lexAll_quiet hq hne (.inl hm) fun _ c hc => hdot c hc ▸ G.lineEnd_dot, G.settle_of_settled _ hm,
    G.held_settled _ hm]
  rfl

/-! ## A grammar of queries -/

inductive Pending where
  | nothing
  | per
  | partition
  | limit
  deriving DecidableEq, Repr

/-- A level of parentheses: whether it is a query's, and whether its tables have begun. -/
structure Scope where
  select : Bool
  tables : Bool
  deriving DecidableEq, Repr

/-- What was read of a statement: the level of parentheses and those around it, whether
an operand ends here, whether a table is named next, and what of `PER PARTITION` or of a
limit was read just now. -/
structure Clauses where
  scope : Scope
  outer : List Scope
  operand : Bool
  awaits : Bool
  pending : Pending
  limits : List (Option Nat)
  deriving DecidableEq, Repr

def Clauses.start : Clauses := ⟨⟨false, false⟩, [], false, false, .nothing, []⟩

/-- The words after which an operand is still to come. -/
def operators : List (List Char) :=
  ["SELECT", "DISTINCT", "ALL", "FROM", "JOIN", "INNER", "LEFT", "RIGHT", "FULL", "OUTER", "CROSS", "NATURAL", "ON",
    "USING", "WHERE", "AND", "OR", "NOT", "IN", "IS", "LIKE", "BETWEEN", "GROUP", "ORDER", "BY", "HAVING", "AS", "UNION",
    "EXCEPT", "INTERSECT", "CASE", "WHEN", "THEN", "ELSE", "LIMIT", "OFFSET", "WITH"].map String.toList

def spells (k : String) (w : List Char) : Bool := foldAll w == foldAll k.toList

/-- The number that a word of digits is. -/
def number (w : List Char) : Option Nat :=
  if w ≠ [] ∧ w.all Char.isDigit = true then some (Nat.ofDigitChars 10 w 0) else none

def Clauses.word (r : Clauses) (w : List Char) : Clauses :=
  let next := { r with
    operand := !operators.any fun k => foldAll w == foldAll k
    awaits := false
    pending := .nothing }
  if spells "SELECT" w then { next with scope := ⟨true, false⟩ }
  else if spells "FROM" w then
    if r.scope.select && r.operand then { next with scope := { r.scope with tables := true }, awaits := true } else next
  else if spells "JOIN" w then { next with awaits := r.scope.tables }
  else if spells "PER" w then { next with pending := .per }
  else if spells "PARTITION" w then { next with pending := if r.pending = .per then .partition else .nothing }
  else if spells "LIMIT" w then
    { next with pending := if r.outer.isEmpty && r.pending ≠ .partition then .limit else .nothing }
  else if r.pending = .limit then
    match number w with
    | some n => { next with limits := r.limits ++ [some n] }
    | none => if spells "ALL" w then { next with limits := r.limits ++ [none] } else next
  else next

def Clauses.sign (r : Clauses) (c : Char) : Clauses :=
  let next := { r with awaits := false, pending := .nothing }
  if c = '(' then { next with scope := ⟨false, false⟩, outer := r.scope :: r.outer, operand := false }
  else if c = ')' then
    match r.outer with
    | [] => { next with operand := true }
    | scope :: outer => { next with scope := scope, outer := outer, operand := true }
  -- After an operand it is a product, and else all columns.
  else if c = '*' then { next with operand := !r.operand }
  else { next with operand := [']', '\x27', '\x22', '\x60', '$'].contains c }

def Clauses.step (r : Clauses) : Lexeme → Clauses
  | .code (.word w) => r.word w
  | .code (.sign c) => r.sign c
  | .quoted _ => r

def Clauses.run (r : Clauses) (xs : List Lexeme) : Clauses := xs.foldl Clauses.step r

def Clauses.opens (r : Clauses) : Bool := r.outer.isEmpty && r.pending ≠ .partition

variable {r : Clauses} {w : List Char}

theorem Clauses.run_append (r : Clauses) (xs ys : List Lexeme) : r.run (xs ++ ys) = (r.run xs).run ys :=
  List.foldl_append

/-- A word that no clause begins with. -/
def Plain (w : List Char) : Prop :=
  (("PER".toList :: "PARTITION".toList :: operators).any fun k => foldAll w == foldAll k) = false

instance : DecidablePred Plain := fun _ => inferInstanceAs (Decidable (_ = _))

theorem Plain.of_spelling {t : List Char} (h : foldAll w = foldAll t) (ht : Plain t) : Plain w := by
  unfold Plain at ht ⊢
  rwa [h]

theorem Plain.ne {k : String} (h : Plain w) (hk : k.toList ∈ "PER".toList :: "PARTITION".toList :: operators) :
    spells k w = false := Bool.eq_false_iff.2 (List.any_eq_false.1 h _ hk)

theorem Clauses.word_plain (h : Plain w) (hn : number w = none) :
    r.word w = { r with operand := true, awaits := false, pending := .nothing } := by
  have hop : (operators.any fun k => foldAll w == foldAll k) = false := by
    unfold Plain at h
    simp only [List.any_cons, Bool.or_eq_false_iff] at h
    exact h.2.2
  unfold Clauses.word
  simp only [hop, hn, h.ne (k := "SELECT") (by decide), h.ne (k := "FROM") (by decide), h.ne (k := "JOIN") (by decide),
    h.ne (k := "PER") (by decide), h.ne (k := "PARTITION") (by decide), h.ne (k := "LIMIT") (by decide),
    h.ne (k := "ALL") (by decide), Bool.not_false, Bool.false_eq_true, if_false, ite_self]

theorem plain_of_mem : ∀ t ∈ demoTables, Plain t ∧ Plain (bulkViewPrefix ++ t) := by decide

theorem number_of_name (h : IsName w) : number w = none := by
  refine if_neg fun ⟨_, hw⟩ => h.not_digits (u := .ascii) fun c hc => ?_
  simp [Unicode.ascii, List.all_eq_true.1 hw c hc]

/-- Whichever table it names, a name is an operand. -/
theorem Clauses.run_name {old : List Token} (h : Name old) :
    r.run (old.map .code) = { r with operand := true, awaits := false, pending := .nothing } := by
  cases h with
  | table ht hw =>
    exact Clauses.word_plain ((plain_of_mem _ ht).1.of_spelling hw) (number_of_name ((isName_of_mem _ ht).1.of_spelling hw))
  | view ht hw =>
    exact Clauses.word_plain ((plain_of_mem _ ht).2.of_spelling hw) (number_of_name ((isName_of_mem _ ht).2.of_spelling hw))
  | qualified hk ht hw =>
    have hword := @Clauses.word_plain (r := { r with operand := false, awaits := false, pending := .nothing }) _
      ((plain_of_mem _ ht).1.of_spelling hw) (number_of_name ((isName_of_mem _ ht).1.of_spelling hw))
    have hkeyspace : Plain "demo".toList ∧ IsName "demo".toList := by decide
    show (((r.word _).sign '.').word _) = _
    rw [Clauses.word_plain (hkeyspace.1.of_spelling hk) (number_of_name (hkeyspace.2.of_spelling hk))]
    exact hword

theorem number_toString (n : Nat) : number (toString n).toList = some n := by
  unfold number
  rw [Nat.toString_eq_repr, Nat.toList_repr, Nat.ofDigitChars_ten_toDigits, if_pos]
  exact ⟨Nat.toDigits_ne_nil, List.all_eq_true.2 fun c hc => Nat.isDigit_of_mem_toDigits (by decide) (by decide) hc⟩

/-- A number spells no word of letters. -/
theorem spells_of_number {k : String} (hk : (foldAll k.toList).all Char.isAlpha = true) {n : Nat} (h : number w = some n) :
    spells k w = false := by
  refine Bool.eq_false_iff.2 fun hspells => ?_
  obtain ⟨hne, hw⟩ : w ≠ [] ∧ w.all Char.isDigit = true := by
    by_contra hno
    rw [number, if_neg hno] at h
    cases h
  obtain ⟨c, hc⟩ := List.exists_mem_of_ne_nil _ hne
  have hmem : fold c ∈ foldAll k.toList := beq_iff_eq.1 hspells ▸ List.mem_map_of_mem hc
  have halpha := List.all_eq_true.1 hk _ hmem
  rw [Unicode.ascii.isAlpha_fold_of_digit (by simp [Unicode.ascii, List.all_eq_true.1 hw c hc])] at halpha
  cases halpha

theorem Clauses.limits_limit (r : Clauses) (n : Nat) :
    (r.run (limitWords n)).limits = if r.opens then r.limits ++ [some n] else r.limits := by
  have hn := number_toString n
  show ((r.word "LIMIT".toList).word (toString n).toList).limits = _
  generalize (toString n).toList = d at hn
  have hlimit : r.word "LIMIT".toList = { r with
      operand := false
      awaits := false
      pending := if r.opens then .limit else .nothing } := rfl
  rw [hlimit]
  unfold Clauses.word
  simp only [hn, spells_of_number (k := "SELECT") (by decide) hn, spells_of_number (k := "FROM") (by decide) hn,
    spells_of_number (k := "JOIN") (by decide) hn, spells_of_number (k := "PER") (by decide) hn,
    spells_of_number (k := "PARTITION") (by decide) hn, spells_of_number (k := "LIMIT") (by decide) hn,
    Bool.false_eq_true, if_false]
  cases r.opens <;> simp

theorem Clauses.limits_filtering (r : Clauses) : (r.run filteringWords).limits = r.limits := by
  have hallow : Plain "ALLOW".toList ∧ number "ALLOW".toList = none := by decide
  have hfiltering : Plain "FILTERING".toList ∧ number "FILTERING".toList = none := by decide
  show ((r.word "ALLOW".toList).word "FILTERING".toList).limits = _
  rw [Clauses.word_plain hallow.1 hallow.2, Clauses.word_plain hfiltering.1 hfiltering.2]

/-- The tables, the clauses and the limits of a statement in a dialect with these rules. -/
def Grammar.ofRules (rules : Rules) : Grammar where
  toLexer := rules.lexer
  table before := (Clauses.start.run before).awaits
  clause before after :=
    let r := Clauses.start.run before
    after.isEmpty && r.outer.isEmpty && r.scope.tables && r.operand
  opens xs := (Clauses.start.run xs).opens
  limits xs := (Clauses.start.run xs).limits
  opens_quoted x t y := by simp only [Clauses.run_append]; rfl
  limits_quoted x t y := by simp only [Clauses.run_append]; rfl
  opens_name x old new y hold hnew := by
    simp only [Clauses.run_append, Clauses.run_name hold, Clauses.run_name hnew]
  limits_name x old new y hold hnew := by
    simp only [Clauses.run_append, Clauses.run_name hold, Clauses.run_name hnew]
  limits_limit x n := by rw [Clauses.run_append, Clauses.limits_limit]
  limits_filtering x := by rw [Clauses.run_append, Clauses.limits_filtering]

/-- The rules of the engines' dialects: Cassandra's are CQL's, and cqlite's those of its SQL engine. -/
def rulesOf : Engine → Rules
  | .cassandra => ⟨true, false, false, false, true⟩
  | .presto => ⟨false, false, false, true, false⟩
  | .spark | .sparkBulk => ⟨false, true, true, true, false⟩
  | .cqlite => ⟨false, true, false, true, true⟩

/-- The grammars of a comparison, as far as these rules go. -/
def grammarOf (e : Engine) : Grammar := .ofRules (rulesOf e)

/-- The limit of a partition is none of the statement. -/
example : (grammarOf .cassandra).limits
    ((grammarOf .cassandra).lexemes Unicode.ascii.isWord "SELECT * FROM t PER PARTITION LIMIT 5 // 'LIMIT 6".toList) = [] := by
  decide +kernel

end HtapStack.Query
