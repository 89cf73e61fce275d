import HtapStack.Query.Grammar
import HtapStack.Query.ReadOnly
/-!
# Only table references

A statement and what a dialect makes of it, both as the tokens of SQL, are meant
to differ in the names of tables that follow `FROM` or `JOIN`, in the clause `ALLOW
FILTERING` and in the limit at the end (`TableReferencesOnly`). The patterns are
matched against the text, though, and stand in literals, in quoted names, in
expressions and across the end of a comment as well as in the clauses.

`tableReferencesOnly` says that nothing else changes where every match is the
clause or the reference it is taken for, or stands in a comment. Which it is, is up
to the grammar.
-/

namespace HtapStack.Query
open Py Sql Compare

/-! ## What may differ -/

/-- `FROM` or `JOIN`. -/
def isLead : Lexeme → Bool
  | .code (.word w) => ["FROM".toList, "JOIN".toList].any fun k => foldAll w == foldAll k
  | _ => false

/-- A table is named next, and `FROM` or `JOIN` was the last that was read. -/
def Grammar.names (G : Grammar) (before : List Lexeme) : Bool := before.getLast?.any isLead && G.table before

def codeOf (u : Unicode) (s : List Char) : List Lexeme := (tokens u.isWord s).map .code

/-- `b` is `a` with tables that follow `FROM` or `JOIN` under another name; the first
of the lists is what comes before `a`. -/
inductive Renamed (G : Grammar) (u : Unicode) (pre : List Char) : List Lexeme → List Lexeme → List Lexeme → Prop
  | nil {before : List Lexeme} : Renamed G u pre before [] []
  | same {before a b : List Lexeme} (x : Lexeme) :
      Renamed G u pre (before ++ [x]) a b → Renamed G u pre before (x :: a) (x :: b)
  | table {before : List Lexeme} {dot tb : List Char} {a b : List Lexeme} :
      (dot = [] ∨ foldAll dot = foldAll "demo.".toList) → (∃ t ∈ demoTables, foldAll tb = foldAll t) →
        G.names before = true → Renamed G u pre (before ++ codeOf u (dot ++ tb)) a b →
          Renamed G u pre before (codeOf u (dot ++ tb) ++ a) (codeOf u (pre ++ tb) ++ b)

/-- `b` is `a` with clauses `ALLOW FILTERING` left out. -/
inductive Dropped (G : Grammar) : List Lexeme → List Lexeme → List Lexeme → Prop
  | nil {before : List Lexeme} : Dropped G before [] []
  | same {before a b : List Lexeme} (x : Lexeme) : Dropped G (before ++ [x]) a b → Dropped G before (x :: a) (x :: b)
  | clause {allow filtering : List Char} {before a b : List Lexeme} :
      foldAll allow = foldAll "ALLOW".toList → foldAll filtering = foldAll "FILTERING".toList →
        G.clause before a = true → Dropped G (before ++ [.code (.word allow), .code (.word filtering)]) a b →
          Dropped G before (.code (.word allow) :: .code (.word filtering) :: a) b

/-- The limit at a statement's end, or none. -/
inductive OwnLimit (u : Unicode) : List Lexeme → Prop
  | none : OwnLimit u []
  | limit {l d : List Char} : foldAll l = foldAll "LIMIT".toList → d ≠ [] → (∀ c ∈ d, (u.digit c).isSome = true) →
      OwnLimit u [.code (.word l), .code (.word d)]

/-- What a dialect may put at the end. -/
def endings (limit : Nat) : List (List Lexeme) := [[], limitWords limit, limitWords limit ++ filteringWords]

/-- `a` is the statement without the clause and without its limit, and `b` is what the
dialect makes of it; a limit is taken off or put there if one belongs there. -/
def TableReferencesOnly (G : Grammar) (u : Unicode) (e : Engine) (statement : List Char) (limit : Nat) : Prop :=
  ∃ a own b ending, Dropped G [] (G.lexemes u.isWord statement) (a ++ own) ∧ OwnLimit u own ∧
    Renamed G u (tablePrefix e) [] a b ∧ ending ∈ endings limit ∧ (own ++ ending ≠ [] → G.opens a = true) ∧
      G.lexemes u.isWord (dialect u e statement limit) = b ++ ending

/-! ## Where the patterns may match -/

/-- Where a reader of SQL stands, and what it has read. -/
structure Place (G : Grammar) where
  mode : G.Mode
  before : List Lexeme

section
variable {G : Grammar} (u : Unicode)

def Place.start : Place G := ⟨G.start, []⟩

def Place.over (at' : Place G) (ts : List Token) : Place G :=
  ⟨(G.lexAll at'.mode ts).1, at'.before ++ (G.lexAll at'.mode ts).2⟩

def Place.read (at' : Place G) (s : List Char) : Place G := at'.over (tokens u.isWord s)

def Place.region (at' : Place G) : Region := G.region at'.mode

/-- `ok` of each match, from the place where it begins. -/
def AtEach (ok : Place G → List Char → Match → Prop) : Place G → List (List Char × Match) → Prop
  | _, [] => True
  | at', (p, m) :: hits => ok (at'.read u p) p m ∧ AtEach ok (at'.read u (p ++ m.text)) hits

/-- A match of `ALLOW FILTERING` that is the clause, or all in a comment, or the clause
at the end of the statement on a line of its own after a comment. -/
def ClauseOk (here : Place G) (p : List Char) (m : Match) : Prop :=
  match here.region with
  | .quoted => False
  | .blockComment => True
  | .lineComment => (∀ c ∈ m.text, G.lineEnd c = false) ∨
      m.rest = [] ∧ (here.read u (m.text.takeWhile isSpace)).region = .code ∧ G.clause here.before [] = true
  | .code => (Apart u.isWord (last none p) m.text ∧ Apart u.isWord (last none m.text) m.rest) ∧
      (G.settled here.mode = true ∨ m.text.head?.any isSpace = true) ∧
        G.clause (here.before ++ G.held here.mode)
          (G.lexemesFrom (here.read u m.text).mode (tokens u.isWord m.rest)) = true

/-- A match of the table pattern that is left as it is, or names a table after
`FROM` or `JOIN`, or has the name in a comment. -/
def ReferenceOk (pre : List Char) (here : Place G) (_ : List Char) (m : Match) : Prop :=
  let there := here.read u (m.group "lead")
  m.text = m.group "lead" ++ pre ++ m.group "table" ∨
    there.region ≠ .quoted ∧ (there.region = .code → G.names there.before = true)

end

/-- The matches in a text, each with what comes before it. -/
def hits (u : Unicode) (r : Re) (s : List Char) : List (List Char × Match) := (r.cuts u.isWord s.length none s).1

/-- The limit that a dialect takes off. -/
def stripped (u : Unicode) (e : Engine) (statement : List Char) : List Char :=
  (withoutAllowFiltering u statement).drop (body u e statement).length

/-- Where the text ends whose tables are rewritten. -/
def ending (G : Grammar) (u : Unicode) (e : Engine) (statement : List Char) : Place G :=
  Place.start.read u (body u e statement)

/-- Every match is what it is taken for or in a comment, and a dialect takes off and
adds at the end what is in a comment or a limit where one belongs. -/
structure Clear (G : Grammar) (u : Unicode) (e : Engine) (statement : List Char) : Prop where
  clause : AtEach u (ClauseOk (G := G) u) .start (hits u allowFilteringRe statement)
  reference : AtEach u (ReferenceOk (G := G) u (tablePrefix e)) .start (hits u tableReferenceRe (body u e statement))
  quoted : (ending G u e statement).region = .quoted → e ≠ .cassandra ∧ hasLimit u (withoutAllowFiltering u statement) = true
  ownLine : (ending G u e statement).region = .lineComment → (∃ c ∈ stripped u e statement, G.lineEnd c = true) →
    ((ending G u e statement).read u ((stripped u e statement).takeWhile isSpace)).region = .code
  opens : (ending G u e statement).region = .code ∨
      (ending G u e statement).region = .lineComment ∧ (∃ c ∈ stripped u e statement, G.lineEnd c = true) →
    e = .cassandra ∨ hasLimit u (withoutAllowFiltering u statement) = false →
      G.opens (G.lexemes u.isWord (body u e statement)) = true

section
variable {G : Grammar} (u : Unicode) (pre : List Char) (here : Place G) (p : List Char) (m : Match)

instance : Decidable (ClauseOk u here p m) := by
  unfold ClauseOk
  -- Over the text, not over all characters.
  have := List.decidableBAll (fun c => G.lineEnd c = false) m.text
  cases here.region <;> infer_instance

instance : Decidable (ReferenceOk u pre here p m) := by
  unfold ReferenceOk
  infer_instance

instance AtEach.decidable (ok : Place G → List Char → Match → Prop) [∀ at' p m, Decidable (ok at' p m)] :
    ∀ at' hits, Decidable (AtEach u ok at' hits)
  | _, [] => isTrue trivial
  | at', (p, m) :: hits =>
    have := AtEach.decidable ok (at'.read u (p ++ m.text)) hits
    inferInstanceAs (Decidable (ok (at'.read u p) p m ∧ AtEach u ok (at'.read u (p ++ m.text)) hits))

instance (e : Engine) (statement : List Char) : Decidable (Clear G u e statement) :=
  have := List.decidableBEx (fun c => G.lineEnd c = true) (stripped u e statement)
  decidable_of_iff (_ ∧ _ ∧ (_ → _) ∧ (_ → _ → _) ∧ (_ → _ → _))
    ⟨fun ⟨h₁, h₂, h₃, h₄, h₅⟩ => ⟨h₁, h₂, h₃, h₄, h₅⟩,
      fun h => ⟨h.clause, h.reference, h.quoted, h.ownLine, h.opens⟩⟩

end

variable {G : Grammar} {u : Unicode} {s : List Char}

/-! ## The clause that is left out -/

theorem Dropped.append_left {before : List Lexeme} (x : List Lexeme) {a b : List Lexeme}
    (h : Dropped G (before ++ x) a b) : Dropped G before (x ++ a) (x ++ b) := by
  induction x generalizing before with
  | nil => rwa [List.append_nil] at h
  | cons x xs ih => exact .same x (ih (by rwa [List.append_assoc]))

theorem Dropped.refl (before a : List Lexeme) : Dropped G before a a := by
  rw [← List.append_nil a]
  exact Dropped.nil.append_left a

/-- What the pattern of the clause matches. -/
theorem mem_allowFilteringRe {prev : Option Char} {m : Match} (h : m ∈ allowFilteringRe.ends u.isWord prev s) :
    ∃ sp allow sp' filtering sp'', m.text = sp ++ (allow ++ (sp' ++ (filtering ++ sp''))) ∧
      foldAll allow = foldAll "ALLOW".toList ∧ foldAll filtering = foldAll "FILTERING".toList ∧
        sp' ≠ [] ∧ ∀ c ∈ sp ++ (sp' ++ sp''), isSpace c = true := by
  obtain ⟨_, h₁, _, h₂, rfl⟩ := Re.mem_seq.1 h
  obtain ⟨sp, _, -, hsp, rfl⟩ := Re.mem_many.1 h₁
  obtain ⟨_, h₃, _, h₄, rfl⟩ := Re.mem_seq.1 h₂
  obtain ⟨allow, _, -, ha, rfl⟩ := Re.mem_text.1 h₃
  obtain ⟨_, h₅, _, h₆, rfl⟩ := Re.mem_seq.1 h₄
  obtain ⟨sp', _, -, hne, hsp', rfl⟩ := Re.mem_many1.1 h₅
  obtain ⟨_, h₇, _, h₈, rfl⟩ := Re.mem_seq.1 h₆
  obtain ⟨filtering, _, -, hf, rfl⟩ := Re.mem_text.1 h₇
  obtain ⟨sp'', _, -, hsp'', rfl⟩ := Re.mem_many.1 h₈
  exact ⟨sp, allow, sp', filtering, sp'', rfl, ha, hf, hne,
    List.forall_mem_append.2 ⟨hsp, List.forall_mem_append.2 ⟨hsp', hsp''⟩⟩⟩

/-- The clause's text in tokens. -/
theorem tokens_clause {sp allow sp' filtering sp'' : List Char} (ha : foldAll allow = foldAll "ALLOW".toList)
    (hf : foldAll filtering = foldAll "FILTERING".toList) (hne : sp' ≠ [])
    (hsp : ∀ c ∈ sp ++ (sp' ++ sp''), isSpace c = true) :
    tokens u.isWord (sp ++ (allow ++ (sp' ++ (filtering ++ sp'')))) =
      sp.map Token.sign ++ (Token.word allow :: (sp'.map .sign ++ (Token.word filtering :: sp''.map .sign))) := by
  obtain ⟨h, h'⟩ := List.forall_mem_append.1 hsp
  obtain ⟨h', h''⟩ := List.forall_mem_append.1 h'
  have hallow : IsName allow := IsName.of_spelling ha (by decide)
  have hfiltering : IsName filtering := IsName.of_spelling hf (by decide)
  have hs := signs_of_spaces (u := u) h
  have hs' := signs_of_spaces (u := u) h'
  have hs'' := signs_of_spaces (u := u) h''
  have hap : Apart u.isWord (last none allow) (sp' ++ (filtering ++ sp'')) := by
    cases sp' with
    | nil => exact absurd rfl hne
    | cons c sp' => exact .inr (hs' c List.mem_cons_self)
  rw [tokens_append (.inl (last_of_signs hs)), tokens_append hap, tokens_append (.inl (last_of_signs hs')),
    tokens_append (.inr (head_of_signs hs'')), tokens_of_signs hs, tokens_of_signs hs', tokens_of_signs hs'',
    hallow.tokens, hfiltering.tokens]
  rfl

/-- A text that reads as the clause, whatever its white space. -/
structure IsClause (u : Unicode) (t : List Char) (allow filtering : List Char) : Prop where
  first : foldAll allow = foldAll "ALLOW".toList
  second : foldAll filtering = foldAll "FILTERING".toList
  begins : (∃ c us, tokens u.isWord t = .sign c :: us ∧ isSpace c = true) ∨ ∃ w us, tokens u.isWord t = .word w :: us
  quiet : ∀ x ∈ tokens u.isWord t, Quiet x
  visible : visible (tokens u.isWord t) = [.code (.word allow), .code (.word filtering)]

theorem isClause_of_match {prev : Option Char} {m : Match} (h : m ∈ allowFilteringRe.ends u.isWord prev s) :
    ∃ allow filtering, IsClause u m.text allow filtering := by
  obtain ⟨sp, allow, sp', filtering, sp'', htext, ha, hf, hne, hsp⟩ := mem_allowFilteringRe h
  have htok := tokens_clause (u := u) ha hf hne hsp
  rw [← htext] at htok
  obtain ⟨hs, hs'⟩ := List.forall_mem_append.1 hsp
  obtain ⟨hs', hs''⟩ := List.forall_mem_append.1 hs'
  have hallow : Quiet (.word allow) := quiet_spelling ha (by decide)
  have hfiltering : Quiet (.word filtering) := quiet_spelling hf (by decide)
  refine ⟨allow, filtering, ha, hf, ?_, ?_, ?_⟩
  · rw [htok]
    cases sp with
    | nil => exact .inr ⟨_, _, rfl⟩
    | cons c sp => exact .inl ⟨_, _, rfl, hs c List.mem_cons_self⟩
  · rw [htok]
    refine List.forall_mem_append.2 ⟨quiet_spaces hs, List.forall_mem_cons.2 ⟨hallow, ?_⟩⟩
    exact List.forall_mem_append.2 ⟨quiet_spaces hs', List.forall_mem_cons.2 ⟨hfiltering, quiet_spaces hs''⟩⟩
  · rw [htok, visible_append, visible_spaces hs, visible_word, visible_append, visible_spaces hs', visible_word,
      visible_spaces hs'']
    rfl

theorem IsClause.ne_nil {t allow filtering : List Char} (h : IsClause u t allow filtering) : t ≠ [] := by
  rintro rfl
  cases h.visible

theorem Place.over_append (at' : Place G) (ts us : List Token) : at'.over (ts ++ us) = (at'.over ts).over us := by
  simp only [Place.over, Lexer.lexAll_append, List.append_assoc]

/-- The clause in code or in a comment leaves a reader where a blank would. -/
theorem lexAll_clause {here : Place G} {t allow filtering : List Char} (ht : IsClause u t allow filtering)
    (hsure : here.region.isComment = true ∨ here.region = .code ∧
      (G.settled here.mode = true ∨ t.head?.any isSpace = true))
    (hline : here.region = .lineComment → ∀ c ∈ t, G.lineEnd c = false) :
    G.lexAll here.mode (tokens u.isWord t) = (G.settle here.mode, G.held here.mode ++
      if here.region = .code then [.code (.word allow), .code (.word filtering)] else []) := by
  have hsure' : G.Sure here.mode (tokens u.isWord t) := by
    rcases ht.begins with hspace | ⟨w, us, hw⟩
    · exact .inr (.inl hspace)
    · rcases hsure with hcomment | ⟨-, hsettled | hhead⟩
      · exact .inr (.inr ⟨hcomment, w, us, hw⟩)
      · exact .inl hsettled
      · -- The text cannot begin with white space and with a word.
        cases t with
        | nil => cases hhead
        | cons c t =>
          rw [tokens_cons, u.word_space c hhead, if_neg Bool.false_ne_true] at hw
          cases hw
  rw [Lexer.lexAll_quiet ht.quiet (tokens_ne_nil ht.ne_nil) hsure' fun hm c hc => hline hm c (mem_of_sign hc)]
  refine congrArg (fun xs => (G.settle here.mode, G.held here.mode ++ xs)) ?_
  rcases hsure with hcomment | ⟨hcode, -⟩
  · have hnot : here.region ≠ .code := by
      intro h
      rw [h] at hcomment
      cases hcomment
    rw [if_neg hnot]
    exact Lexer.flatMap_comment hcomment
  · rw [if_pos hcode, ← ht.visible]
    exact congrArg (fun r : Region => (tokens u.isWord t).flatMap r.emits) hcode

/-- The clause is read by itself, and so is what comes after it. -/
theorem cut_clause {at' : Place G} {p t : List Char} (rest : List Char) (hne : t ≠ [])
    (hcut : (at'.read u p).region.isComment = true ∨
      Apart u.isWord (last none p) t ∧ Apart u.isWord (last none t) rest)
    (hregion : ((at'.read u p).read u t).region = (at'.read u p).region) :
    G.lexAll at'.mode (tokens u.isWord (p ++ t)) = G.lexAll at'.mode (tokens u.isWord p ++ tokens u.isWord t) ∧
      G.lexAll at'.mode (tokens u.isWord (p ++ (t ++ rest))) =
        G.lexAll at'.mode (tokens u.isWord (p ++ t) ++ tokens u.isWord rest) := by
  have hread : G.lexAll at'.mode (tokens u.isWord (p ++ t)) =
      G.lexAll at'.mode (tokens u.isWord p ++ tokens u.isWord t) :=
    Lexer.lexAll_tokens_append (hcut.symm.imp_left And.left)
  refine ⟨hread, ?_⟩
  rw [← List.append_assoc]
  apply Lexer.lexAll_tokens_append
  rcases hcut with hcomment | ⟨-, hend⟩
  · right
    rw [hread, Lexer.lexAll_append]
    show ((at'.read u p).read u t).region.isComment = true
    rwa [hregion]
  · left
    obtain ⟨c, t', rfl⟩ := List.exists_cons_of_ne_nil hne
    rwa [last_append]

theorem apart_of_space {p t : List Char} (h : t.takeWhile isSpace ≠ []) : Apart u.isWord (last none p) t := by
  cases t with
  | nil => exact absurd rfl h
  | cons c t =>
    refine .inr (u.word_space c ?_)
    by_contra hc
    exact h (List.takeWhile_cons_of_neg hc)

/-- A blank in code or in a comment leaves a reader settled. -/
theorem lexAll_blank {at' : Place G} {p : List Char} (out : List Char) (hquoted : (at'.read u p).region ≠ .quoted) :
    G.lexAll at'.mode (tokens u.isWord (p ++ ' ' :: out)) =
      ((G.lexAll (G.settle (at'.read u p).mode) (tokens u.isWord out)).1, (G.lexAll at'.mode (tokens u.isWord p)).2 ++
        (G.held (at'.read u p).mode ++ (G.lexAll (G.settle (at'.read u p).mode) (tokens u.isWord out)).2)) := by
  have hblank : u.isWord ' ' = false := u.word_space ' ' (by decide)
  have hap : Apart u.isWord (last none p) (' ' :: out) := .inr hblank
  have hread := G.read_space (at'.read u p).mode ' ' (by decide) fun _ => G.lineEnd_blank
  rw [Lexer.region_emits_space (r := G.region (at'.read u p).mode) (by decide) hquoted, List.append_nil] at hread
  rw [tokens_append hap, tokens_cons, hblank, if_neg Bool.false_ne_true, Lexer.lexAll_append, Lexer.lexAll_cons]
  show ((G.lexAll (G.read (at'.read u p).mode (.sign ' ')).1 _).1, _ ++ ((G.read (at'.read u p).mode (.sign ' ')).2 ++
    (G.lexAll (G.read (at'.read u p).mode (.sign ' ')).1 _).2)) = _
  rw [hread]

theorem lexemesFrom_blank {at' : Place G} {p : List Char} (out : List Char) (hquoted : (at'.read u p).region ≠ .quoted) :
    G.lexemesFrom at'.mode (tokens u.isWord (p ++ ' ' :: out)) = (G.lexAll at'.mode (tokens u.isWord p)).2 ++
      (G.held (at'.read u p).mode ++ G.lexemesFrom (G.settle (at'.read u p).mode) (tokens u.isWord out)) := by
  rw [Lexer.lexemesFrom, lexAll_blank out hquoted, List.append_assoc, List.append_assoc]
  rfl

theorem ClauseOk.cases {here : Place G} {p : List Char} {m : Match} (h : ClauseOk u here p m) : here.region ≠ .quoted ∧
    ((here.region.isComment = true ∨ Apart u.isWord (last none p) m.text ∧ Apart u.isWord (last none m.text) m.rest) ∧
        (here.region.isComment = true ∨ here.region = .code ∧
          (G.settled here.mode = true ∨ m.text.head?.any isSpace = true)) ∧
        (here.region = .lineComment → ∀ c ∈ m.text, G.lineEnd c = false) ∧
        (here.region = .code → G.clause (here.before ++ G.held here.mode)
          (G.lexemesFrom (here.read u m.text).mode (tokens u.isWord m.rest)) = true) ∨
      here.region = .lineComment ∧ m.rest = [] ∧ (here.read u (m.text.takeWhile isSpace)).region = .code ∧
        G.clause here.before [] = true) := by
  unfold ClauseOk at h
  generalize here.region = region at h ⊢
  cases region with
  | quoted => exact h.elim
  | blockComment => exact ⟨nofun, .inl ⟨.inl rfl, .inl rfl, nofun, nofun⟩⟩
  | lineComment =>
    exact ⟨nofun, h.imp (fun h => ⟨.inl rfl, .inl rfl, fun _ => h, nofun⟩) (fun h => ⟨rfl, h⟩)⟩
  | code => exact ⟨nofun, .inl ⟨.inr h.1, .inr ⟨rfl, h.2.1⟩, nofun, fun _ => h.2.2⟩⟩

section
variable {at' : Place G} {p out : List Char} {m : Match} {allow filtering : List Char}

theorem read_clause {here : Place G} {t : List Char} (ht : IsClause u t allow filtering)
    (hsure : here.region.isComment = true ∨ here.region = .code ∧
      (G.settled here.mode = true ∨ t.head?.any isSpace = true))
    (hline : here.region = .lineComment → ∀ c ∈ t, G.lineEnd c = false) :
    here.read u t = ⟨G.settle here.mode, here.before ++ (G.held here.mode ++
      if here.region = .code then [.code (.word allow), .code (.word filtering)] else [])⟩ := by
  rw [Place.read, Place.over, lexAll_clause ht hsure hline]

/-- A clause is left out where it stands, in code or in a comment, and the text after it goes on as before. -/
theorem dropped_match (hclause : IsClause u m.text allow filtering) (hquoted : (at'.read u p).region ≠ .quoted)
    (hcut : (at'.read u p).region.isComment = true ∨
      Apart u.isWord (last none p) m.text ∧ Apart u.isWord (last none m.text) m.rest)
    (hsure : (at'.read u p).region.isComment = true ∨ (at'.read u p).region = .code ∧
      (G.settled (at'.read u p).mode = true ∨ m.text.head?.any isSpace = true))
    (hline : (at'.read u p).region = .lineComment → ∀ c ∈ m.text, G.lineEnd c = false)
    (hbetween : (at'.read u p).region = .code → G.clause ((at'.read u p).before ++ G.held (at'.read u p).mode)
      (G.lexemesFrom ((at'.read u p).read u m.text).mode (tokens u.isWord m.rest)) = true)
    (ih : Dropped G (at'.read u (p ++ m.text)).before
      (G.lexemesFrom (at'.read u (p ++ m.text)).mode (tokens u.isWord m.rest))
      (G.lexemesFrom (at'.read u (p ++ m.text)).mode (tokens u.isWord out))) :
    at'.read u (p ++ m.text) = (at'.read u p).read u m.text ∧
      Dropped G at'.before (G.lexemesFrom at'.mode (tokens u.isWord (p ++ (m.text ++ m.rest))))
        (G.lexemesFrom at'.mode (tokens u.isWord (p ++ ' ' :: out))) := by
  have hread := lexAll_clause hclause hsure hline
  have hplace := read_clause hclause hsure hline
  have hsame : ((at'.read u p).read u m.text).region = (at'.read u p).region := by
    rw [hplace]
    exact G.region_settle _
  obtain ⟨hwhole, hjoin⟩ := cut_clause m.rest hclause.ne_nil hcut hsame
  have hthere : at'.read u (p ++ m.text) = (at'.read u p).read u m.text := by
    rw [Place.read, Place.over, hwhole]
    exact Place.over_append at' _ _
  refine ⟨hthere, ?_⟩
  rw [hthere, hplace] at ih
  rw [hplace] at hbetween
  have hold : G.lexemesFrom at'.mode (tokens u.isWord (p ++ (m.text ++ m.rest))) =
      (G.lexAll at'.mode (tokens u.isWord p)).2 ++ (G.held (at'.read u p).mode ++
        ((if (at'.read u p).region = .code then [.code (.word allow), .code (.word filtering)] else []) ++
          G.lexemesFrom (G.settle (at'.read u p).mode) (tokens u.isWord m.rest))) := by
    rw [Lexer.lexemesFrom_congr hjoin, Lexer.lexemesFrom_append, hwhole, Lexer.lexAll_append,
      show G.lexAll (G.lexAll at'.mode (tokens u.isWord p)).1 (tokens u.isWord m.text) = _ from hread]
    simp only [List.append_assoc]
  rw [hold, lexemesFrom_blank out hquoted]
  apply Dropped.append_left
  apply Dropped.append_left
  by_cases hcode : (at'.read u p).region = .code
  · rw [if_pos hcode] at ih ⊢
    rw [← List.append_assoc] at ih
    exact .clause hclause.first hclause.second (hbetween hcode) ih
  · rw [if_neg hcode, List.append_nil] at ih
    rw [if_neg hcode]
    exact ih

/-- Nothing is quoted behind the blank unless a quotation begins in what comes after it. -/
theorem last_blank (hquoted : (at'.read u p).region ≠ .quoted) (hnil : m.rest = [] → out = [])
    (hlast : ∀ here : Place G, here.mode = G.settle (at'.read u p).mode → (here.read u out).region = .quoted →
      out.getLast? = m.rest.getLast?)
    (hq : (at'.read u (p ++ ' ' :: out)).region = .quoted) :
    (p ++ ' ' :: out).getLast? = (p ++ (m.text ++ m.rest)).getLast? := by
  have hq' : ((⟨G.settle (at'.read u p).mode, []⟩ : Place G).read u out).region = .quoted := by
    rw [Place.read, Place.over, lexAll_blank out hquoted] at hq
    exact hq
  cases hr : m.rest with
  | nil =>
    rw [hnil hr] at hq'
    exact absurd ((G.region_settle _).symm.trans hq') hquoted
  | cons c r =>
    have hsame := hlast _ rfl hq'
    rw [hr] at hsame
    cases out with
    | nil => cases hsame
    | cons d out =>
      rw [List.getLast?_append_of_ne_nil _ (List.cons_ne_nil _ _), List.getLast?_cons_cons, hsame,
        ← List.append_assoc, List.getLast?_append_of_ne_nil _ (List.cons_ne_nil _ _)]

/-- A clause on a line of its own, at the end and after a comment. -/
theorem dropped_ownLine (hclause : IsClause u m.text allow filtering)
    (hregion : (at'.read u p).region = .lineComment)
    (hcode : ((at'.read u p).read u (m.text.takeWhile isSpace)).region = .code)
    (hbetween : G.clause (at'.read u p).before [] = true) :
    Dropped G at'.before (G.lexemesFrom at'.mode (tokens u.isWord (p ++ m.text)))
      (G.lexemesFrom at'.mode (tokens u.isWord (p ++ [' ']))) := by
  have hquoted : (at'.read u p).region ≠ .quoted := by
    rw [hregion]
    nofun
  have hsp : m.text.takeWhile isSpace ≠ [] := by
    intro hsp
    rw [hsp] at hcode
    cases hregion.symm.trans hcode
  rw [tokens_append (apart_of_space hsp), Lexer.lexemesFrom_append, lexemesFrom_blank [] hquoted]
  apply Dropped.append_left
  have hown := Lexer.lexemesFrom_ownLine (L := G.toLexer) u.word_space hclause.quiet
    (hclause.visible ▸ List.cons_ne_nil _ _) hregion hcode
  have hheld : G.held (at'.read u p).mode = [] := G.held_comment _ (congrArg Region.isComment hregion)
  have hnone : G.lexemesFrom (G.settle (at'.read u p).mode) (tokens u.isWord []) = [] := Lexer.held_settle
  rw [show G.lexemesFrom (G.lexAll at'.mode (tokens u.isWord p)).1 (tokens u.isWord m.text) = _ from hown,
    hclause.visible, hheld, hnone]
  exact .clause hclause.first hclause.second hbetween .nil

end

/-- Taking the clause away takes two words of code away, or none; and where the text
then ends within a quotation, it ends as before. -/
theorem dropped_sub (s : List Char) {at' : Place G}
    (h : AtEach u (ClauseOk u) at' (allowFilteringRe.cuts u.isWord s.length none s).1) :
    let out := allowFilteringRe.sub u.isWord (fun _ => [' ']) s
    Dropped G at'.before (G.lexemesFrom at'.mode (tokens u.isWord s)) (G.lexemesFrom at'.mode (tokens u.isWord out)) ∧
      ((at'.read u out).region = .quoted → out.getLast? = s.getLast?) := by
  unfold Re.sub
  refine (Re.cuts_induction (r := allowFilteringRe) (motive := fun _ s cut =>
    let out := cut.1.flatMap (fun x => x.1 ++ [' ']) ++ cut.2
    (s = [] → out = []) ∧ ∀ at' : Place G, AtEach u (ClauseOk u) at' cut.1 →
      Dropped G at'.before (G.lexemesFrom at'.mode (tokens u.isWord s)) (G.lexemesFrom at'.mode (tokens u.isWord out)) ∧
        ((at'.read u out).region = .quoted → out.getLast? = s.getLast?)) ?_ ?_ _ none s).2 at' h
  · exact fun _ s => ⟨id, fun at' _ => ⟨.refl _ _, fun _ => rfl⟩⟩
  intro prev p m cut hm ⟨hnil, ih⟩
  obtain ⟨allow, filtering, hclause⟩ := isClause_of_match hm
  refine ⟨fun hs => absurd (List.append_eq_nil_iff.1 (List.append_eq_nil_iff.1 hs).2).1 hclause.ne_nil, ?_⟩
  rintro at' ⟨hok, hrest⟩
  generalize hout : cut.1.flatMap (fun x => x.1 ++ [' ']) ++ cut.2 = out at hnil ih
  have hsplit : ((p, m) :: cut.1).flatMap (fun x => x.1 ++ [' ']) ++ cut.2 = p ++ ' ' :: out := by
    rw [List.flatMap_cons, List.append_assoc, hout, List.append_assoc]
    rfl
  rw [hsplit]
  obtain ⟨hdrop, hlast⟩ := ih _ hrest
  obtain ⟨hquoted, ⟨hcut, hsure, hline, hbetween⟩ | ⟨hregion, hend, hcode, hbetween⟩⟩ := hok.cases
  · obtain ⟨hthere, hdropped⟩ := dropped_match hclause hquoted hcut hsure hline hbetween hdrop
    refine ⟨hdropped, last_blank hquoted hnil fun here hmode hq => hlast ?_⟩
    rw [hthere, read_clause hclause hsure hline]
    rw [Place.region, Place.read, Place.over, hmode] at hq
    exact hq
  · obtain rfl : out = [] := hnil hend
    refine ⟨?_, last_blank hquoted hnil fun here hmode hq => ?_⟩
    · rw [hend, List.append_nil]
      exact dropped_ownLine hclause hregion hcode hbetween
    · rw [hend]

theorem dropped_withoutAllowFiltering (hs : Trimmed s)
    (h : AtEach (G := G) u (ClauseOk u) .start (allowFilteringRe.cuts u.isWord s.length none s).1) :
    Dropped G [] (G.lexemes u.isWord s) (G.lexemes u.isWord (withoutAllowFiltering u s)) := by
  obtain ⟨hdrop, hlast⟩ := dropped_sub s h
  rw [withoutAllowFiltering, Lexer.lexemes_strip u.word_space fun hq => (hlast hq).symm ▸ hs.2]
  exact hdrop

/-! ## The names that change -/

variable {pre : List Char}

theorem Renamed.append_left {before : List Lexeme} (x : List Lexeme) {a b : List Lexeme}
    (h : Renamed G u pre (before ++ x) a b) : Renamed G u pre before (x ++ a) (x ++ b) := by
  induction x generalizing before with
  | nil => rwa [List.append_nil] at h
  | cons x xs ih => exact .same x (ih (by rwa [List.append_assoc]))

theorem Renamed.refl (before a : List Lexeme) : Renamed G u pre before a a := by
  rw [← List.append_nil a]
  exact Renamed.nil.append_left a

/-- What a name after the lead reads as, and the name that takes its place. -/
theorem renamed_name {there : Place G} {dot tb : List Char} (hsettled : G.settled there.mode = true)
    (hold : Name (tokens u.isWord (dot ++ tb))) (hnew : Name (tokens u.isWord (pre ++ tb)))
    (hdot : dot = [] ∨ foldAll dot = foldAll "demo.".toList) (htb : ∃ t ∈ demoTables, foldAll tb = foldAll t)
    (hok : dot = pre ∨ there.region ≠ .quoted ∧ (there.region = .code → G.names there.before = true)) :
    (G.lexAll there.mode (tokens u.isWord (pre ++ tb))).1 = (there.read u (dot ++ tb)).mode ∧
      ∀ a b, Renamed G u pre (there.read u (dot ++ tb)).before a b →
        Renamed G u pre there.before ((G.lexAll there.mode (tokens u.isWord (dot ++ tb))).2 ++ a)
          ((G.lexAll there.mode (tokens u.isWord (pre ++ tb))).2 ++ b) := by
  rcases hok with rfl | ⟨hquoted, hnames⟩
  · exact ⟨rfl, fun a b h => h.append_left _⟩
  rw [Place.read, Place.over, hold.lexAll hsettled, hnew.lexAll hsettled]
  refine ⟨rfl, fun a b h => ?_⟩
  change Renamed G u pre (there.before ++ (tokens u.isWord (dot ++ tb)).flatMap there.region.emits) a b at h
  change Renamed G u pre there.before ((tokens u.isWord (dot ++ tb)).flatMap there.region.emits ++ a)
    ((tokens u.isWord (pre ++ tb)).flatMap there.region.emits ++ b)
  by_cases hcode : there.region = .code
  · have hvisible := hold.quiet.2.2.2
    have hvisible' := hnew.quiet.2.2.2
    rw [hcode] at h ⊢
    rw [show (tokens u.isWord (dot ++ tb)).flatMap Region.code.emits = _ from hvisible] at h ⊢
    rw [show (tokens u.isWord (pre ++ tb)).flatMap Region.code.emits = _ from hvisible']
    exact .table hdot htb (hnames hcode) h
  · have hcomment := Region.isComment_of hcode hquoted
    rw [Lexer.flatMap_comment hcomment, List.append_nil] at h
    rwa [Lexer.flatMap_comment hcomment, Lexer.flatMap_comment hcomment]

/-- A match of the table pattern as a lead and a name, each of which a reader reads
for itself. -/
theorem tableReference_cut {prev : Option Char} {p : List Char} {m : Match}
    (h : m ∈ tableReferenceRe.ends u.isWord (last prev p) (m.text ++ m.rest)) :
    ∃ dot tb, m.text = m.group "lead" ++ (dot ++ tb) ∧ m.group "table" = tb ∧ m.group "lead" ≠ [] ∧
      (dot = [] ∨ foldAll dot = foldAll "demo.".toList) ∧ (∃ t ∈ demoTables, foldAll tb = foldAll t) ∧
        m.rest.head?.any u.isWord = false ∧ (∀ at' : Place G, G.settled (at'.read u (m.group "lead")).mode = true) ∧
          ∀ name rest : List Char, rest.head?.any u.isWord = false →
            tokens u.isWord (p ++ (m.group "lead" ++ (name ++ rest))) = tokens u.isWord p ++
              (tokens u.isWord (m.group "lead") ++ (tokens u.isWord name ++ tokens u.isWord rest)) := by
  obtain ⟨kw, sp, dot, tb, htext, hlead, htable, hkw, ⟨hne, hsp⟩, hdot, htb, hp, hrest⟩ := tableReference_spec h
  have htokens : tokens u.isWord (kw ++ sp) = Token.word kw :: sp.map .sign := by
    have hbare : tokens u.isWord ([] ++ (kw ++ (sp ++ ([] ++ [])))) = _ :=
      tokens_reference [] rfl hkw.tokens hne hsp rfl
    simpa [tokens] using hbare
  rw [hlead]
  refine ⟨dot, tb, ?_, htable, ?_, hdot, htb, hrest, fun at' => ?_, fun name rest h => ?_⟩
  · rw [htext, List.append_assoc]
  · exact fun h => hkw.ne_nil (List.append_eq_nil_iff.1 h).1
  · rw [Place.read, Place.over, htokens, Lexer.lexAll_cons]
    exact Lexer.settled_spaces hsp hne
  · rw [List.append_assoc, tokens_reference name hp hkw.tokens hne hsp h, htokens]
    rfl

/-- Rewriting the tables changes names after `FROM` and `JOIN` only, and the text
ends where it did. -/
theorem renamed_rewriteTables (hpre : pre ∈ prefixes) (s : List Char) {at' : Place G}
    (h : AtEach u (ReferenceOk u pre) at' (tableReferenceRe.cuts u.isWord s.length none s).1) :
    let out := rewriteTables u s pre
    Renamed G u pre at'.before (G.lexemesFrom at'.mode (tokens u.isWord s)) (G.lexemesFrom at'.mode (tokens u.isWord out)) ∧
      (at'.read u out).mode = (at'.read u s).mode := by
  unfold rewriteTables Re.sub
  refine (Re.cuts_induction (r := tableReferenceRe) (motive := fun _ s cut =>
    let out := cut.1.flatMap (fun x => x.1 ++ (x.2.group "lead" ++ pre ++ x.2.group "table")) ++ cut.2
    out.head? = s.head? ∧ ∀ at' : Place G, AtEach u (ReferenceOk u pre) at' cut.1 →
      Renamed G u pre at'.before (G.lexemesFrom at'.mode (tokens u.isWord s))
        (G.lexemesFrom at'.mode (tokens u.isWord out)) ∧ (at'.read u out).mode = (at'.read u s).mode) ?_ ?_ _ none s).2 at' h
  · exact fun _ s => ⟨rfl, fun at' _ => ⟨.refl _ _, rfl⟩⟩
  intro prev p m cut hm ⟨hhead, ih⟩
  obtain ⟨dot, tb, htext, htable, hne, hdot, ⟨t, ht, htb⟩, hrest, hsettled, hcut⟩ := tableReference_cut (G := G) hm
  generalize hout : cut.1.flatMap (fun x => x.1 ++ (x.2.group "lead" ++ pre ++ x.2.group "table")) ++ cut.2 = out
    at hhead ih
  have hsplit : ((p, m) :: cut.1).flatMap (fun x => x.1 ++ (x.2.group "lead" ++ pre ++ x.2.group "table")) ++ cut.2 =
      p ++ (m.group "lead" ++ ((pre ++ tb) ++ out)) := by
    simp only [← hout, List.flatMap_cons, List.append_assoc, htable]
  have hmatch : p ++ (m.text ++ m.rest) = p ++ (m.group "lead" ++ ((dot ++ tb) ++ m.rest)) := by
    simp only [htext, List.append_assoc]
  rw [hsplit, hmatch]
  constructor
  · obtain ⟨c, lead, hlead⟩ := List.exists_cons_of_ne_nil hne
    rw [hlead]
    cases p <;> rfl
  rintro at' ⟨hok, hafter⟩
  have hplace : at'.read u (p ++ m.text) = ((at'.read u p).read u (m.group "lead")).read u (dot ++ tb) := by
    have hnil := hcut (dot ++ tb) [] rfl
    rw [List.append_nil, ← htext, show tokens u.isWord [] = [] from rfl, List.append_nil] at hnil
    rw [Place.read, hnil, Place.over_append, Place.over_append]
    rfl
  have hread (name rest : List Char) (h : rest.head?.any u.isWord = false) :
      at'.read u (p ++ (m.group "lead" ++ (name ++ rest))) =
        (((at'.read u p).read u (m.group "lead")).read u name).read u rest := by
    rw [Place.read, hcut name rest h, Place.over_append, Place.over_append, Place.over_append]
    rfl
  rw [hplace] at hafter
  have hname : dot = pre ∨ ((at'.read u p).read u (m.group "lead")).region ≠ .quoted ∧
      (((at'.read u p).read u (m.group "lead")).region = .code →
        G.names ((at'.read u p).read u (m.group "lead")).before = true) := by
    refine hok.imp_left fun h => ?_
    rw [htext, htable, ← List.append_assoc] at h
    exact List.append_cancel_left (List.append_cancel_right h)
  obtain ⟨hmode, hrenamed⟩ := renamed_name (hsettled (at'.read u p)) (name_of_spelling hdot ht htb)
    (name_of_known hpre ht htb) hdot ⟨t, ht, htb⟩ hname
  obtain ⟨hih, hends⟩ := ih _ hafter
  constructor
  · rw [hcut _ _ hrest, hcut _ _ (hhead ▸ hrest)]
    simp only [Lexer.lexemesFrom_append]
    apply Renamed.append_left
    apply Renamed.append_left
    refine hrenamed _ _ ?_
    exact hmode.symm ▸ hih
  · rw [hread _ _ (hhead ▸ hrest), hread _ _ hrest]
    have hsame : (((at'.read u p).read u (m.group "lead")).read u (pre ++ tb)).mode =
      (((at'.read u p).read u (m.group "lead")).read u (dot ++ tb)).mode := hmode
    exact (congrArg (fun mode => (G.lexAll mode (tokens u.isWord out)).1) hsame).trans hends

/-! ## What stands at the end -/

/-- A limit's text, as tokens of SQL. -/
theorem quiet_limit {t : List Char} (ht : IsLimit u t) : (∀ x ∈ tokens u.isWord t, Quiet x) ∧
    (∃ c us, tokens u.isWord t = .sign c :: us ∧ isSpace c = true) ∧
      OwnLimit u (visible (tokens u.isWord t)) ∧ visible (tokens u.isWord t) ≠ [] := by
  obtain ⟨sp, l, sp', d, rfl, hsp, hl, hsp', hd⟩ := ht
  have htok : tokens u.isWord (sp ++ (l ++ (sp' ++ d))) =
      sp.map Token.sign ++ (Token.word l :: (sp'.map .sign ++ [Token.word d])) := by
    simpa [tokens] using tokens_limit [] hsp hl hsp' hd (List.forall_mem_nil _)
  have hvisible : visible (tokens u.isWord (sp ++ (l ++ (sp' ++ d)))) = [.code (.word l), .code (.word d)] := by
    rw [htok, visible_append, visible_spaces hsp.2, visible_word, visible_append, visible_spaces hsp'.2]
    rfl
  have hdigits : Quiet (.word d) := by
    rintro c rfl
    exact u.isAlpha_of_digit (hd.2 c (List.mem_singleton_self c))
  rw [hvisible, htok]
  refine ⟨?_, ?_, .limit hl hd.1 hd.2, List.cons_ne_nil _ _⟩
  · refine List.forall_mem_append.2 ⟨quiet_spaces hsp.2, List.forall_mem_cons.2 ⟨quiet_spelling hl (by decide), ?_⟩⟩
    exact List.forall_mem_append.2 ⟨quiet_spaces hsp'.2, List.forall_mem_singleton.2 hdigits⟩
  · cases sp with
    | nil => exact absurd rfl hsp.1
    | cons c sp => exact ⟨c, _, rfl, hsp.2 c List.mem_cons_self⟩

/-- Taking the limit off the end of a statement takes its two words away, or none. -/
theorem lexemes_ownLimit {x t : List Char} (ht : IsLimit u t) (hx : (Place.start.read u x : Place G).region ≠ .quoted)
    (hline : (Place.start.read u x : Place G).region = .lineComment → (∃ c ∈ t, G.lineEnd c = true) →
      ((Place.start.read u x).read u (t.takeWhile isSpace) : Place G).region = .code) :
    ∃ own, OwnLimit u own ∧ G.lexemes u.isWord (x ++ t) = G.lexemes u.isWord x ++ own ∧
      (own ≠ [] → (Place.start.read u x : Place G).region = .code ∨
        (Place.start.read u x : Place G).region = .lineComment ∧ ∃ c ∈ t, G.lineEnd c = true) := by
  obtain ⟨hquiet, hspace, hown, hne⟩ := quiet_limit ht
  have htokens : tokens u.isWord (x ++ t) = tokens u.isWord x ++ tokens u.isWord t := by
    refine tokens_append (.inr ?_)
    have hhead := ht.head
    cases t with
    | nil => cases hhead
    | cons c t => exact u.word_space c hhead
  by_cases hown' : (Place.start.read u x : Place G).region = .lineComment ∧ ∃ c ∈ t, G.lineEnd c = true
  · refine ⟨_, hown, ?_, fun _ => .inr hown'⟩
    obtain ⟨hregion, hends⟩ := hown'
    have hread := Lexer.lexemesFrom_ownLine (L := G.toLexer) u.word_space hquiet hne hregion (hline hregion hends)
    have hheld : G.held (G.lexAll G.start (tokens u.isWord x)).1 = [] := G.held_comment _ (congrArg Region.isComment hregion)
    have hbefore : G.lexemes u.isWord x = (G.lexAll G.start (tokens u.isWord x)).2 := by
      rw [Lexer.lexemes, Lexer.lexemesFrom, hheld, List.append_nil]
    rw [hbefore, Lexer.lexemes, htokens, Lexer.lexemesFrom_append]
    exact congrArg _ hread
  · have hstays : G.Stays (Place.start.read u x : Place G).mode (tokens u.isWord t) := by
      intro hm c hc
      exact Bool.eq_false_iff.2 fun h => hown' ⟨hm, c, mem_of_sign hc, h⟩
    have hread := Lexer.lexemesFrom_quiet hquiet (fun h => hne (by rw [h]; rfl)) (.inr (.inl hspace)) hstays
    refine ⟨(tokens u.isWord t).flatMap (Place.start.read u x : Place G).region.emits, ?_, ?_, ?_⟩
    · by_cases hcode : (Place.start.read u x : Place G).region = .code
      · rw [hcode]
        exact hown
      · rw [Lexer.flatMap_comment (Region.isComment_of hcode hx)]
        exact .none
    · have hbefore : G.lexemes u.isWord x = (G.lexAll G.start (tokens u.isWord x)).2 ++
          G.held (Place.start.read u x : Place G).mode := rfl
      rw [hbefore, List.append_assoc, Lexer.lexemes, htokens, Lexer.lexemesFrom_append]
      exact congrArg _ hread
    · intro hown
      left
      by_contra hcode
      exact hown (Lexer.flatMap_comment (Region.isComment_of hcode hx))

/-- What a dialect puts after a statement is read, or is part of its last comment. -/
theorem lexemes_ending {x y : List Char} {ts : List Token} {limit : Nat}
    (hy : tokens u.isWord (x ++ y) = tokens u.isWord x ++ ts) (hts : ∀ t ∈ ts, Quiet t)
    (hblank : ∃ us, ts = .sign ' ' :: us) (hsigns : ∀ c, .sign c ∈ ts → c = ' ') (hvisible : visible ts ∈ endings limit)
    (hx : (Place.start.read u x : Place G).region ≠ .quoted) :
    ∃ ending ∈ endings limit, G.lexemes u.isWord (x ++ y) = G.lexemes u.isWord x ++ ending ∧
      (ending ≠ [] → (Place.start.read u x : Place G).region = .code) := by
  obtain ⟨us, hus⟩ := hblank
  have hread := Lexer.lexemes_append (L := G.toLexer) hy hts ⟨' ', us, hus, by decide⟩
    fun c hc => hsigns c hc ▸ G.lineEnd_blank
  refine ⟨_, ?_, hread, fun hne => ?_⟩
  · change ts.flatMap (Place.start.read u x : Place G).region.emits ∈ endings limit
    by_cases hcode : (Place.start.read u x : Place G).region = .code
    · rw [hcode]
      exact hvisible
    · rw [Lexer.flatMap_comment (Region.isComment_of hcode hx)]
      exact List.mem_cons_self
  · by_contra hcode
    exact hne (Lexer.flatMap_comment (Region.isComment_of hcode hx))

theorem lexemes_limitClause {x : List Char} (limit : Nat) (hx : (Place.start.read u x : Place G).region ≠ .quoted) :
    ∃ ending ∈ endings limit, G.lexemes u.isWord (x ++ limitClause limit) = G.lexemes u.isWord x ++ ending ∧
      (ending ≠ [] → (Place.start.read u x : Place G).region = .code) := by
  refine lexemes_ending (tokens_limitClause x limit) (quiet_limitClause limit) ⟨_, rfl⟩ (by simp) ?_ hx
  exact List.mem_cons_of_mem _ List.mem_cons_self

theorem lexemes_cassandraEnding {x : List Char} (limit : Nat) (hx : (Place.start.read u x : Place G).region ≠ .quoted) :
    ∃ ending ∈ endings limit,
      G.lexemes u.isWord (x ++ (limitClause limit ++ " ALLOW FILTERING".toList)) = G.lexemes u.isWord x ++ ending ∧
        (ending ≠ [] → (Place.start.read u x : Place G).region = .code) := by
  have htokens : tokens u.isWord (x ++ (limitClause limit ++ " ALLOW FILTERING".toList)) = tokens u.isWord x ++
      ([Token.sign ' ', .word "LIMIT".toList, .sign ' ', .word (toString limit).toList] ++
        [Token.sign ' ', .word "ALLOW".toList, .sign ' ', .word "FILTERING".toList]) := by
    rw [← List.append_assoc, tokens_allowFiltering, tokens_limitClause, List.append_assoc]
  have hquiet := List.forall_mem_append.2 ⟨quiet_limitClause limit, quiet_allowFiltering⟩
  refine lexemes_ending htokens hquiet ⟨_, rfl⟩ (by simp) ?_ hx
  exact List.mem_cons_of_mem _ (List.mem_cons_of_mem _ List.mem_cons_self)

/-! ## All of it -/

/-- The statement without its limit at the end, in tokens of SQL. -/
theorem lexemes_body {e : Engine} {statement : List Char} (h : Clear G u e statement)
    (hquoted : (ending G u e statement).region ≠ .quoted) : ∃ own, OwnLimit u own ∧
      G.lexemes u.isWord (withoutAllowFiltering u statement) = G.lexemes u.isWord (body u e statement) ++ own ∧
        (own ≠ [] → G.opens (G.lexemes u.isWord (body u e statement)) = true) := by
  by_cases he : e = .cassandra
  · have htrim : Trimmed (withoutAllowFiltering u statement) := trimmed_strip _
    have hbody : body u e statement = stripLimit u (withoutAllowFiltering u statement) := if_pos he
    rcases stripLimit_spec (u := u) htrim with ⟨-, hself⟩ | ⟨t, hst, ht, -⟩
    · exact ⟨[], .none, by rw [hbody, hself, List.append_nil], fun h => absurd rfl h⟩
    · have hstripped : stripped u e statement = t := by
        rw [stripped, hbody]
        generalize stripLimit u (withoutAllowFiltering u statement) = x at hst
        rw [hst, List.drop_left]
      have hline := h.ownLine
      have hopens := h.opens
      rw [hstripped] at hline hopens
      obtain ⟨own, hown, hread, hplace⟩ := @lexemes_ownLimit G u (body u e statement) t ht hquoted hline
      rw [← hbody] at hst
      exact ⟨own, hown, (congrArg (G.lexemes u.isWord) hst).trans hread, fun hne => hopens (hplace hne) (.inl he)⟩
  · exact ⟨[], .none, by rw [body, if_neg he, List.append_nil], fun h => absurd rfl h⟩

theorem dialect_body (e : Engine) (statement : List Char) (limit : Nat) : dialect u e statement limit =
    rewriteTables u (body u e statement) (tablePrefix e) ++
      if e = .cassandra then limitClause limit ++ " ALLOW FILTERING".toList
      else if hasLimit u (withoutAllowFiltering u statement) then [] else limitClause limit := by
  unfold body
  by_cases he : e = .cassandra
  · subst he
    rw [if_pos rfl, if_pos rfl, dialect_cassandra, List.append_assoc]
    rfl
  · rw [if_neg he, if_neg he, dialect_tablePrefix he]
    split
    · rw [List.append_nil]
    · rfl

/-- What a dialect adds, after a text that does not end within a quotation. -/
theorem lexemes_added {e : Engine} {statement x : List Char} (limit : Nat)
    (hx : (Place.start.read u x : Place G).region ≠ .quoted ∨
      e ≠ .cassandra ∧ hasLimit u (withoutAllowFiltering u statement) = true) :
    ∃ ending ∈ endings limit, G.lexemes u.isWord (x ++
      if e = .cassandra then limitClause limit ++ " ALLOW FILTERING".toList
      else if hasLimit u (withoutAllowFiltering u statement) then [] else limitClause limit) =
        G.lexemes u.isWord x ++ ending ∧
      (ending ≠ [] → (Place.start.read u x : Place G).region = .code ∧
        (e = .cassandra ∨ hasLimit u (withoutAllowFiltering u statement) = false)) := by
  by_cases he : e = .cassandra
  · rw [if_pos he]
    obtain ⟨ending, hmem, hread, hcode⟩ := lexemes_cassandraEnding (G := G) limit (hx.resolve_right fun h => h.1 he)
    exact ⟨ending, hmem, hread, fun h => ⟨hcode h, .inl he⟩⟩
  · rw [if_neg he]
    split
    · exact ⟨[], List.mem_cons_self, by rw [List.append_nil, List.append_nil], fun h => absurd rfl h⟩
    · rename_i hlimit
      obtain ⟨ending, hmem, hread, hcode⟩ := lexemes_limitClause (G := G) limit (hx.resolve_right fun h => hlimit h.2)
      exact ⟨ending, hmem, hread, fun h => ⟨hcode h, .inr (Bool.eq_false_iff.2 hlimit)⟩⟩

/-- A dialect changes nothing but what it is for in an accepted statement whose
matches are clear. -/
theorem tableReferencesOnly {sql statement : List Char} (hv : validate u sql = .ok statement) {e : Engine}
    (h : Clear G u e statement) (limit : Nat) : TableReferencesOnly G u e statement limit := by
  have htrim : Trimmed statement := by
    obtain ⟨rfl, -⟩ := validate_eq_ok.1 hv
    exact trimmed_strip _
  have hdropped := dropped_withoutAllowFiltering htrim h.clause
  obtain ⟨hrenamed, hends⟩ := renamed_rewriteTables (tablePrefix_mem e) _ h.reference
  have hregion : (Place.start.read u (rewriteTables u (body u e statement) (tablePrefix e)) : Place G).region =
      (ending G u e statement).region := congrArg G.region hends
  have hadded : (Place.start.read u (rewriteTables u (body u e statement) (tablePrefix e)) : Place G).region ≠ .quoted ∨
      e ≠ .cassandra ∧ hasLimit u (withoutAllowFiltering u statement) = true := by
    rw [hregion]
    by_cases hq : (ending G u e statement).region = .quoted
    · exact .inr (h.quoted hq)
    · exact .inl hq
  obtain ⟨ending, hending, hout, hcode⟩ := lexemes_added (G := G) limit hadded
  obtain ⟨own, hown, hbody, hopens⟩ : ∃ own, OwnLimit u own ∧
      G.lexemes u.isWord (withoutAllowFiltering u statement) = G.lexemes u.isWord (body u e statement) ++ own ∧
        (own ≠ [] → G.opens (G.lexemes u.isWord (body u e statement)) = true) := by
    rcases hadded with hq | ⟨he, -⟩
    · exact lexemes_body h (hregion ▸ hq)
    · exact ⟨[], .none, by rw [body, if_neg he, List.append_nil], fun h => absurd rfl h⟩
  rw [hbody] at hdropped
  refine ⟨_, own, _, ending, hdropped, hown, hrenamed, hending, fun hne => ?_, ?_⟩
  · by_cases hnil : own = []
    · rw [hnil, List.nil_append] at hne
      obtain ⟨hr, hlimit⟩ := hcode hne
      exact h.opens (.inl (hregion.symm.trans hr)) hlimit
    · exact hopens hnil
  · rw [dialect_body]
    exact hout

/-! ## What it takes -/

/-- The contents of literals and quoted names. -/
def quotations (xs : List Lexeme) : List Lexeme :=
  xs.filter fun
    | .code _ => false
    | _ => true

theorem quotations_code (ts : List Token) : quotations (ts.map .code) = [] := by
  unfold quotations
  rw [List.filter_eq_nil_iff]
  rintro _ hx
  obtain ⟨t, -, rfl⟩ := List.mem_map.1 hx
  exact Bool.false_ne_true

theorem quotations_append (a b : List Lexeme) : quotations (a ++ b) = quotations a ++ quotations b := List.filter_append ..

theorem Dropped.quotations {before a b : List Lexeme} (h : Dropped G before a b) : quotations a = quotations b := by
  induction h with
  | nil => rfl
  | same x _ ih =>
    rw [← List.singleton_append, quotations_append, ih, ← quotations_append]
    rfl
  | clause _ _ _ _ ih => exact ih

theorem Renamed.quotations {before a b : List Lexeme} (h : Renamed G u pre before a b) :
    quotations a = quotations b := by
  induction h with
  | nil => rfl
  | same x _ ih =>
    rw [← List.singleton_append, quotations_append, ih, ← quotations_append]
    rfl
  | table _ _ _ _ ih => rw [quotations_append, quotations_append, codeOf, codeOf, quotations_code, quotations_code, ih]

/-- The contents of literals and quoted names stay as they were. -/
theorem TableReferencesOnly.quotations {e : Engine} {statement : List Char} {limit : Nat}
    (h : TableReferencesOnly G u e statement limit) :
    quotations (G.lexemes u.isWord (dialect u e statement limit)) = quotations (G.lexemes u.isWord statement) := by
  obtain ⟨a, own, b, ending, hdropped, hown, hrenamed, hending, -, hout⟩ := h
  have hown : Query.quotations own = [] := by cases hown <;> rfl
  have hending : Query.quotations ending = [] := by
    simp only [endings, List.mem_cons, List.not_mem_nil, or_false] at hending
    rcases hending with rfl | rfl | rfl <;> rfl
  rw [hout, quotations_append, hending, List.append_nil, ← hrenamed.quotations, hdropped.quotations, quotations_append,
    hown, List.append_nil]

/-- A join, a function of a field, an alias and a comment that read like references. -/
example : Clear (grammarOf .presto) .ascii .presto
    "SELECT count(*) AS events FROM demo.events e JOIN alerts_by_bucket a ON e.id = a.id -- from events".toList := by
  rw [show "SELECT count(*) AS events FROM demo.events e JOIN alerts_by_bucket a ON e.id = a.id -- from events".toList = _
    from String.toList_ofList]
  decide +kernel

/-- In an expression `FROM` comes before a column. -/
example : ¬ Clear (grammarOf .presto) .ascii .presto "SELECT extract(year FROM events) FROM events".toList := by
  rw [show "SELECT extract(year FROM events) FROM events".toList = _ from String.toList_ofList]
  decide +kernel

theorem tableReferencesOnly_count : TableReferencesOnly (grammarOf .presto) .ascii .presto
    "SELECT count(*) AS events FROM events WHERE a = 'x' ALLOW FILTERING".toList 10 := by
  -- The literals by their characters, so that the kernel need not decode them.
  have hsql : "SELECT count(*) AS events FROM events WHERE a = 'x' ALLOW FILTERING;".toList = _ := String.toList_ofList
  have hstatement : "SELECT count(*) AS events FROM events WHERE a = 'x' ALLOW FILTERING".toList = _ :=
    String.toList_ofList
  have hv : validate .ascii "SELECT count(*) AS events FROM events WHERE a = 'x' ALLOW FILTERING;".toList =
      .ok "SELECT count(*) AS events FROM events WHERE a = 'x' ALLOW FILTERING".toList := by
    rw [hsql, hstatement]
    decide +kernel
  have hclear : Clear (grammarOf .presto) .ascii .presto
      "SELECT count(*) AS events FROM events WHERE a = 'x' ALLOW FILTERING".toList := by
    rw [hstatement]
    decide +kernel
  exact tableReferencesOnly hv hclear 10

/-- A literal that reads like a reference is rewritten. -/
theorem literal_rewritten :
    validate .ascii "SELECT 'from events' FROM events".toList = .ok "SELECT 'from events' FROM events".toList ∧
    dialect .ascii .presto "SELECT 'from events' FROM events".toList 10 =
      "SELECT 'from demo.events' FROM demo.events LIMIT 10".toList ∧
    ¬ TableReferencesOnly (grammarOf .presto) .ascii .presto "SELECT 'from events' FROM events".toList 10 := by
  refine ⟨by decide +kernel, by decide +kernel, fun h => ?_⟩
  have hsame := h.quotations
  revert hsame
  decide +kernel

end HtapStack.Query
