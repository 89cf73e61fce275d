import HtapStack.Lib.Words
/-!
# The tokens of SQL

A text of SQL as a dialect tokenises it: words and signs of code, and what quoted
literals and names hold, as it stands. Comments and the white space between tokens
are nothing. A sign is one character; which of them make one operator is each
dialect's own.

Which signs begin and end a comment or a quotation differs from dialect to dialect,
and so a tokeniser is any `Lexer`: one that reads a text token by token, and reads
names, numbers and white space as they all do.

`lexAll_tokens_append` cuts a text anywhere between two words, and even within a word
of a comment, and `lexAll_quiet` reads what neither begins nor ends anything.
-/

namespace HtapStack.Sql
open Py

inductive Lexeme where
  | code (t : Token)
  | quoted (t : Token)
  deriving DecidableEq, Repr

inductive Region where
  | code
  | lineComment
  | blockComment
  | quoted
  deriving DecidableEq, Repr

def Region.isComment : Region → Bool
  | .lineComment | .blockComment => true
  | .code | .quoted => false

theorem Region.isComment_of {r : Region} (hcode : r ≠ .code) (hquoted : r ≠ .quoted) : r.isComment = true := by
  cases r <;> simp_all [Region.isComment]

/-- What a token comes to that neither begins nor ends anything. -/
def Region.emits : Region → Token → List Lexeme
  | .code, .word w => [.code (.word w)]
  | .code, .sign c => if isSpace c then [] else [.code (.sign c)]
  | .quoted, t => [.quoted t]
  | .lineComment, _ | .blockComment, _ => []

/-- A token that begins and ends nothing, but a comment of a line: white space, the
dot of a name, and a word, unless it is a letter that a literal may begin with. -/
def Quiet : Token → Prop
  | .word w => ∀ c, w = [c] → c.isAlpha = false
  | .sign c => isSpace c = true ∨ c = '.'

theorem flatMap_quoted (ts : List Token) : ts.flatMap Region.quoted.emits = ts.map .quoted := by
  induction ts with
  | nil => rfl
  | cons t ts ih => rw [List.flatMap_cons, ih]; rfl

/-- The tokens that are not white space. -/
def visible (ts : List Token) : List Lexeme := ts.flatMap Region.code.emits

theorem visible_append (ts us : List Token) : visible (ts ++ us) = visible ts ++ visible us := List.flatMap_append

@[simp] theorem visible_word (w : List Char) (ts : List Token) : visible (.word w :: ts) = .code (.word w) :: visible ts := rfl

theorem visible_spaces {sp : List Char} (h : ∀ c ∈ sp, isSpace c = true) : visible (sp.map .sign) = [] := by
  refine List.flatMap_eq_nil_iff.2 fun t ht => ?_
  obtain ⟨c, hc, rfl⟩ := List.mem_map.1 ht
  exact if_pos (h c hc)

theorem quiet_spaces {sp : List Char} (h : ∀ c ∈ sp, isSpace c = true) : ∀ t ∈ sp.map Token.sign, Quiet t := by
  rintro _ ht
  obtain ⟨c, hc, rfl⟩ := List.mem_map.1 ht
  exact .inl (h c hc)

/-- A tokeniser. `held` is what it has read and not put out yet, and `settle` where it
stands after what decides it; `lineEnd` is what ends a comment of a line. -/
structure Lexer where
  Mode : Type
  start : Mode
  read : Mode → Token → Mode × List Lexeme
  held : Mode → List Lexeme
  region : Mode → Region
  settled : Mode → Bool
  settle : Mode → Mode
  lineEnd : Char → Bool
  lineEnd_blank : lineEnd ' ' = false
  lineEnd_dot : lineEnd '.' = false
  settled_start : settled start = true
  region_start : region start = .code
  settled_settle : ∀ m, settled (settle m) = true
  settle_of_settled : ∀ m, settled m = true → settle m = m
  region_settle : ∀ m, region (settle m) = region m
  held_settled : ∀ m, settled m = true → held m = []
  held_comment : ∀ m, (region m).isComment = true → held m = []
  read_space : ∀ m c, isSpace c = true → (region m = .lineComment → lineEnd c = false) →
    read m (.sign c) = (settle m, held m ++ (region m).emits (.sign c))
  read_lineEnd : ∀ m c, isSpace c = true → region m = .lineComment → lineEnd c = true →
    (read m (.sign c)).2 = [] ∧ settled (read m (.sign c)).1 = true ∧
      (region (read m (.sign c)).1 = .code ∨ region (read m (.sign c)).1 = .lineComment)
  read_quiet : ∀ m t, settled m = true → Quiet t → (∀ c, t = .sign c → isSpace c = false) →
    read m t = (m, (region m).emits t)
  read_comment : ∀ m w, (region m).isComment = true → read m (.word w) = (settle m, [])
  region_word : ∀ m w, region (read m (.word w)).1 = region m

namespace Lexer

section
variable (L : Lexer)

def lexAll : L.Mode → List Token → L.Mode × List Lexeme
  | m, [] => (m, [])
  | m, t :: ts => ((lexAll (L.read m t).1 ts).1, (L.read m t).2 ++ (lexAll (L.read m t).1 ts).2)

/-- All that a text comes to from a place on. -/
def lexemesFrom (m : L.Mode) (ts : List Token) : List Lexeme := (L.lexAll m ts).2 ++ L.held (L.lexAll m ts).1

def lexemes (isWord : Char → Bool) (s : List Char) : List Lexeme := L.lexemesFrom L.start (tokens isWord s)

end

variable {L : Lexer} {m : L.Mode} {ts us : List Token} {t : Token}

@[simp] theorem lexAll_nil : L.lexAll m [] = (m, []) := rfl

theorem lexAll_cons :
    L.lexAll m (t :: ts) = ((L.lexAll (L.read m t).1 ts).1, (L.read m t).2 ++ (L.lexAll (L.read m t).1 ts).2) := rfl

@[simp] theorem lexAll_singleton : L.lexAll m [t] = L.read m t := by
  rw [lexAll_cons, lexAll_nil, List.append_nil]

theorem lexAll_append : L.lexAll m (ts ++ us) =
    ((L.lexAll (L.lexAll m ts).1 us).1, (L.lexAll m ts).2 ++ (L.lexAll (L.lexAll m ts).1 us).2) := by
  induction ts generalizing m with
  | nil => rfl
  | cons t ts ih => rw [List.cons_append, lexAll_cons, ih, lexAll_cons, List.append_assoc]

theorem lexemesFrom_append :
    L.lexemesFrom m (ts ++ us) = (L.lexAll m ts).2 ++ L.lexemesFrom (L.lexAll m ts).1 us := by
  rw [lexemesFrom, lexAll_append, List.append_assoc]
  rfl

theorem lexemesFrom_congr (h : L.lexAll m ts = L.lexAll m us) : L.lexemesFrom m ts = L.lexemesFrom m us := by
  rw [lexemesFrom, h]
  rfl

@[simp] theorem settle_settle : L.settle (L.settle m) = L.settle m := L.settle_of_settled _ (L.settled_settle m)

@[simp] theorem held_settle : L.held (L.settle m) = [] := L.held_settled _ (L.settled_settle m)

/-! ## White space -/

/-- Nothing in a comment of a line that could end it. -/
def Stays (L : Lexer) (m : L.Mode) (ts : List Token) : Prop :=
  L.region m = .lineComment → ∀ c, .sign c ∈ ts → L.lineEnd c = false

theorem Stays.of_settle (h : L.Stays m (t :: ts)) : L.Stays (L.settle m) ts :=
  fun hm c hc => h (L.region_settle m ▸ hm) c (List.mem_cons_of_mem _ hc)

/-- After white space a reader is sure where it stands. -/
theorem settled_space {c : Char} (hc : isSpace c = true) : L.settled (L.read m (.sign c)).1 = true := by
  by_cases hend : L.region m = .lineComment ∧ L.lineEnd c = true
  · exact (L.read_lineEnd m c hc hend.1 hend.2).2.1
  · rw [L.read_space m c hc fun hm => Bool.eq_false_iff.2 fun h => hend ⟨hm, h⟩]
    exact L.settled_settle m

theorem settled_spaces {sp : List Char} (hsp : ∀ c ∈ sp, isSpace c = true) (hne : sp ≠ []) :
    L.settled (L.lexAll m (sp.map .sign)).1 = true := by
  rcases List.eq_nil_or_concat sp with rfl | ⟨sp, c, rfl⟩
  · exact absurd rfl hne
  · rw [List.concat_eq_append, List.map_append, lexAll_append]
    exact (congrArg (fun x => L.settled x.1) lexAll_singleton).trans (settled_space (hsp c (by simp)))

/-- White space after code or a comment is nothing. -/
theorem lexemesFrom_spaces {sp : List Char} (hsp : ∀ c ∈ sp, isSpace c = true) (hm : L.region m ≠ .quoted) :
    L.lexemesFrom m (sp.map .sign) = L.held m := by
  induction sp generalizing m with
  | nil => rfl
  | cons c sp ih =>
    obtain ⟨hc, hsp⟩ := List.forall_mem_cons.1 hsp
    rw [List.map_cons, ← List.singleton_append, lexemesFrom_append, lexAll_singleton]
    by_cases hend : L.region m = .lineComment ∧ L.lineEnd c = true
    · obtain ⟨hnil, hsettled, hregion⟩ := L.read_lineEnd m c hc hend.1 hend.2
      rw [hnil, ih hsp (by rcases hregion with h | h <;> simp [h]), L.held_settled _ hsettled,
        L.held_comment m (by simp [hend.1, Region.isComment])]
      rfl
    · rw [L.read_space m c hc fun h => Bool.eq_false_iff.2 fun h' => hend ⟨h, h'⟩]
      rw [ih hsp (by rwa [L.region_settle]), held_settle, List.append_nil]
      cases hr : L.region m <;> simp_all [Region.emits]

/-- Within a quotation white space is no end. -/
theorem region_spaces_quoted {sp : List Char} (hsp : ∀ c ∈ sp, isSpace c = true) (hm : L.region m = .quoted) :
    L.region (L.lexAll m (sp.map .sign)).1 = .quoted := by
  induction sp generalizing m with
  | nil => exact hm
  | cons c sp ih =>
    obtain ⟨hc, hsp⟩ := List.forall_mem_cons.1 hsp
    rw [List.map_cons, lexAll_cons, L.read_space m c hc (by simp [hm])]
    exact ih hsp (by rwa [L.region_settle])

theorem lexAll_spaces_start {sp : List Char} (hsp : ∀ c ∈ sp, isSpace c = true) :
    L.lexAll L.start (sp.map .sign) = (L.start, []) := by
  induction sp with
  | nil => rfl
  | cons c sp ih =>
    obtain ⟨hc, hsp⟩ := List.forall_mem_cons.1 hsp
    rw [List.map_cons, lexAll_cons, L.read_space _ c hc (by simp [L.region_start]),
      L.settle_of_settled _ L.settled_start, ih hsp, L.held_settled _ L.settled_start]
    simp [L.region_start, Region.emits, hc]

/-- White space that leads out of a comment of a line leads to a settled place in the code. -/
theorem lexAll_lineEnd {sp : List Char} (hsp : ∀ c ∈ sp, isSpace c = true) (hm : L.region m = .lineComment)
    (hcode : L.region (L.lexAll m (sp.map .sign)).1 = .code) :
    (L.lexAll m (sp.map .sign)).2 = [] ∧ L.settled (L.lexAll m (sp.map .sign)).1 = true := by
  have hne : sp ≠ [] := by
    rintro rfl
    cases hm.symm.trans hcode
  refine ⟨?_, settled_spaces hsp hne⟩
  have h := lexemesFrom_spaces hsp (m := m) (by simp [hm])
  rw [L.held_comment m (by simp [hm, Region.isComment])] at h
  exact (List.append_eq_nil_iff.1 h).1

/-! ## What begins and ends nothing -/

theorem region_emits_space {c : Char} {r : Region} (hc : isSpace c = true) (hr : r ≠ .quoted) :
    r.emits (.sign c) = [] := by
  cases r <;> simp_all [Region.emits]

/-- Where a reader stands settles what the first of some quiet tokens is. -/
def Sure (L : Lexer) (m : L.Mode) (ts : List Token) : Prop :=
  L.settled m = true ∨ (∃ c us, ts = .sign c :: us ∧ isSpace c = true) ∨
    (L.region m).isComment = true ∧ ∃ w us, ts = .word w :: us

theorem read_sure (ht : Quiet t) (hsure : L.Sure m (t :: ts)) (hstays : L.Stays m (t :: ts)) :
    L.read m t = (L.settle m, L.held m ++ (L.region m).emits t) := by
  by_cases hspace : ∃ c, t = .sign c ∧ isSpace c = true
  · obtain ⟨c, rfl, hc⟩ := hspace
    exact L.read_space m c hc fun hm => hstays hm c List.mem_cons_self
  rcases hsure with hsettled | ⟨c, us, h, hc⟩ | ⟨hcomment, w, us, h⟩
  · rw [L.settle_of_settled _ hsettled, L.held_settled _ hsettled]
    exact L.read_quiet m t hsettled ht fun c hc => Bool.eq_false_iff.2 fun h => hspace ⟨c, hc, h⟩
  · exact absurd ⟨c, (List.cons.inj h).1, hc⟩ hspace
  · rw [(List.cons.inj h).1, L.read_comment m w hcomment, L.held_comment m hcomment]
    cases hr : L.region m <;> simp_all [Region.emits, Region.isComment]

/-- Quiet tokens come to what each comes to. -/
theorem lexAll_quiet (hts : ∀ t ∈ ts, Quiet t) (hne : ts ≠ []) (hsure : L.Sure m ts) (hstays : L.Stays m ts) :
    L.lexAll m ts = (L.settle m, L.held m ++ ts.flatMap (L.region m).emits) := by
  induction ts generalizing m with
  | nil => exact absurd rfl hne
  | cons t ts ih =>
    obtain ⟨ht, hts⟩ := List.forall_mem_cons.1 hts
    have hread := read_sure ht hsure hstays
    rw [lexAll_cons, hread, List.flatMap_cons]
    cases ts with
    | nil => simp
    | cons t' ts =>
      rw [ih hts nofun (.inl (L.settled_settle m)) hstays.of_settle, settle_settle, held_settle, L.region_settle,
        List.append_assoc]
      rfl

theorem lexemesFrom_quiet (hts : ∀ t ∈ ts, Quiet t) (hne : ts ≠ []) (hsure : L.Sure m ts) (hstays : L.Stays m ts) :
    L.lexemesFrom m ts = L.held m ++ ts.flatMap (L.region m).emits := by
  rw [lexemesFrom, lexAll_quiet hts hne hsure hstays, held_settle, List.append_nil]

/-- Nothing of a comment is read. -/
theorem flatMap_comment {r : Region} (hr : r.isComment = true) : ts.flatMap r.emits = [] := by
  cases r <;> first | exact List.flatMap_eq_nil_iff.2 fun _ _ => rfl | cases hr

/-! ## Cutting a text -/

variable {isWord : Char → Bool} {a b : List Char}

/-- In a comment it does not matter where a word is cut. -/
theorem lexAll_tokens_comment (h : (L.region (L.lexAll m (tokens isWord a)).1).isComment = true) :
    L.lexAll m (tokens isWord (a ++ b)) = L.lexAll m (tokens isWord a ++ tokens isWord b) := by
  obtain ⟨x, w, rfl, hx, hw⟩ : ∃ x w, a = x ++ w ∧ (last none x).any isWord = false ∧ ∀ c ∈ w, isWord c = true :=
    ⟨a.rdropWhile isWord, a.rtakeWhile isWord, (List.rdropWhile_append_rtakeWhile ..).symm,
      by rw [last_none]; exact last_rdropWhile isWord a, fun _ hc => List.mem_rtakeWhile_imp hc⟩
  obtain ⟨y, z, rfl, hy, hz⟩ : ∃ y z, b = y ++ z ∧ (∀ c ∈ y, isWord c = true) ∧ z.head?.any isWord = false :=
    ⟨b.takeWhile isWord, b.dropWhile isWord, List.takeWhile_append_dropWhile.symm,
      fun _ hc => List.mem_takeWhile_imp hc, head_dropWhile isWord b⟩
  by_cases hwne : w = []
  · rw [hwne, List.append_nil, tokens_append (.inl hx)]
  by_cases hyne : y = []
  · rw [hyne, List.nil_append, tokens_append (.inr hz)]
  -- The word is read in the comment, whole or in two.
  have hwhole : tokens isWord (w ++ y) = [.word (w ++ y)] :=
    tokens_of_word (by simp [hwne]) (List.forall_mem_append.2 ⟨hw, hy⟩)
  rw [tokens_append (.inl hx), tokens_of_word hwne hw, lexAll_append, lexAll_singleton, L.region_word] at h
  rw [List.append_assoc, ← List.append_assoc w, tokens_append (.inl hx), tokens_append (a := w ++ y) (.inr hz), hwhole,
    tokens_append (a := x) (.inl hx), tokens_append (a := y) (.inr hz), tokens_of_word hwne hw, tokens_of_word hyne hy,
    List.append_assoc, List.singleton_append, List.singleton_append, List.singleton_append]
  simp only [lexAll_append, lexAll_cons, L.read_comment _ _ h, L.read_comment _ _ ((congrArg _ (L.region_settle _)).trans h),
    settle_settle, List.nil_append]

theorem lexAll_tokens_append
    (h : Apart isWord (last none a) b ∨ (L.region (L.lexAll m (tokens isWord a)).1).isComment = true) :
    L.lexAll m (tokens isWord (a ++ b)) = L.lexAll m (tokens isWord a ++ tokens isWord b) := by
  rcases h with h | h
  · rw [tokens_append h]
  · exact lexAll_tokens_comment h

/-- Quiet tokens after a text. -/
theorem lexemes_append (hb : tokens isWord (a ++ b) = tokens isWord a ++ ts) (hts : ∀ t ∈ ts, Quiet t)
    (hspace : ∃ c us, ts = .sign c :: us ∧ isSpace c = true) (hline : ∀ c, .sign c ∈ ts → L.lineEnd c = false) :
    L.lexemes isWord (a ++ b) =
      L.lexemes isWord a ++ ts.flatMap (L.region (L.lexAll L.start (tokens isWord a)).1).emits := by
  have hne : ts ≠ [] := by
    obtain ⟨c, us, rfl, -⟩ := hspace
    exact List.cons_ne_nil _ _
  rw [lexemes, hb, lexemesFrom_append, lexemesFrom_quiet hts hne (.inr (.inl hspace)) fun _ => hline, lexemes,
    lexemesFrom, List.append_assoc]

/-- What stands on a line of its own is code, though a comment comes before it. -/
theorem lexemesFrom_ownLine (hspace : ∀ c, isSpace c = true → isWord c = false) (ha : ∀ t ∈ tokens isWord a, Quiet t)
    (hne : visible (tokens isWord a) ≠ []) (hm : L.region m = .lineComment)
    (hcode : L.region (L.lexAll m (tokens isWord (a.takeWhile isSpace))).1 = .code) :
    L.lexemesFrom m (tokens isWord a) = visible (tokens isWord a) := by
  obtain ⟨sp, v, rfl, hsp, hcode⟩ : ∃ sp v, a = sp ++ v ∧ (∀ c ∈ sp, isSpace c = true) ∧
      L.region (L.lexAll m (tokens isWord sp)).1 = .code :=
    ⟨a.takeWhile isSpace, a.dropWhile isSpace, List.takeWhile_append_dropWhile.symm,
      fun _ hc => List.mem_takeWhile_imp hc, hcode⟩
  have hsigns : ∀ c ∈ sp, isWord c = false := fun c hc => hspace c (hsp c hc)
  rw [tokens_append (.inl (last_of_signs hsigns)), tokens_of_signs hsigns] at ha hne ⊢
  rw [tokens_of_signs hsigns] at hcode
  rw [visible_append, visible_spaces hsp, List.nil_append] at hne ⊢
  obtain ⟨hnil, hsettled⟩ := lexAll_lineEnd hsp hm hcode
  have hv : tokens isWord v ≠ [] := fun h => hne (by rw [h]; rfl)
  rw [lexemesFrom_append, hnil, List.nil_append, lexemesFrom_quiet (fun t ht => ha t (List.mem_append_right _ ht)) hv
    (.inl hsettled) (by simp [Stays, hcode]), hcode, L.held_settled _ hsettled, List.nil_append]
  rfl

/-- Stripping takes nothing away but within a quotation that does not end. -/
theorem lexemes_strip (hspace : ∀ c, isSpace c = true → isWord c = false)
    (h : L.region (L.lexAll L.start (tokens isWord a)).1 = .quoted → a.getLast?.any isSpace = false) :
    L.lexemes isWord (strip a) = L.lexemes isWord a := by
  obtain ⟨x, y, ha, hx, hy⟩ := strip_spec a
  have htok : tokens isWord a = x.map .sign ++ (tokens isWord (strip a) ++ y.map .sign) := by
    conv_lhs => rw [ha]
    exact tokens_between (fun c hc => hspace c (hx c hc)) fun c hc => hspace c (hy c hc)
  rw [htok, lexAll_append, lexAll_spaces_start hx, lexAll_append] at h
  rw [lexemes, lexemes, htok, lexemesFrom_append, lexAll_spaces_start hx, List.nil_append, lexemesFrom_append]
  by_cases hq : L.region (L.lexAll L.start (tokens isWord (strip a))).1 = .quoted
  · have hlast := h (region_spaces_quoted hy hq)
    obtain rfl : y = [] := by
      by_contra hne
      rw [ha, ← List.append_assoc, List.getLast?_append_of_ne_nil _ hne, List.getLast?_eq_some_getLast hne,
        Option.any_some, hy _ (List.getLast_mem hne)] at hlast
      cases hlast
    rfl
  · rw [lexemesFrom_spaces hy hq]
    rfl

end Lexer

theorem mem_of_sign {isWord : Char → Bool} {a : List Char} {c : Char} (h : .sign c ∈ tokens isWord a) : c ∈ a := by
  rw [← text_tokens isWord a]
  exact List.mem_flatMap.2 ⟨_, h, List.mem_singleton_self c⟩

end HtapStack.Sql
