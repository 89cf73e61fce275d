import HtapStack.Query.Rewriting
/-!
# Read-only after the rewriting too?

`_validate` looks at the statement before a dialect rewrites it. What it checks
are three things: the text begins with `SELECT`, holds no semicolon, and none of
its words is a write keyword. The rewriting keeps the first two. It keeps the
third exactly when no write keyword stands directly against an `ALLOW FILTERING`
(`accepted_dialect_iff`): the pattern that takes that phrase away asks for no
word boundary, so what stood against it becomes a word.
-/

namespace HtapStack.Query
open Py Compare

variable {u : Unicode} {s : List Char}

/-! ## What `_validate` accepts -/

def IsWriteKeyword (w : List Char) : Prop := foldAll w ∈ writeKeywords.map foldAll

instance : DecidablePred IsWriteKeyword := fun _ => inferInstanceAs (Decidable (_ ∈ _))

def KeywordFree (u : Unicode) (s : List Char) : Prop :=
  ∀ w, .word w ∈ tokens u.isWord s → ¬ IsWriteKeyword w

def StartsSelect (u : Unicode) (s : List Char) : Prop := "SELECT".toList <+: upper u s

def Accepted (u : Unicode) (sql : List Char) : Prop := ∃ statement, validate u sql = .ok statement

theorem isName_or_keyword_wordy : ∀ k ∈ writeKeywords, (foldAll k).all wordy = true ∧ k ≠ [] := by decide

theorem IsWriteKeyword.word {w : List Char} (h : IsWriteKeyword w) : w ≠ [] ∧ ∀ c ∈ w, u.isWord c = true := by
  obtain ⟨k, hk, hkw⟩ := List.mem_map.1 h
  obtain ⟨hwordy, hne⟩ := isName_or_keyword_wordy k hk
  refine ⟨?_, isWord_of_wordy (hkw ▸ hwordy)⟩
  rintro rfl
  exact hne (List.map_eq_nil_iff.1 hkw)

theorem search_writeKeywordRe : writeKeywordRe.search u.isWord s = none ↔ KeywordFree u s := by
  rw [Re.search_eq_none]
  constructor
  · intro h w hw hkw
    obtain ⟨a, b, rfl, hne, hword, ha, hb⟩ := mem_tokens_iff.1 hw
    obtain ⟨k, hk, hk'⟩ := List.mem_map.1 hkw
    refine absurd (h a (w ++ b) rfl) ?_
    have hstart : Re.isBoundary u.isWord (last none a) (w ++ b) = true := by
      rw [Re.isBoundary, ha, head_of_word hne hword b]
      rfl
    have hend : Re.isBoundary u.isWord (last (last none a) w) b = true := by
      rw [Re.isBoundary, last_of_word _ hne hword, hb]
      rfl
    refine Re.seq_ne_nil (Re.mem_boundary.2 ⟨hstart, rfl⟩) ?_
    refine Re.seq_ne_nil (Re.mem_group.2 ⟨_, Re.mem_anyOf_text.2 ⟨w, b, rfl, ⟨k, hk, hk'.symm⟩, rfl⟩, rfl⟩) ?_
    exact List.ne_nil_of_mem (Re.mem_boundary.2 ⟨hend, rfl⟩)
  · rintro h a b rfl
    refine List.eq_nil_iff_forall_not_mem.2 fun m hm => ?_
    obtain ⟨_, hstart, _, hrest, -⟩ := Re.mem_seq.1 hm
    obtain ⟨hstart', rfl⟩ := Re.mem_boundary.1 hstart
    obtain ⟨_, hkw, _, hend, -⟩ := Re.mem_seq.1 hrest
    obtain ⟨_, hkw', rfl⟩ := Re.mem_group.1 hkw
    obtain ⟨w, b, rfl, ⟨k, hk, hwk⟩, rfl⟩ := Re.mem_anyOf_text.1 hkw'
    obtain ⟨hend', -⟩ := Re.mem_boundary.1 hend
    have hw : IsWriteKeyword w := List.mem_map.2 ⟨k, hk, hwk.symm⟩
    obtain ⟨hne, hword⟩ := hw.word (u := u)
    refine h w (mem_tokens_iff.2 ⟨a, b, rfl, hne, hword, ?_, ?_⟩) hw
    · exact begins_of_boundary hstart' (head_of_word hne hword b)
    · exact ends_of_boundary hend' (last_of_word _ hne hword)

theorem validate_eq_ok {sql statement : List Char} : validate u sql = .ok statement ↔
    strip (rstrip (strip sql) ';') = statement ∧ statement ≠ [] ∧ ';' ∉ statement ∧ StartsSelect u statement ∧
      KeywordFree u statement := by
  unfold validate
  generalize strip (rstrip (strip sql) ';') = st
  by_cases hne : st = []
  · simp only [hne, if_true, reduceCtorEq, false_iff]
    rintro ⟨rfl, h, -⟩
    exact h rfl
  by_cases hsemi : ';' ∈ st
  · simp only [hne, hsemi, if_true, if_false, reduceCtorEq, false_iff]
    rintro ⟨rfl, -, h, -⟩
    exact h hsemi
  by_cases hstart : StartsSelect u st
  · have hpre : "SELECT".toList.isPrefixOf (upper u st) = true := List.isPrefixOf_iff_prefix.2 hstart
    simp only [hne, hsemi, hpre, Bool.not_true, Bool.false_eq_true, if_false]
    split
    · rename_i m hm
      simp only [reduceCtorEq, false_iff]
      rintro ⟨rfl, -, -, -, h⟩
      rw [search_writeKeywordRe.2 h] at hm
      cases hm
    · rename_i hm
      simp only [Except.ok.injEq, iff_self_and]
      rintro rfl
      exact ⟨hne, hsemi, hstart, search_writeKeywordRe.1 hm⟩
  · have hpre : "SELECT".toList.isPrefixOf (upper u st) = false :=
      Bool.eq_false_iff.2 fun h => hstart (List.isPrefixOf_iff_prefix.1 h)
    simp only [hne, hsemi, hpre, Bool.not_false, if_false, if_true, reduceCtorEq, false_iff]
    rintro ⟨rfl, -, -, h, -⟩
    exact hstart h

/-! ## It still begins with `SELECT` -/

/-- The character's capital is a letter that `SELECT` has not. -/
def Outside (u : Unicode) (c : Char) : Prop := ∃ d, u.upper c = [d] ∧ d ∉ "SELECT".toList

theorem outside_of_space {c : Char} (h : isSpace c = true) : Outside u c := by
  refine ⟨c, u.upper_space c h, fun hc => ?_⟩
  have hnone : "SELECT".toList.any isSpace = false := by decide
  rw [List.any_eq_true.2 ⟨c, hc, h⟩] at hnone
  cases hnone

theorem outside_of_fold {c l : Char} (hl : l ∈ ['a', 'f', 'j']) (h : fold c = l) : Outside u c := by
  have hcases : c = l ∨ c.toNat + 32 = l.toNat := by
    refine (fold_eq h ?_).imp_right fun h => h.2.2
    simp only [List.mem_cons, List.not_mem_nil, or_false] at hl
    rcases hl with rfl | rfl | rfl <;> decide
  have hascii : c.toNat < 128 ∧ c.toUpper ∉ "SELECT".toList := by
    have hcap : ∀ d : Char, c.toNat + 32 = d.toNat + 32 → c = d := fun d hd => Char.toNat_inj.1 (by omega)
    simp only [List.mem_cons, List.not_mem_nil, or_false] at hl
    rcases hl with rfl | rfl | rfl <;> rcases hcases with rfl | hc
    · decide
    · obtain rfl := hcap 'A' hc; decide
    · decide
    · obtain rfl := hcap 'F' hc; decide
    · decide
    · obtain rfl := hcap 'J' hc; decide
  exact ⟨_, u.upper_ascii c hascii.1, hascii.2⟩

theorem prefix_of_outside {α : Type} {l a b : List α} {d : α} (hd : d ∉ l) (h : l <+: a ++ d :: b) : l <+: a := by
  rcases List.prefix_or_prefix_of_prefix h (List.prefix_append a (d :: b)) with h' | ⟨r, rfl⟩
  · exact h'
  · cases r with
    | nil => simp
    | cons e r =>
      obtain ⟨t, ht⟩ := h
      simp only [List.append_assoc, List.append_cancel_left_eq, List.cons_append, List.cons.injEq] at ht
      exact absurd (by simp [ht.1]) hd

theorem StartsSelect.before {y z : List Char} {c : Char} (hc : Outside u c) (h : StartsSelect u (y ++ c :: z)) :
    StartsSelect u y := by
  obtain ⟨d, hup, hd⟩ := hc
  unfold StartsSelect upper at h ⊢
  rw [List.flatMap_append, List.flatMap_cons, hup] at h
  exact prefix_of_outside hd h

theorem StartsSelect.append {y : List Char} (h : StartsSelect u y) (z : List Char) : StartsSelect u (y ++ z) := by
  unfold StartsSelect upper at h ⊢
  rw [List.flatMap_append]
  exact h.trans (List.prefix_append ..)

theorem StartsSelect.ne_nil (h : StartsSelect u s) : s ≠ [] := by
  rintro rfl
  cases List.prefix_nil.1 h

theorem StartsSelect.strip (h : StartsSelect u s) : StartsSelect u (strip s) := by
  obtain ⟨a, b, hs, ha, hb⟩ := strip_spec s
  rw [hs] at h
  cases a with
  | cons c a => exact absurd rfl (StartsSelect.before (y := []) (outside_of_space (ha c List.mem_cons_self)) h).ne_nil
  | nil =>
    cases b with
    | nil => simpa using h
    | cons d b => exact StartsSelect.before (outside_of_space (hb d List.mem_cons_self)) h

/-- A substitution keeps the start if each match begins outside of it. -/
theorem StartsSelect.sub {r : Re} {repl : Match → List Char}
    (hr : ∀ prev s m, m ∈ r.ends u.isWord prev s → ∃ c t, m.text = c :: t ∧ Outside u c) (h : StartsSelect u s) :
    StartsSelect u (r.sub u.isWord repl s) := by
  rcases Re.sub_agrees u.isWord r repl s with hsub | ⟨p, m, t, prev, rfl, hm, hsub⟩
  · rwa [hsub]
  · obtain ⟨c, t', htext, hc⟩ := hr _ _ m hm
    rw [htext] at h
    rw [hsub]
    exact (StartsSelect.before hc h).append t

theorem head_spelling {w t : List Char} {c : Char} (h : foldAll w = foldAll (c :: t)) : ∃ d r, w = d :: r ∧ fold d = fold c := by
  cases w with
  | nil => cases h
  | cons d r => exact ⟨d, r, rfl, (List.cons.inj h).1⟩

theorem outside_allowFiltering (prev : Option Char) (s : List Char) (m : Match)
    (h : m ∈ allowFilteringRe.ends u.isWord prev s) : ∃ c t, m.text = c :: t ∧ Outside u c := by
  obtain ⟨_, hsp, _, hrest, rfl⟩ := Re.mem_seq.1 h
  obtain ⟨sp, s₁, -, hsp', rfl⟩ := Re.mem_many.1 hsp
  obtain ⟨_, ha, _, -, rfl⟩ := Re.mem_seq.1 hrest
  obtain ⟨a, s₂, -, ha', rfl⟩ := Re.mem_text.1 ha
  cases sp with
  | cons c sp => exact ⟨c, _, rfl, outside_of_space (hsp' c List.mem_cons_self)⟩
  | nil =>
    obtain ⟨d, r, rfl, hd⟩ := head_spelling ha'
    exact ⟨d, _, rfl, outside_of_fold (by decide) hd⟩

theorem outside_tableReference (prev : Option Char) (s : List Char) (m : Match)
    (h : m ∈ tableReferenceRe.ends u.isWord prev s) : ∃ c t, m.text = c :: t ∧ Outside u c := by
  obtain ⟨kw, sp, dot, tb, htext, -, -, -, -, ⟨k, hk, hkw⟩, -⟩ := mem_tableReferenceRe h
  simp only [List.mem_cons, List.not_mem_nil, or_false] at hk
  rcases hk with rfl | rfl <;> obtain ⟨d, r, rfl, hd⟩ := head_spelling hkw
  · exact ⟨d, _, htext, outside_of_fold (by decide) hd⟩
  · exact ⟨d, _, htext, outside_of_fold (by decide) hd⟩

theorem outside_limit (prev : Option Char) (s : List Char) (m : Match)
    (h : m ∈ (limitRe u).ends u.isWord prev s) : ∃ c t, m.text = c :: t ∧ Outside u c := by
  obtain ⟨t, sp, htext, ht, -⟩ := mem_limitRe h
  have hhead := ht.head
  cases t with
  | nil => cases hhead
  | cons c t => exact ⟨c, _, htext, outside_of_space hhead⟩

theorem startsSelect_dialect (h : StartsSelect u s) (e : Engine) (limit : Nat) :
    StartsSelect u (dialect u e s limit) := by
  have hbare : StartsSelect u (withoutAllowFiltering u s) := by
    unfold withoutAllowFiltering
    exact (h.sub outside_allowFiltering).strip
  have htables {s : List Char} (h : StartsSelect u s) (pre : List Char) : StartsSelect u (rewriteTables u s pre) := by
    unfold rewriteTables
    exact h.sub outside_tableReference
  by_cases he : e = .cassandra
  · have hstrip : StartsSelect u (stripLimit u (withoutAllowFiltering u s)) := by
      unfold stripLimit
      exact (hbare.sub outside_limit).strip
    rw [he, dialect_cassandra]
    exact ((htables hstrip []).append _).append _
  · obtain ⟨pre, -, hd⟩ := dialect_other (u := u) he
    rw [hd]
    split
    · exact htables hbare pre
    · exact (htables hbare pre).append _

/-! ## It still holds no semicolon -/

theorem semicolon_notMem_dialect (h : ';' ∉ s) (e : Engine) (limit : Nat) : ';' ∉ dialect u e s limit := by
  have hbare : ';' ∉ withoutAllowFiltering u s := fun hm => by
    unfold withoutAllowFiltering at hm
    rcases Re.mem_sub [' '] (fun _ _ _ _ _ => .inr) (mem_of_mem_strip hm) with hm | hm
    · exact h hm
    · revert hm; decide
  have htables {s pre : List Char} (hpre : pre ∈ prefixes) (h : ';' ∉ s) : ';' ∉ rewriteTables u s pre := fun hm => by
    unfold rewriteTables at hm
    have hsub := Re.mem_sub pre (fun prev s m hm c hc => ?_) hm
    · rcases hsub with hm | hm
      · exact h hm
      · have hnone : ∀ pre ∈ prefixes, ';' ∉ pre := by decide
        exact hnone pre hpre hm
    · obtain ⟨kw, sp, dot, tb, htext, hlead, htable, -⟩ := mem_tableReferenceRe hm
      rw [hlead, htable] at hc
      rw [htext]
      simp only [List.mem_append] at hc ⊢
      tauto
  have hclause {s : List Char} (h : ';' ∉ s) : ';' ∉ s ++ limitClause limit := fun hm => by
    rcases List.mem_append.1 hm with hm | hm
    · exact h hm
    · rcases List.mem_append.1 hm with hm | hm
      · revert hm; decide
      · rw [Nat.toString_eq_repr, Nat.toList_repr] at hm
        have := Nat.isDigit_of_mem_toDigits (by decide) (by decide) hm
        revert this
        decide
  by_cases he : e = .cassandra
  · have hstrip : ';' ∉ stripLimit u (withoutAllowFiltering u s) := fun hm => by
      unfold stripLimit at hm
      rcases Re.mem_sub [] (fun _ _ _ _ _ hc => .inr hc) (mem_of_mem_strip hm) with hm | hm
      · exact hbare hm
      · cases hm
    rw [he, dialect_cassandra]
    intro hm
    rcases List.mem_append.1 hm with hm | hm
    · exact hclause (htables (by simp [prefixes]) hstrip) hm
    · revert hm; decide
  · obtain ⟨pre, hpre, hd⟩ := dialect_other (u := u) he
    rw [hd]
    split
    · exact htables hpre hbare
    · exact hclause (htables hpre hbare)

/-! ## Which write keywords it holds -/

theorem KeywordFree.iff_of_tokens {a b : List Char} {ts : List Token}
    (h : tokens u.isWord a = tokens u.isWord b ++ ts) (hts : ∀ w, .word w ∈ ts → ¬ IsWriteKeyword w) :
    KeywordFree u a ↔ KeywordFree u b := by
  unfold KeywordFree
  rw [h]
  constructor
  · exact fun hf w hw => hf w (List.mem_append_left _ hw)
  · exact fun hf w hw => (List.mem_append.1 hw).elim (hf w) (hts w)

theorem IsName.not_keyword {w : List Char} (h : IsName w) : ¬ IsWriteKeyword w :=
  fun hk => h.2.2 (List.mem_cons_of_mem _ hk)

theorem LimitTail.not_keyword {tl : List Token} (h : LimitTail u tl) {w : List Char} (hw : .word w ∈ tl) :
    ¬ IsWriteKeyword w := by
  obtain ⟨-, hl, -, hd, -⟩ := h
  simp only [List.mem_append, List.mem_map, reduceCtorEq, and_false, exists_false, List.mem_cons, Token.word.injEq,
    false_or, or_false] at hw
  rcases hw with rfl | rfl
  · unfold IsWriteKeyword
    rw [hl]
    decide
  · intro hk
    obtain ⟨k, hk, hkw⟩ := List.mem_map.1 hk
    have halpha : ∀ k ∈ writeKeywords, (foldAll k).all Char.isAlpha = true := by decide
    obtain ⟨c, hc⟩ := List.exists_mem_of_ne_nil _ hd.1
    have := List.all_eq_true.1 (halpha k hk) (fold c) (hkw ▸ List.mem_map_of_mem hc)
    rw [u.isAlpha_fold_of_digit (hd.2 c hc)] at this
    cases this

theorem keywordFree_limit {x t : List Char} (ht : IsLimit u t) : KeywordFree u (x ++ t) ↔ KeywordFree u x := by
  obtain ⟨tl, htl, htok⟩ := tokens_isLimit (x := x) ht (List.forall_mem_nil _)
  rw [List.append_nil] at htok
  exact KeywordFree.iff_of_tokens htok fun w => htl.not_keyword

theorem keywordFree_allowFiltering {x : List Char} : KeywordFree u (x ++ " ALLOW FILTERING".toList) ↔ KeywordFree u x := by
  refine KeywordFree.iff_of_tokens (tokens_allowFiltering x) fun w hw => ?_
  simp only [List.mem_cons, reduceCtorEq, Token.word.injEq, List.not_mem_nil, or_false, false_or] at hw
  rcases hw with rfl | rfl <;> decide

theorem Name.not_keyword {old : List Token} (h : Name old) {w : List Char} (hw : .word w ∈ old) :
    ¬ IsWriteKeyword w := (h.isName hw).not_keyword

theorem keywordFree_rewriteTables {pre : List Char} (hpre : pre ∈ prefixes) :
    KeywordFree u (rewriteTables u s pre) ↔ KeywordFree u s := by
  have h := rewritten (u := u) hpre s
  unfold KeywordFree
  generalize tokens u.isWord s = a, tokens u.isWord (rewriteTables u s pre) = b at h
  induction h with
  | refl => rfl
  | table ts lead _ _ hold hnew _ ih =>
    simp only [List.mem_append, List.mem_cons, or_imp, forall_and] at ih ⊢
    have ho := fun w => hold.not_keyword (w := w)
    have hn := fun w => hnew.not_keyword (w := w)
    tauto

theorem keywordFree_stripLimit (hs : Trimmed s) : KeywordFree u (stripLimit u s) ↔ KeywordFree u s := by
  rcases stripLimit_spec (u := u) hs with ⟨-, h⟩ | ⟨t, hst, ht, -⟩
  · rw [h]
  · conv_rhs => rw [hst]
    exact (keywordFree_limit ht).symm

theorem keywordFree_strip : KeywordFree u (strip s) ↔ KeywordFree u s := by
  unfold KeywordFree
  simp only [word_mem_strip u.word_space]

theorem keywordFree_withoutAllowFiltering : KeywordFree u (withoutAllowFiltering u s) ↔
    ∀ p ∈ allowFilteringRe.split u.isWord s, KeywordFree u p := by
  have hspace : u.isWord ' ' = false := u.word_space ' ' (by decide)
  unfold withoutAllowFiltering
  rw [keywordFree_strip]
  unfold KeywordFree
  simp only [word_mem_sub hspace]
  constructor
  · exact fun h p hp w hw => h w ⟨p, hp, hw⟩
  · exact fun h w ⟨p, hp, hw⟩ => h p hp w hw

/-- No dialect adds a write keyword, or takes one away, but with the phrase
`ALLOW FILTERING`. -/
theorem keywordFree_dialect (e : Engine) (limit : Nat) :
    KeywordFree u (dialect u e s limit) ↔ KeywordFree u (withoutAllowFiltering u s) := by
  by_cases he : e = .cassandra
  · have htrim : Trimmed (withoutAllowFiltering u s) := trimmed_strip _
    rw [he, dialect_cassandra, keywordFree_allowFiltering, keywordFree_limit (isLimit_limitClause limit),
      keywordFree_rewriteTables (by simp [prefixes]), keywordFree_stripLimit htrim]
  · obtain ⟨pre, hpre, hd⟩ := dialect_other (u := u) he
    rw [hd]
    split
    · rw [keywordFree_rewriteTables hpre]
    · rw [keywordFree_limit (isLimit_limitClause limit), keywordFree_rewriteTables hpre]

/-! ## What is issued is accepted again -/

/-- In no part of the statement, cut at each `ALLOW FILTERING`, do the word
characters at the very start or the very end spell a write keyword. -/
def NothingGlued (u : Unicode) (statement : List Char) : Prop :=
  ∀ p ∈ allowFilteringRe.split u.isWord statement,
    ¬ IsWriteKeyword (p.takeWhile u.isWord) ∧ ¬ IsWriteKeyword (p.rtakeWhile u.isWord)

instance (u : Unicode) (statement : List Char) : Decidable (NothingGlued u statement) :=
  inferInstanceAs (Decidable (∀ _ ∈ _, _))

theorem accepted_iff (hsemi : ';' ∉ s) (hstart : StartsSelect u s) : Accepted u s ↔ KeywordFree u s := by
  have hself : strip (rstrip (strip s) ';') = strip s := by
    have hr : rstrip (strip s) ';' = strip s := by
      refine List.rdropWhile_eq_self_iff.2 fun hne hl => hsemi (mem_of_mem_strip ?_)
      rw [← beq_iff_eq.1 hl]
      exact List.getLast_mem hne
    rw [hr, strip_of_trimmed (trimmed_strip s)]
  unfold Accepted
  simp only [validate_eq_ok, hself, exists_eq_left', keywordFree_strip]
  exact ⟨fun h => h.2.2.2, fun h => ⟨hstart.strip.ne_nil, fun hm => hsemi (mem_of_mem_strip hm), hstart.strip, h⟩⟩

/-- A word that none of the statement's parts may hold either touches the end of
its part, or is a word of the statement. -/
theorem keywordFree_parts_iff (h : KeywordFree u s) :
    (∀ p ∈ allowFilteringRe.split u.isWord s, KeywordFree u p) ↔ NothingGlued u s := by
  constructor
  · refine fun hparts p hp => ⟨fun hk => ?_, fun hk => ?_⟩
    · exact hparts p hp _ (word_takeWhile (hk.word (u := u)).1) hk
    · exact hparts p hp _ (word_rtakeWhile (hk.word (u := u)).1) hk
  · intro hglued p hp w hw hk
    obtain ⟨x, y, hs⟩ := mem_split hp
    rcases word_of_part (x := x) (y := y) hw with hw | rfl | rfl
    · exact h w (hs ▸ hw) hk
    · exact (hglued p hp).1 hk
    · exact (hglued p hp).2 hk

/-- What is issued to an engine for an accepted statement is itself accepted
exactly when nothing is glued to an `ALLOW FILTERING`. -/
theorem accepted_dialect_iff {sql statement : List Char} (h : validate u sql = .ok statement) (e : Engine)
    (limit : Nat) : Accepted u (dialect u e statement limit) ↔ NothingGlued u statement := by
  obtain ⟨-, -, hsemi, hstart, hfree⟩ := validate_eq_ok.1 h
  rw [accepted_iff (semicolon_notMem_dialect hsemi e limit) (startsSelect_dialect hstart e limit),
    keywordFree_dialect, keywordFree_withoutAllowFiltering, keywordFree_parts_iff hfree]

theorem accepted_dialect_plain : Accepted .ascii
    (dialect .ascii .cassandra "SELECT * FROM demo.events ALLOW FILTERING".toList 10) := by
  -- The literals by their characters, so that the kernel need not decode them.
  have hsql : "SELECT * FROM demo.events ALLOW FILTERING;".toList = _ := String.toList_ofList
  have hstatement : "SELECT * FROM demo.events ALLOW FILTERING".toList = _ := String.toList_ofList
  have h : validate .ascii "SELECT * FROM demo.events ALLOW FILTERING;".toList =
      .ok "SELECT * FROM demo.events ALLOW FILTERING".toList := by
    rw [hsql, hstatement]
    decide +kernel
  have hglued : NothingGlued .ascii "SELECT * FROM demo.events ALLOW FILTERING".toList := by
    rw [hstatement]
    decide +kernel
  exact (accepted_dialect_iff h .cassandra 10).2 hglued

/-- `DROPALLOW` is no write keyword, and `DROP` is. -/
theorem glued_drop_issued :
    validate .ascii "SELECT * FROM events DROPALLOW FILTERING x".toList =
      .ok "SELECT * FROM events DROPALLOW FILTERING x".toList ∧
    dialect .ascii .presto "SELECT * FROM events DROPALLOW FILTERING x".toList 10 =
      "SELECT * FROM demo.events DROP x LIMIT 10".toList ∧
    ¬ Accepted .ascii "SELECT * FROM demo.events DROP x LIMIT 10".toList := by
  have hglued : "SELECT * FROM events DROPALLOW FILTERING x".toList = _ := String.toList_ofList
  have hissued : "SELECT * FROM demo.events DROP x LIMIT 10".toList = _ := String.toList_ofList
  rw [hglued, hissued]
  refine ⟨by decide +kernel, by decide +kernel, ?_⟩
  rintro ⟨statement, h⟩
  cases h

end HtapStack.Query
