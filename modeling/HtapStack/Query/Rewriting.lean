import HtapStack.Lib.Words
import HtapStack.Query.Dialects
/-!
# What the rewriting does to the words

Each of the patterns by which a dialect edits a statement, read as tokens. A
table reference keeps its `FROM` or `JOIN` and changes the name after it
(`rewritten`), and the limit that is stripped or looked for is the last thing of
its statement (`stripLimit_spec`).
-/

namespace HtapStack.Query
open Py Compare

variable {u : Unicode} {s : List Char}

/-! ## Spelling -/

def wordy (c : Char) : Bool := c.isAlphanum || c == '_'

theorem isWord_of_wordy {w : List Char} (h : (foldAll w).all wordy = true) : ∀ c ∈ w, u.isWord c = true := by
  intro c hc
  have hwordy := List.all_eq_true.1 h _ (List.mem_map_of_mem hc)
  refine u.isWord_of_fold ?_
  simpa [wordy] using hwordy

theorem signs_of_spaces {sp : List Char} (h : ∀ c ∈ sp, isSpace c = true) : ∀ c ∈ sp, u.isWord c = false :=
  fun c hc => u.word_space c (h c hc)

/-! ## Table references -/

/-- A word that can name a table, a view or a keyspace: no write keyword, not
`LIMIT`, and no number. -/
def IsName (w : List Char) : Prop :=
  (foldAll w).all wordy = true ∧ (foldAll w).any Char.isAlpha = true ∧
    foldAll w ∉ (("LIMIT".toList :: writeKeywords).map foldAll)

instance : DecidablePred IsName := fun _ => inferInstanceAs (Decidable (_ ∧ _))

theorem IsName.of_spelling {w t : List Char} (h : foldAll w = foldAll t) (ht : IsName t) : IsName w := by
  unfold IsName at ht ⊢
  rwa [h]

theorem IsName.ne_nil {w : List Char} (h : IsName w) : w ≠ [] := by
  rintro rfl
  cases h.2.1

theorem IsName.tokens {w : List Char} (h : IsName w) : tokens u.isWord w = [.word w] :=
  tokens_of_word h.ne_nil (isWord_of_wordy h.1)

theorem isName_of_mem : ∀ t ∈ demoTables, IsName t ∧ IsName (bulkViewPrefix ++ t) := by decide

theorem isName_of_lead : ∀ k ∈ ["FROM".toList, "JOIN".toList], IsName k := by decide

/-- A table's name as one of the engines knows it, case apart. -/
inductive Name : List Token → Prop
  | table {w t : List Char} : t ∈ demoTables → foldAll w = foldAll t → Name [.word w]
  | view {w t : List Char} : t ∈ demoTables → foldAll w = foldAll (bulkViewPrefix ++ t) → Name [.word w]
  | qualified {k w t : List Char} : foldAll k = foldAll "demo".toList → t ∈ demoTables → foldAll w = foldAll t →
      Name [.word k, .sign '.', .word w]

theorem Name.isName {old : List Token} (h : Name old) {w : List Char} (hw : .word w ∈ old) : IsName w := by
  cases h with
  | table ht hv =>
    obtain rfl := Token.word.inj (List.mem_singleton.1 hw)
    exact (isName_of_mem _ ht).1.of_spelling hv
  | view ht hv =>
    obtain rfl := Token.word.inj (List.mem_singleton.1 hw)
    exact (isName_of_mem _ ht).2.of_spelling hv
  | qualified hk ht hv =>
    simp only [List.mem_cons, Token.word.injEq, reduceCtorEq, List.not_mem_nil, or_false, false_or] at hw
    rcases hw with rfl | rfl
    · exact IsName.of_spelling hk (by decide)
    · exact (isName_of_mem _ ht).1.of_spelling hv

theorem Name.last {old : List Token} (h : Name old) : ∃ ts w, old = ts ++ [Token.word w] ∧ IsName w := by
  cases h with
  | table ht hw => exact ⟨[], _, rfl, (Name.table ht hw).isName (List.mem_singleton_self _)⟩
  | view ht hw => exact ⟨[], _, rfl, (Name.view ht hw).isName (List.mem_singleton_self _)⟩
  | qualified hk ht hw => exact ⟨[_, _], _, rfl, (Name.qualified hk ht hw).isName (by simp)⟩

/-- `b` is `a` with some names, each after a word and white space, changed. -/
inductive Rewritten : List Token → List Token → Prop
  | refl (a : List Token) : Rewritten a a
  | table {a b old new : List Token} (ts : List Token) (lead : List Char) {sp : List Char} :
      sp ≠ [] → (∀ c ∈ sp, isSpace c = true) → Name old → Name new → Rewritten a b →
        Rewritten (ts ++ (Token.word lead :: (sp.map .sign ++ (old ++ a))))
          (ts ++ (Token.word lead :: (sp.map .sign ++ (new ++ b))))

/-- What the table pattern matches. -/
theorem mem_tableReferenceRe {prev : Option Char} {m : Match} (h : m ∈ tableReferenceRe.ends u.isWord prev s) :
    ∃ kw sp dot tb, m.text = kw ++ (sp ++ (dot ++ tb)) ∧ m.group "lead" = kw ++ sp ∧ m.group "table" = tb ∧
      Re.isBoundary u.isWord prev s = true ∧ Re.isBoundary u.isWord (last prev m.text) m.rest = true ∧
      (∃ k ∈ ["FROM".toList, "JOIN".toList], foldAll kw = foldAll k) ∧ sp ≠ [] ∧ (∀ c ∈ sp, isSpace c = true) ∧
      (dot = [] ∨ foldAll dot = foldAll "demo.".toList) ∧ ∃ t ∈ demoTables, foldAll tb = foldAll t := by
  obtain ⟨_, hlead, _, hname, rfl⟩ := Re.mem_seq.1 h
  obtain ⟨_, hlead', rfl⟩ := Re.mem_group.1 hlead
  obtain ⟨_, hstart, _, hkwsp, rfl⟩ := Re.mem_seq.1 hlead'
  obtain ⟨hstart', rfl⟩ := Re.mem_boundary.1 hstart
  obtain ⟨_, hkw, _, hsp, rfl⟩ := Re.mem_seq.1 hkwsp
  obtain ⟨kw, s₁, -, hkw', rfl⟩ := Re.mem_anyOf_text.1 hkw
  obtain ⟨sp, s₂, -, hne, hsp', rfl⟩ := Re.mem_many1.1 hsp
  obtain ⟨_, hdot, _, htab, rfl⟩ := Re.mem_seq.1 hname
  obtain ⟨dot, s₃, -, hdot', rfl⟩ := Re.mem_opt_text.1 hdot
  obtain ⟨_, htab', _, hend, rfl⟩ := Re.mem_seq.1 htab
  obtain ⟨_, htb, rfl⟩ := Re.mem_group.1 htab'
  obtain ⟨tb, s₄, -, htb', rfl⟩ := Re.mem_anyOf_text.1 htb
  obtain ⟨hend', rfl⟩ := Re.mem_boundary.1 hend
  refine ⟨kw, sp, dot, tb, by simp, rfl, rfl, hstart', ?_, hkw', hne, hsp', hdot', htb'⟩
  simpa only [List.nil_append, List.append_nil, last_append] using hend'

/-- A keyspace with its dot, case apart. -/
theorem keyspace_of_spelling {dot : List Char} (h : foldAll dot = foldAll "demo.".toList) :
    ∃ k, dot = k ++ ['.'] ∧ foldAll k = foldAll "demo".toList := by
  obtain ⟨k, d, rfl, hk, hd⟩ := List.map_eq_append_iff.1
    (show dot.map fold = foldAll "demo".toList ++ foldAll ['.'] from h)
  obtain ⟨c, rfl, hc⟩ := List.map_eq_singleton_iff.1 hd
  obtain rfl : c = '.' := (fold_eq hc (by decide)).resolve_right fun ⟨h, _, hc⟩ => by
    rw [show (fold '.').toNat = 46 from rfl] at hc
    omega
  exact ⟨k, rfl, hk⟩

/-- The tokens of a table's name, with or without a keyspace. -/
theorem name_of_spelling {dot tb t : List Char} (hdot : dot = [] ∨ foldAll dot = foldAll "demo.".toList)
    (ht : t ∈ demoTables) (htb : foldAll tb = foldAll t) : Name (tokens u.isWord (dot ++ tb)) := by
  have hname := (isName_of_mem t ht).1.of_spelling htb
  rcases hdot with rfl | hdot
  · rw [List.nil_append, hname.tokens]
    exact .table ht htb
  · obtain ⟨k, rfl, hk⟩ := keyspace_of_spelling hdot
    have hkname : IsName k := IsName.of_spelling hk (by decide)
    have hsign : u.isWord '.' = false := u.word_ascii '.' (by decide)
    have hap : Apart u.isWord (last none k) ('.' :: tb) := .inr hsign
    rw [List.append_assoc, List.singleton_append, tokens_append hap, tokens_cons, hsign, hname.tokens, hkname.tokens]
    exact .qualified hk ht htb

/-- The prefixes under which the engines know the tables. -/
def prefixes : List (List Char) := [[], "demo.".toList, bulkViewPrefix]

theorem name_of_known {pre tb t : List Char} (hpre : pre ∈ prefixes) (ht : t ∈ demoTables)
    (htb : foldAll tb = foldAll t) : Name (tokens u.isWord (pre ++ tb)) := by
  simp only [prefixes, List.mem_cons, List.not_mem_nil, or_false] at hpre
  rcases hpre with rfl | rfl | rfl
  · exact name_of_spelling (.inl rfl) ht htb
  · exact name_of_spelling (.inr rfl) ht htb
  · have hview : foldAll (bulkViewPrefix ++ tb) = foldAll (bulkViewPrefix ++ t) := by
      simp only [foldAll, List.map_append] at htb ⊢
      rw [htb]
    rw [((isName_of_mem t ht).2.of_spelling hview).tokens]
    exact .view ht hview

theorem tokens_reference {p kw sp rest : List Char} (name : List Char) (hp : (last none p).any u.isWord = false)
    (hkw : tokens u.isWord kw = [.word kw]) (hne : sp ≠ []) (hsp : ∀ c ∈ sp, isSpace c = true)
    (hrest : rest.head?.any u.isWord = false) : tokens u.isWord (p ++ (kw ++ (sp ++ (name ++ rest)))) =
      tokens u.isWord p ++ (Token.word kw :: (sp.map .sign ++ (tokens u.isWord name ++ tokens u.isWord rest))) := by
  have hsigns := signs_of_spaces (u := u) hsp
  have hkwsp : Apart u.isWord (last none kw) (sp ++ (name ++ rest)) := by
    cases sp with
    | nil => exact absurd rfl hne
    | cons c sp => exact .inr (hsigns c List.mem_cons_self)
  rw [tokens_append (.inl hp), tokens_append hkwsp, tokens_append (.inl (last_of_signs hsigns)),
    tokens_append (.inr hrest), hkw, tokens_of_signs hsigns]
  rfl

/-- A match of the table pattern stands between words. -/
theorem tableReference_spec {prev : Option Char} {p : List Char} {m : Match}
    (h : m ∈ tableReferenceRe.ends u.isWord (last prev p) (m.text ++ m.rest)) :
    ∃ kw sp dot tb, m.text = kw ++ (sp ++ (dot ++ tb)) ∧ m.group "lead" = kw ++ sp ∧ m.group "table" = tb ∧
      IsName kw ∧ (sp ≠ [] ∧ ∀ c ∈ sp, isSpace c = true) ∧ (dot = [] ∨ foldAll dot = foldAll "demo.".toList) ∧
        (∃ t ∈ demoTables, foldAll tb = foldAll t) ∧ (last none p).any u.isWord = false ∧
          m.rest.head?.any u.isWord = false := by
  obtain ⟨kw, sp, dot, tb, htext, hlead, htable, hstart, hend, ⟨k, hk, hkw⟩, hne, hsp, hdot, t, ht, htb⟩ :=
    mem_tableReferenceRe h
  have hkwname : IsName kw := (isName_of_lead k hk).of_spelling hkw
  have htbname : IsName tb := (isName_of_mem t ht).1.of_spelling htb
  refine ⟨kw, sp, dot, tb, htext, hlead, htable, hkwname, ⟨hne, hsp⟩, hdot, ⟨t, ht, htb⟩, ?_, ?_⟩
  · refine last_any prev p (begins_of_boundary hstart ?_)
    rw [htext, List.append_assoc]
    exact head_of_word hkwname.ne_nil (isWord_of_wordy hkwname.1) _
  · refine ends_of_boundary hend ?_
    rw [htext]
    simp only [last_append]
    exact last_of_word _ htbname.ne_nil (isWord_of_wordy htbname.1)

/-- Rewriting the tables changes names only. -/
theorem rewritten {pre : List Char} (hpre : pre ∈ prefixes) (s : List Char) :
    Rewritten (tokens u.isWord s) (tokens u.isWord (rewriteTables u s pre)) := by
  unfold rewriteTables Re.sub
  refine (Re.cuts_induction (motive := fun _ s cut =>
    let out := cut.1.flatMap (fun x => x.1 ++ (x.2.group "lead" ++ pre ++ x.2.group "table")) ++ cut.2
    Rewritten (tokens u.isWord s) (tokens u.isWord out) ∧ out.head? = s.head?) ?_ ?_ _ none s).1
  · exact fun _ s => ⟨.refl _, rfl⟩
  · intro prev p m cut hm ⟨ih, hhead⟩
    obtain ⟨kw, sp, dot, tb, htext, hlead, htable, hkw, ⟨hne, hsp⟩, hdot, ⟨t, ht, htb⟩, hp, hrest⟩ :=
      tableReference_spec hm
    simp only [List.flatMap_cons, htext, hlead, htable, List.append_assoc]
    constructor
    · have hold := tokens_reference (dot ++ tb) hp hkw.tokens hne hsp hrest
      have hnew := tokens_reference (pre ++ tb) hp hkw.tokens hne hsp (hhead ▸ hrest)
      simp only [List.append_assoc] at hold hnew
      rw [hold, hnew]
      refine .table _ _ hne hsp (name_of_spelling hdot ht htb) (name_of_known hpre ht htb) ?_
      simpa only [List.append_assoc] using ih
    · cases p with
      | cons c p => rfl
      | nil => cases kw with
        | cons c kw => rfl
        | nil => exact absurd rfl hkw.ne_nil

/-! ## The limit at the end -/

/-- ` LIMIT 10`, however it is spaced and spelled. -/
def IsLimit (u : Unicode) (t : List Char) : Prop :=
  ∃ sp l sp' d, t = sp ++ (l ++ (sp' ++ d)) ∧ (sp ≠ [] ∧ ∀ c ∈ sp, isSpace c = true) ∧
    foldAll l = foldAll "LIMIT".toList ∧ (sp' ≠ [] ∧ ∀ c ∈ sp', isSpace c = true) ∧
      d ≠ [] ∧ ∀ c ∈ d, (u.digit c).isSome = true

theorem mem_limitRe {prev : Option Char} {m : Match} (h : m ∈ (limitRe u).ends u.isWord prev s) :
    ∃ t sp, m.text = t ++ sp ∧ IsLimit u t ∧ ∀ c ∈ sp ++ m.rest, isSpace c = true := by
  obtain ⟨_, hsp, _, h₁, rfl⟩ := Re.mem_seq.1 h
  obtain ⟨sp, s₁, -, hne, hsp', rfl⟩ := Re.mem_many1.1 hsp
  obtain ⟨_, hl, _, h₂, rfl⟩ := Re.mem_seq.1 h₁
  obtain ⟨l, s₂, -, hl', rfl⟩ := Re.mem_text.1 hl
  obtain ⟨_, hsp₂, _, h₃, rfl⟩ := Re.mem_seq.1 h₂
  obtain ⟨sp₂, s₃, -, hne₂, hsp₂', rfl⟩ := Re.mem_many1.1 hsp₂
  obtain ⟨_, hd, _, h₄, rfl⟩ := Re.mem_seq.1 h₃
  obtain ⟨d, s₄, -, hned, hd', rfl⟩ := Re.mem_many1.1 hd
  obtain ⟨_, hsp₃, _, hend, rfl⟩ := Re.mem_seq.1 h₄
  obtain ⟨sp₃, s₅, -, hsp₃', rfl⟩ := Re.mem_many.1 hsp₃
  obtain ⟨hend', rfl⟩ := Re.mem_atEnd.1 hend
  have hs₅ : ∀ c ∈ s₅, isSpace c = true := by
    obtain h | h : s₅ = [] ∨ s₅ = ['\n'] := hend' <;> rw [h]
    · exact List.forall_mem_nil _
    · exact List.forall_mem_singleton.2 (by decide)
  exact ⟨_, sp₃, by simp, ⟨sp, l, sp₂, d, rfl, ⟨hne, hsp'⟩, hl', ⟨hne₂, hsp₂'⟩, hned, hd'⟩,
    List.forall_mem_append.2 ⟨hsp₃', hs₅⟩⟩

theorem limitRe_ends {t sp : List Char} (ht : IsLimit u t) (hsp : ∀ c ∈ sp, isSpace c = true) (prev : Option Char) :
    (limitRe u).ends u.isWord prev (t ++ sp) ≠ [] := by
  obtain ⟨sp₁, l, sp₂, d, rfl, ⟨hne₁, hsp₁⟩, hl, ⟨hne₂, hsp₂⟩, hned, hd⟩ := ht
  simp only [List.append_assoc]
  refine Re.seq_ne_nil (Re.many1_mem hne₁ hsp₁) ?_
  refine Re.seq_ne_nil (Re.mem_text.2 ⟨l, sp₂ ++ (d ++ sp), rfl, hl, rfl⟩) ?_
  refine Re.seq_ne_nil (Re.many1_mem hne₂ hsp₂) ?_
  refine Re.seq_ne_nil (Re.many1_mem hned hd) ?_
  refine Re.seq_ne_nil (Re.mem_many.2 ⟨sp, [], (List.append_nil sp).symm, hsp, rfl⟩) ?_
  exact List.ne_nil_of_mem (Re.mem_atEnd.2 ⟨.inl rfl, rfl⟩)

theorem hasLimit_iff : hasLimit u s = true ↔
    ∃ x t sp, s = x ++ (t ++ sp) ∧ IsLimit u t ∧ ∀ c ∈ sp, isSpace c = true := by
  unfold hasLimit
  rw [Option.isSome_iff_ne_none, ne_eq, Re.search_eq_none]
  constructor
  · intro h
    simp only [not_forall] at h
    obtain ⟨x, b, rfl, h⟩ := h
    obtain ⟨m, hm⟩ := List.exists_mem_of_ne_nil _ h
    obtain ⟨t, sp, htext, ht, hsp⟩ := mem_limitRe hm
    refine ⟨x, t, sp ++ m.rest, ?_, ht, hsp⟩
    rw [← Re.text_append_rest hm, htext, List.append_assoc]
  · rintro ⟨x, t, sp, rfl, ht, hsp⟩ h
    exact limitRe_ends ht hsp _ (h x _ rfl)

theorem IsLimit.cons {t : List Char} {c : Char} (ht : IsLimit u t) (hc : isSpace c = true) : IsLimit u (c :: t) := by
  obtain ⟨sp, l, sp', d, rfl, ⟨-, hsp⟩, h⟩ := ht
  exact ⟨c :: sp, l, sp', d, rfl, ⟨nofun, List.forall_mem_cons.2 ⟨hc, hsp⟩⟩, h⟩

theorem IsLimit.head {t : List Char} (ht : IsLimit u t) : t.head?.any isSpace = true := by
  obtain ⟨sp, l, sp', d, rfl, ⟨hne, hsp⟩, -⟩ := ht
  cases sp with
  | nil => exact absurd rfl hne
  | cons c sp => exact hsp c List.mem_cons_self

theorem limitRe_ends_nil (prev : Option Char) : (limitRe u).ends u.isWord prev [] = [] := by
  refine List.eq_nil_iff_forall_not_mem.2 fun m hm => ?_
  obtain ⟨t, sp, htext, ht, -⟩ := mem_limitRe hm
  have hnil := Re.text_append_rest hm
  rw [htext, List.append_assoc] at hnil
  have hhead := ht.head
  rw [(List.append_eq_nil_iff.1 hnil).1] at hhead
  cases hhead

/-- Stripping the limit takes it off the end, and nothing but it. -/
theorem stripLimit_spec (hs : Trimmed s) : hasLimit u s = false ∧ stripLimit u s = s ∨
    ∃ t, s = stripLimit u s ++ t ∧ IsLimit u t ∧ Trimmed (stripLimit u s) := by
  cases hf : (limitRe u).find u.isWord none s with
  | none =>
    refine .inl ⟨by rw [hasLimit, Re.search, hf]; rfl, ?_⟩
    rw [stripLimit, Re.sub_of_find_none hf, strip_of_trimmed hs]
  | some x =>
    obtain ⟨p, m⟩ := x
    obtain ⟨rfl, hm, hleft⟩ := Re.find_some hf
    obtain ⟨t, sp, htext, ht, hsp⟩ := mem_limitRe hm
    have hnil : sp ++ m.rest = [] := by
      rw [htext, List.append_assoc, ← List.append_assoc] at hs
      exact hs.nil_of_spaces hsp
    obtain ⟨rfl, hmrest⟩ := List.append_eq_nil_iff.1 hnil
    rw [List.append_nil] at htext
    have hp : Trimmed p := by
      refine ⟨head_of_initial (List.prefix_append _ _) hs.1, ?_⟩
      cases hl : p.getLast? with
      | none => rfl
      | some c =>
        -- With white space before it the limit would have been found a place earlier.
        obtain ⟨a, rfl⟩ := List.getLast?_eq_some_iff.1 hl
        refine Bool.eq_false_iff.2 fun hc => ?_
        refine limitRe_ends (ht.cons hc) (List.forall_mem_nil _) (last none a) ?_
        have := hleft a [c] rfl (List.cons_ne_nil c [])
        simpa [htext, hmrest] using this
    have hstrip : stripLimit u (p ++ (m.text ++ m.rest)) = p := by
      rw [stripLimit, Re.sub_of_find_some hf hmrest limitRe_ends_nil, List.append_nil, strip_of_trimmed hp]
    rw [hstrip]
    exact .inr ⟨t, by rw [htext, hmrest, List.append_nil], ht, hp⟩

theorem digits_toString (limit : Nat) :
    (toString limit).toList ≠ [] ∧ ∀ c ∈ (toString limit).toList, (u.digit c).isSome = true := by
  rw [Nat.toString_eq_repr, Nat.toList_repr]
  exact ⟨Nat.toDigits_ne_nil, fun c hc => u.digit_isSome (Nat.isDigit_of_mem_toDigits (by decide) (by decide) hc)⟩

theorem blank_spaces : [' '] ≠ [] ∧ ∀ c ∈ [' '], isSpace c = true :=
  ⟨nofun, List.forall_mem_singleton.2 (by decide)⟩

theorem isLimit_limitClause (limit : Nat) : IsLimit u (limitClause limit) :=
  ⟨[' '], "LIMIT".toList, [' '], (toString limit).toList, rfl, blank_spaces, rfl, blank_spaces, digits_toString limit⟩

/-! ### In tokens -/

/-- ` LIMIT 10 `, as tokens. -/
inductive LimitTail (u : Unicode) : List Token → Prop
  | mk {sp l sp' d sp'' : List Char} : (sp ≠ [] ∧ ∀ c ∈ sp, isSpace c = true) → foldAll l = foldAll "LIMIT".toList →
      (sp' ≠ [] ∧ ∀ c ∈ sp', isSpace c = true) → (d ≠ [] ∧ ∀ c ∈ d, (u.digit c).isSome = true) →
        (∀ c ∈ sp'', isSpace c = true) →
          LimitTail u (sp.map Token.sign ++ (Token.word l :: (sp'.map .sign ++ (Token.word d :: sp''.map .sign))))

theorem tokens_limit (x : List Char) {sp₁ l sp₂ d sp : List Char} (hsp₁ : sp₁ ≠ [] ∧ ∀ c ∈ sp₁, isSpace c = true)
    (hl : foldAll l = foldAll "LIMIT".toList) (hsp₂ : sp₂ ≠ [] ∧ ∀ c ∈ sp₂, isSpace c = true)
    (hd : d ≠ [] ∧ ∀ c ∈ d, (u.digit c).isSome = true) (hsp : ∀ c ∈ sp, isSpace c = true) :
    tokens u.isWord (x ++ ((sp₁ ++ (l ++ (sp₂ ++ d))) ++ sp)) = tokens u.isWord x ++
      (sp₁.map Token.sign ++ (Token.word l :: (sp₂.map .sign ++ (Token.word d :: sp.map .sign)))) := by
  have hdig : ∀ c ∈ d, u.isWord c = true := fun c hc => u.word_digit c (hd.2 c hc)
  have hlw : ∀ c ∈ l, u.isWord c = true := isWord_of_wordy (hl ▸ by decide)
  have hlne : l ≠ [] := by rintro rfl; cases hl
  have hsign {s : List Char} (h : s ≠ [] ∧ ∀ c ∈ s, isSpace c = true) (r : List Char) :
      (s ++ r).head?.any u.isWord = false := by
    cases s with
    | nil => exact absurd rfl h.1
    | cons c s => exact u.word_space c (h.2 c List.mem_cons_self)
  have hs₁ := signs_of_spaces (u := u) hsp₁.2
  have hs₂ := signs_of_spaces (u := u) hsp₂.2
  have hs := signs_of_spaces (u := u) hsp
  simp only [List.append_assoc]
  rw [tokens_append (.inr (hsign hsp₁ _)), tokens_append (.inl (last_of_signs hs₁)),
    tokens_append (.inr (hsign hsp₂ _)), tokens_append (.inl (last_of_signs hs₂)),
    tokens_append (.inr (head_of_signs hs)), tokens_of_word hlne hlw, tokens_of_word hd.1 hdig, tokens_of_signs hs₁,
    tokens_of_signs hs₂, tokens_of_signs hs]
  rfl

theorem tokens_isLimit {x t sp : List Char} (ht : IsLimit u t) (hsp : ∀ c ∈ sp, isSpace c = true) :
    ∃ tl, LimitTail u tl ∧ tokens u.isWord (x ++ (t ++ sp)) = tokens u.isWord x ++ tl := by
  obtain ⟨sp₁, l, sp₂, d, rfl, hsp₁, hl, hsp₂, hd⟩ := ht
  exact ⟨_, .mk hsp₁ hl hsp₂ hd hsp, tokens_limit x hsp₁ hl hsp₂ hd hsp⟩

/-- The tokens that `limitClause` adds. -/
theorem tokens_limitClause (x : List Char) (limit : Nat) : tokens u.isWord (x ++ limitClause limit) =
    tokens u.isWord x ++ [Token.sign ' ', .word "LIMIT".toList, .sign ' ', .word (toString limit).toList] := by
  have h := tokens_limit x blank_spaces rfl blank_spaces (digits_toString (u := u) limit) (List.forall_mem_nil _)
  rw [List.append_nil] at h
  exact h

theorem tokens_allowFiltering (x : List Char) : tokens u.isWord (x ++ " ALLOW FILTERING".toList) =
    tokens u.isWord x ++ [Token.sign ' ', .word "ALLOW".toList, .sign ' ', .word "FILTERING".toList] := by
  have hspace : u.isWord ' ' = false := u.word_space ' ' (by decide)
  have hallow : IsName "ALLOW".toList := by decide
  have hfiltering : IsName "FILTERING".toList := by decide
  have hx : Apart u.isWord (last none x) (' ' :: ("ALLOW".toList ++ ' ' :: "FILTERING".toList)) := .inr hspace
  have hap : Apart u.isWord (last none "ALLOW".toList) (' ' :: "FILTERING".toList) := .inr hspace
  rw [show " ALLOW FILTERING".toList = ' ' :: ("ALLOW".toList ++ ' ' :: "FILTERING".toList) from rfl,
    tokens_append hx, tokens_cons, tokens_append hap, tokens_cons, hspace, hallow.tokens, hfiltering.tokens]
  rfl

theorem hasLimit_iff_tokens : hasLimit u s = true ↔ ∃ ts tl, tokens u.isWord s = ts ++ tl ∧ LimitTail u tl := by
  rw [hasLimit_iff]
  constructor
  · rintro ⟨x, t, sp, rfl, ht, hsp⟩
    obtain ⟨tl, htl, htok⟩ := tokens_isLimit (x := x) ht hsp
    exact ⟨_, tl, htok, htl⟩
  · rintro ⟨ts, tl, htok, htl⟩
    obtain ⟨hsp₁, hl, hsp₂, hd, hsp⟩ := htl
    rename_i sp₁ l sp₂ d sp
    refine ⟨ts.flatMap Token.text, sp₁ ++ (l ++ (sp₂ ++ d)), sp, ?_, ⟨sp₁, l, sp₂, d, rfl, hsp₁, hl, hsp₂, hd⟩, hsp⟩
    rw [← text_tokens u.isWord s, htok]
    simp [Token.text, List.flatMap_map]

theorem IsName.not_limit {w : List Char} (hw : IsName w) : foldAll w ≠ foldAll "LIMIT".toList :=
  fun h => hw.2.2 (h ▸ by decide)

theorem IsName.not_digits {w : List Char} (hw : IsName w) : ¬ ∀ c ∈ w, (u.digit c).isSome = true := by
  intro h
  obtain ⟨c, hc, hal⟩ := List.any_eq_true.1 hw.2.1
  obtain ⟨d, hd, rfl⟩ := List.mem_map.1 hc
  rw [u.isAlpha_fold_of_digit (h d hd)] at hal
  cases hal

theorem LimitTail.notMem {tl : List Token} (h : LimitTail u tl) {w : List Char} (hw : IsName w) : .word w ∉ tl := by
  obtain ⟨-, hl, -, hd, -⟩ := h
  intro hmem
  simp only [List.mem_append, List.mem_map, reduceCtorEq, and_false, exists_false, List.mem_cons, Token.word.injEq,
    false_or, or_false] at hmem
  rcases hmem with rfl | rfl
  · exact hw.not_limit hl
  · exact hw.not_digits hd.2

/-- What ends with a limit, ends with it after any name. -/
theorem limitTail_after {ts a : List Token} {w : List Char} (hw : IsName w) :
    (∃ x tl, ts ++ .word w :: a = x ++ tl ∧ LimitTail u tl) ↔ ∃ x tl, a = x ++ tl ∧ LimitTail u tl := by
  constructor
  · rintro ⟨x, tl, h, htl⟩
    rcases List.append_eq_append_iff.1 h with ⟨as, rfl, has⟩ | ⟨bs, rfl, rfl⟩
    · cases as with
      | nil =>
        obtain rfl : .word w :: a = tl := has
        exact absurd List.mem_cons_self (htl.notMem hw)
      | cons t as =>
        obtain ⟨-, rfl⟩ := List.cons.inj has
        exact ⟨as, tl, rfl, htl⟩
    · exact absurd (by simp) (htl.notMem hw)
  · rintro ⟨x, tl, rfl, htl⟩
    exact ⟨ts ++ .word w :: x, tl, by simp, htl⟩

theorem Rewritten.limitTail {a b : List Token} (h : Rewritten a b) :
    (∃ x tl, a = x ++ tl ∧ LimitTail u tl) ↔ ∃ x tl, b = x ++ tl ∧ LimitTail u tl := by
  induction h with
  | refl => rfl
  | table ts lead _ _ hold hnew _ ih =>
    obtain ⟨xs, w, rfl, hw⟩ := hold.last
    obtain ⟨ys, w', rfl, hw'⟩ := hnew.last
    have hsplit (zs : List Token) (v : List Char) (c sp : List Token) :
        ts ++ (Token.word lead :: (sp ++ (zs ++ [.word v] ++ c))) =
          (ts ++ Token.word lead :: (sp ++ zs)) ++ Token.word v :: c := by
      simp
    rw [hsplit, hsplit, limitTail_after hw, limitTail_after hw', ih]

theorem hasLimit_rewriteTables {pre : List Char} (hpre : pre ∈ prefixes) :
    hasLimit u (rewriteTables u s pre) = hasLimit u s := by
  have h := (rewritten (u := u) hpre s).limitTail (u := u)
  rw [← hasLimit_iff_tokens, ← hasLimit_iff_tokens] at h
  exact (Bool.eq_iff_iff.2 h).symm

/-! ## The dialects -/

theorem dialect_cassandra (sql : List Char) (limit : Nat) : dialect u .cassandra sql limit =
    rewriteTables u (stripLimit u (withoutAllowFiltering u sql)) [] ++ limitClause limit ++
      " ALLOW FILTERING".toList := rfl

/-- The prefix under which an engine's dialect names the tables. -/
def tablePrefix : Engine → List Char
  | .presto => "demo.".toList
  | .sparkBulk => bulkViewPrefix
  | .cassandra | .spark | .cqlite => []

theorem tablePrefix_mem (e : Engine) : tablePrefix e ∈ prefixes := by
  cases e <;> simp [tablePrefix, prefixes]

theorem dialect_tablePrefix {e : Engine} (he : e ≠ .cassandra) (sql : List Char) (limit : Nat) : dialect u e sql limit =
    if hasLimit u (withoutAllowFiltering u sql) then rewriteTables u (withoutAllowFiltering u sql) (tablePrefix e)
    else rewriteTables u (withoutAllowFiltering u sql) (tablePrefix e) ++ limitClause limit := by
  rw [← hasLimit_rewriteTables (tablePrefix_mem e)]
  cases e with
  | cassandra => exact absurd rfl he
  | presto | spark | sparkBulk | cqlite => rfl

/-- The text whose tables a dialect rewrites. -/
def body (u : Unicode) (e : Engine) (statement : List Char) : List Char :=
  if e = .cassandra then stripLimit u (withoutAllowFiltering u statement) else withoutAllowFiltering u statement

/-- The other dialects differ in the tables' prefix. -/
theorem dialect_other {e : Engine} (he : e ≠ .cassandra) : ∃ pre ∈ prefixes, ∀ sql limit, dialect u e sql limit =
    if hasLimit u (withoutAllowFiltering u sql) then rewriteTables u (withoutAllowFiltering u sql) pre
    else rewriteTables u (withoutAllowFiltering u sql) pre ++ limitClause limit :=
  ⟨_, tablePrefix_mem e, dialect_tablePrefix he⟩

end HtapStack.Query
