import HtapStack.Lib.Pieces
import HtapStack.Query.ReadOnly
/-!
# Questions without a model

`_patterns_to_sql` of `backend/app/routes/query.py` turns a question into a
statement when there is no model to do it: the question chooses a template, and a
regular expression takes one or two numerals from it.

`patterns_safe`: whatever the question, `_validate` accepts the statement as it is,
and the statement is one of the templates with numerals of the question in its one
or two gaps. A digit is what `\d` takes for one.
-/

namespace HtapStack.Query
open Py

/-! ## The patterns -/

/-- `w in prompt`. -/
def contains (prompt w : List Char) : Bool := (find w prompt).isSome

def nlMeasures : List (List (List Char) × List Char) :=
  [(["temperature", "temp", "hot", "overheat"].map String.toList, "temp_internal_c".toList),
    (["altitude", "height", "high"].map String.toList, "altitude_m".toList),
    (["speed", "fast", "velocity"].map String.toList, "speed_mps".toList),
    (["risk".toList], "risk_score".toList)]

def nlBase : List Char :=
  "SELECT entity_id, event_time, latitude, longitude, altitude_m, speed_mps, ".toList ++
    "temp_internal_c, risk_score FROM demo.drone_latest_status".toList

def nlCount : List Char :=
  "SELECT count(*) AS assets, ".toList ++
    ("count_if(is_flying) AS flying, ".toList ++
      ("count_if(near_restricted_zone) AS near_zone, ".toList ++
        ("round(avg(speed_mps), 1) AS avg_speed_mps ".toList ++ "FROM demo.drone_latest_status".toList)))

/-- The characters of a text, in this case only. -/
def lit : List Char → Re
  | [] => .empty
  | c :: s => .seq (.one (· == c)) (lit s)

variable (u : Unicode)

/-- `-?\d+(?:\.\d+)?` -/
def numeralRe : Re :=
  .seq (.opt (.one (· == '-'))) (.seq (.many1 fun c => (u.digit c).isSome)
    (.opt (.seq (.one (· == '.')) (.many1 fun c => (u.digit c).isSome))))

def comparisons : List (List Char) :=
  ["above", "over", "greater than", "more than", "below", "less than", "under", "between"].map String.toList

/-- `_NL_COMPARISONS`: `(above|…)\s+(…)(?:\s*(?:and|to|-)\s*(…))?` -/
def nlComparisons : Re :=
  .seq (.group "1" (.anyOf (comparisons.map lit))) (.seq (.many1 isSpace) (.seq (.group "2" (numeralRe u))
    (.opt (.seq (.many isSpace) (.seq (.anyOf ((["and", "to", "-"].map String.toList).map lit))
      (.seq (.many isSpace) (.group "3" (numeralRe u))))))))

local instance lawfulText : LawfulBEq (List Char) := inferInstance

/-- `_patterns_to_sql`. A group that took no part in the match is empty. -/
def patternsToSql (prompt : List Char) : List Char :=
  let any (words : List String) : Bool := words.any fun w => contains prompt w.toList
  match (nlMeasures.find? fun m => m.1.any (contains prompt)).map (·.2) with
  | some measure =>
    match (nlComparisons u).search u.isWord prompt with
    | some m =>
      let operator := m.group "1"
      let first := m.group "2"
      let second := m.group "3"
      if operator = "between".toList ∧ second ≠ [] then
        nlBase ++ " WHERE ".toList ++ measure ++ " BETWEEN ".toList ++ first ++ " AND ".toList ++ second ++
          " ORDER BY ".toList ++ measure ++ " DESC".toList
      else if operator ∈ ["above", "over", "greater than", "more than"].map String.toList then
        nlBase ++ " WHERE ".toList ++ measure ++ " > ".toList ++ first ++ " ORDER BY ".toList ++ measure ++
          " DESC".toList
      else
        nlBase ++ " WHERE ".toList ++ measure ++ " < ".toList ++ first ++ " ORDER BY ".toList ++ measure ++
          " ASC".toList
    | none => nlBase ++ " ORDER BY ".toList ++ measure ++ " DESC".toList
  | none =>
    if contains prompt "breach".toList then
      nlBase ++ " WHERE predicted_zone_breach = true ORDER BY risk_score DESC".toList
    else if contains prompt "zone".toList then
      nlBase ++ " WHERE near_restricted_zone = true ORDER BY risk_score DESC".toList
    else if contains prompt "ground".toList then nlBase ++ " WHERE is_flying = false".toList
    else if any ["flying", "active", "airborne"] then nlBase ++ " WHERE is_flying = true".toList
    else if any ["count", "how many", "total", "stats"] then nlCount
    else nlBase

/-! ## Templates -/

/-- A text with gaps: what is before the first of them, and what comes after each. -/
structure Template where
  first : List Char
  after : List (List Char)

/-- The text with these in its gaps. -/
def fillFrom : List Char → List (List Char) → List (List Char) → List Char
  | first, next :: after, n :: ns => first ++ (n ++ fillFrom next after ns)
  | first, _, _ => first

def Template.fill (t : Template) (ns : List (List Char)) : List Char := fillFrom t.first t.after ns

/-- The templates for a column. -/
def columnTemplates (measure : List Char) : List Template :=
  [⟨nlBase ++ " WHERE ".toList ++ measure ++ " BETWEEN ".toList,
      [" AND ".toList, " ORDER BY ".toList ++ measure ++ " DESC".toList]⟩,
    ⟨nlBase ++ " WHERE ".toList ++ measure ++ " > ".toList, [" ORDER BY ".toList ++ measure ++ " DESC".toList]⟩,
    ⟨nlBase ++ " WHERE ".toList ++ measure ++ " < ".toList, [" ORDER BY ".toList ++ measure ++ " ASC".toList]⟩,
    ⟨nlBase ++ " ORDER BY ".toList ++ measure ++ " DESC".toList, []⟩]

/-- The templates without a gap for the questions that name no measure. -/
def wholeStatements : List (List Char) :=
  [nlBase ++ " WHERE predicted_zone_breach = true ORDER BY risk_score DESC".toList,
    nlBase ++ " WHERE near_restricted_zone = true ORDER BY risk_score DESC".toList,
    nlBase ++ " WHERE is_flying = false".toList, nlBase ++ " WHERE is_flying = true".toList, nlCount, nlBase]

def templates : List Template :=
  (nlMeasures.map (·.2)).flatMap columnTemplates ++ wholeStatements.map (⟨·, []⟩)

/-- A sign or none, digits, and a fraction or none. -/
def IsNumeral (t : List Char) : Prop :=
  ∃ sign whole fraction, t = sign ++ (whole ++ fraction) ∧ (sign = [] ∨ sign = ['-']) ∧
    (whole ≠ [] ∧ ∀ c ∈ whole, (u.digit c).isSome = true) ∧
      (fraction = [] ∨ ∃ ds, fraction = '.' :: ds ∧ ds ≠ [] ∧ ∀ c ∈ ds, (u.digit c).isSome = true)

variable {u} {prev : Option Char} {s : List Char} {m : Match}

/-! ## What the expression takes -/

theorem mem_lit {t : List Char} (h : m ∈ (lit t).ends u.isWord prev s) : ∃ rest, s = t ++ rest ∧ m = ⟨t, rest, []⟩ := by
  induction t generalizing prev s m with
  | nil => exact ⟨s, rfl, Re.mem_empty.1 h⟩
  | cons c t ih =>
    obtain ⟨_, h₁, _, h₂, rfl⟩ := Re.mem_seq.1 h
    obtain ⟨d, rest, rfl, hd, rfl⟩ := Re.mem_one.1 h₁
    obtain ⟨rest', rfl, rfl⟩ := ih h₂
    rw [beq_iff_eq.1 hd]
    exact ⟨rest', rfl, rfl⟩

theorem mem_anyOf_lit {ts : List (List Char)} (h : m ∈ (Re.anyOf (ts.map lit)).ends u.isWord prev s) :
    ∃ t ∈ ts, ∃ rest, s = t ++ rest ∧ m = ⟨t, rest, []⟩ := by
  obtain ⟨r, hr, hm⟩ := Re.mem_anyOf.1 h
  obtain ⟨t, ht, rfl⟩ := List.mem_map.1 hr
  exact ⟨t, ht, mem_lit hm⟩

theorem mem_sign (h : m ∈ (Re.opt (.one (· == '-'))).ends u.isWord prev s) :
    ∃ sign rest, s = sign ++ rest ∧ (sign = [] ∨ sign = ['-']) ∧ m = ⟨sign, rest, []⟩ := by
  rcases Re.mem_alt.1 h with hminus | hnone
  · obtain ⟨c, rest, rfl, hc, rfl⟩ := Re.mem_one.1 hminus
    obtain rfl := beq_iff_eq.1 hc
    exact ⟨['-'], rest, rfl, .inr rfl, rfl⟩
  · exact ⟨[], s, rfl, .inl rfl, Re.mem_empty.1 hnone⟩

theorem mem_fraction
    (h : m ∈ (Re.opt (.seq (.one (· == '.')) (.many1 fun c => (u.digit c).isSome))).ends u.isWord prev s) :
    ∃ fraction rest, s = fraction ++ rest ∧
      (fraction = [] ∨ ∃ ds, fraction = '.' :: ds ∧ ds ≠ [] ∧ ∀ c ∈ ds, (u.digit c).isSome = true) ∧
        m = ⟨fraction, rest, []⟩ := by
  rcases Re.mem_alt.1 h with hsome | hnone
  · obtain ⟨_, hdot, _, hds, rfl⟩ := Re.mem_seq.1 hsome
    obtain ⟨c, rest, rfl, hc, rfl⟩ := Re.mem_one.1 hdot
    obtain rfl := beq_iff_eq.1 hc
    obtain ⟨ds, rest, rfl, hne, hdigits, rfl⟩ := Re.mem_many1.1 hds
    exact ⟨'.' :: ds, rest, rfl, .inr ⟨ds, rfl, hne, hdigits⟩, rfl⟩
  · exact ⟨[], s, rfl, .inl rfl, Re.mem_empty.1 hnone⟩

theorem mem_numeralRe (h : m ∈ (numeralRe u).ends u.isWord prev s) :
    ∃ n rest, s = n ++ rest ∧ IsNumeral u n ∧ m = ⟨n, rest, []⟩ := by
  obtain ⟨_, h₁, _, h₂, rfl⟩ := Re.mem_seq.1 h
  obtain ⟨_, h₃, _, h₄, rfl⟩ := Re.mem_seq.1 h₂
  obtain ⟨sign, rest, rfl, hsign, rfl⟩ := mem_sign h₁
  obtain ⟨whole, rest, rfl, hne, hdigits, rfl⟩ := Re.mem_many1.1 h₃
  obtain ⟨fraction, rest, rfl, hfraction, rfl⟩ := mem_fraction h₄
  exact ⟨sign ++ (whole ++ fraction), rest, by simp, ⟨sign, whole, fraction, rfl, hsign, ⟨hne, hdigits⟩, hfraction⟩,
    rfl⟩

/-- The second group is a numeral, and so is the third if it took part. -/
theorem match_numerals (h : m ∈ (nlComparisons u).ends u.isWord prev s) :
    (IsNumeral u (m.group "2") ∧ m.group "2" <:+: s) ∧
      (m.group "3" = [] ∨ IsNumeral u (m.group "3") ∧ m.group "3" <:+: s) := by
  obtain ⟨_, hop, _, h₁, rfl⟩ := Re.mem_seq.1 h
  obtain ⟨_, hspace, _, h₂, rfl⟩ := Re.mem_seq.1 h₁
  obtain ⟨_, hfirst, _, hsecond, rfl⟩ := Re.mem_seq.1 h₂
  obtain ⟨_, hword, rfl⟩ := Re.mem_group.1 hop
  obtain ⟨op, -, rest, rfl, rfl⟩ := mem_anyOf_lit hword
  obtain ⟨sp, rest, rfl, -, -, rfl⟩ := Re.mem_many1.1 hspace
  obtain ⟨_, hnumeral, rfl⟩ := Re.mem_group.1 hfirst
  obtain ⟨first, rest, rfl, hnum, rfl⟩ := mem_numeralRe hnumeral
  have hin : first <:+: op ++ (sp ++ (first ++ rest)) := ⟨op ++ sp, rest, by simp⟩
  refine ⟨⟨hnum, hin⟩, ?_⟩
  rcases Re.mem_alt.1 hsecond with h₃ | h₃
  · obtain ⟨_, hsp, _, h₄, rfl⟩ := Re.mem_seq.1 h₃
    obtain ⟨_, hand, _, h₅, rfl⟩ := Re.mem_seq.1 h₄
    obtain ⟨_, hsp', _, h₆, rfl⟩ := Re.mem_seq.1 h₅
    obtain ⟨sp₁, rest, rfl, -, rfl⟩ := Re.mem_many.1 hsp
    obtain ⟨conj, -, rest, rfl, rfl⟩ := mem_anyOf_lit hand
    obtain ⟨sp₂, rest, rfl, -, rfl⟩ := Re.mem_many.1 hsp'
    obtain ⟨_, hnumeral', rfl⟩ := Re.mem_group.1 h₆
    obtain ⟨second, rest, rfl, hnum', rfl⟩ := mem_numeralRe hnumeral'
    have hin' : second <:+: op ++ (sp ++ (first ++ (sp₁ ++ (conj ++ (sp₂ ++ (second ++ rest)))))) :=
      ⟨op ++ sp ++ first ++ sp₁ ++ conj ++ sp₂, rest, by simp⟩
    exact .inr ⟨hnum', hin'⟩
  · rw [Re.mem_empty.1 h₃]
    exact .inl rfl

/-! ## What the statement is -/

theorem mem_columnTemplates {words : List (List Char)} {measure : List Char} (h : (words, measure) ∈ nlMeasures)
    {t : Template} (ht : t ∈ columnTemplates measure) : t ∈ templates :=
  List.mem_append_left _ (List.mem_flatMap.2 ⟨measure, List.mem_map_of_mem h, ht⟩)

theorem mem_wholeStatements {t : List Char} (h : t ∈ wholeStatements) : ⟨t, []⟩ ∈ templates :=
  List.mem_append_right _ (List.mem_map_of_mem (f := fun t => Template.mk t []) h)

/-- One of the templates, and numerals of the question in its gaps. -/
structure Filled (u : Unicode) (prompt sql : List Char) (t : Template) (ns : List (List Char)) : Prop where
  template : t ∈ templates
  eq : sql = t.fill ns
  length : ns.length = t.after.length
  numerals : ∀ n ∈ ns, IsNumeral u n ∧ n <:+: prompt

theorem filled_whole {prompt sql : List Char} (h : sql ∈ wholeStatements) : ∃ t ns, Filled u prompt sql t ns :=
  ⟨⟨sql, []⟩, [], mem_wholeStatements h, rfl, rfl, fun _ hn => nomatch hn⟩

theorem patternsToSql_filled (u : Unicode) (prompt : List Char) :
    ∃ t ns, Filled u prompt (patternsToSql u prompt) t ns := by
  unfold patternsToSql
  cases hmeasure : nlMeasures.find? fun m => m.1.any (contains prompt) with
  | some entry =>
    obtain ⟨words, measure⟩ := entry
    have hin := List.mem_of_find?_eq_some hmeasure
    simp only [Option.map_some]
    cases hmatch : (nlComparisons u).search u.isWord prompt with
    | none =>
      exact ⟨⟨nlBase ++ " ORDER BY ".toList ++ measure ++ " DESC".toList, []⟩, [],
        mem_columnTemplates hin (.tail _ (.tail _ (.tail _ (.head _)))), rfl, rfl, fun _ hn => nomatch hn⟩
    | some _ =>
      obtain ⟨⟨before, m⟩, hfind, rfl⟩ := Option.map_eq_some_iff.1 hmatch
      obtain ⟨hprompt, hm, -⟩ := Re.find_some hfind
      have hin' : ∀ n, n <:+: m.text ++ m.rest → n <:+: prompt := fun n hn =>
        hprompt ▸ hn.trans (List.suffix_append before _).isInfix
      obtain ⟨hfirst, hsecond⟩ := match_numerals hm
      simp only
      split
      · next hbetween =>
        refine ⟨⟨nlBase ++ " WHERE ".toList ++ measure ++ " BETWEEN ".toList,
          [" AND ".toList, " ORDER BY ".toList ++ measure ++ " DESC".toList]⟩, [m.group "2", m.group "3"],
          mem_columnTemplates hin (.head _), by simp only [Template.fill, fillFrom, List.append_assoc], rfl, ?_⟩
        obtain hnone | hsecond := hsecond
        · exact absurd hnone hbetween.2
        · simpa using ⟨⟨hfirst.1, hin' _ hfirst.2⟩, hsecond.1, hin' _ hsecond.2⟩
      split
      · exact ⟨⟨nlBase ++ " WHERE ".toList ++ measure ++ " > ".toList,
          [" ORDER BY ".toList ++ measure ++ " DESC".toList]⟩, [m.group "2"],
          mem_columnTemplates hin (.tail _ (.head _)), by simp only [Template.fill, fillFrom, List.append_assoc], rfl,
          by simpa using ⟨hfirst.1, hin' _ hfirst.2⟩⟩
      · exact ⟨⟨nlBase ++ " WHERE ".toList ++ measure ++ " < ".toList,
          [" ORDER BY ".toList ++ measure ++ " ASC".toList]⟩, [m.group "2"],
          mem_columnTemplates hin (.tail _ (.tail _ (.head _))), by simp only [Template.fill, fillFrom, List.append_assoc],
          rfl,
          by simpa using ⟨hfirst.1, hin' _ hfirst.2⟩⟩
  | none =>
    simp only [Option.map_none]
    split
    · exact filled_whole (.head _)
    split
    · exact filled_whole (.tail _ (.head _))
    split
    · exact filled_whole (.tail _ (.tail _ (.head _)))
    split
    · exact filled_whole (.tail _ (.tail _ (.tail _ (.head _))))
    split
    · exact filled_whole (.tail _ (.tail _ (.tail _ (.tail _ (.head _)))))
    · exact filled_whole (.tail _ (.tail _ (.tail _ (.tail _ (.tail _ (.head _))))))

/-! ## Why it is accepted -/

/-- There is a space on both sides of every gap, and none at the end. -/
def Joined : List Char → List (List Char) → Prop
  | piece, [] => piece.getLast?.all isSpace = false
  | piece, next :: after => last none piece = some ' ' ∧ next.head? = some ' ' ∧ Joined next after

/-- ASCII without a semicolon or a write keyword. -/
def Harmless (piece : List Char) : Prop :=
  (∀ c ∈ piece, c.toNat < 128 ∧ c ≠ ';') ∧
    ∀ t ∈ tokens Unicode.ascii.isWord piece, ¬ IsWriteKeyword t.text

-- Down the list, and not through all characters there are.
instance decidableHarmless (piece : List Char) : Decidable (Harmless piece) :=
  @instDecidableAnd _ _ (List.decidableBAll _ piece) (List.decidableBAll _ (tokens Unicode.ascii.isWord piece))

structure Template.Sound (t : Template) : Prop where
  select : "SELECT".toList <+: t.first
  joined : Joined t.first t.after
  harmless : ∀ piece ∈ t.first :: t.after, Harmless piece

theorem Harmless.append {a b : List Char} (ha : Harmless a) (hb : Harmless b)
    (h : last none a = some ' ' ∨ b.head? = some ' ') : Harmless (a ++ b) := by
  have hspace : Unicode.ascii.isWord ' ' = false := Unicode.ascii.word_space ' ' (by decide)
  have hapart : Apart Unicode.ascii.isWord (last none a) b := by
    rcases h with h | h
    · exact .inl (by rw [h]; exact hspace)
    · exact .inr (by rw [h]; exact hspace)
  refine ⟨fun c hc => (List.mem_append.1 hc).elim (ha.1 c) (hb.1 c), fun t ht => ?_⟩
  rw [tokens_append hapart] at ht
  exact (List.mem_append.1 ht).elim (ha.2 t) (hb.2 t)

/-- A literal by its characters, which it need not be decoded for. -/
theorem Harmless.literal (cs : List Char) (h : Harmless cs) : Harmless (String.ofList cs).toList := by
  rwa [String.toList_ofList]

theorem last_literal (cs : List Char) {c : Option Char} (h : last none cs = c) : last none (String.ofList cs).toList = c := by
  rwa [String.toList_ofList]

theorem harmless_nlBase : Harmless nlBase :=
  .append (.literal _ (by decide +kernel)) (.literal _ (by decide +kernel)) (.inl (last_literal _ rfl))

theorem harmless_measures : ∀ measure ∈ nlMeasures.map (·.2), Harmless measure := by decide +kernel

theorem select_nlBase (s : List Char) : "SELECT".toList <+: nlBase ++ s :=
  List.IsPrefix.trans (by decide +kernel) (List.prefix_append nlBase s)

theorem harmless_nlCount : Harmless nlCount :=
  .append (.literal _ (by decide +kernel)) (.append (.literal _ (by decide +kernel)) (.append (.literal _ (by decide +kernel))
    (.append (.literal _ (by decide +kernel)) (.literal _ (by decide +kernel)) (.inl (last_literal _ rfl)))
    (.inl (last_literal _ rfl))) (.inl (last_literal _ rfl))) (.inl (last_literal _ rfl))

theorem select_nlCount : "SELECT".toList <+: nlCount :=
  List.IsPrefix.trans (by decide +kernel) (List.prefix_append "SELECT count(*) AS assets, ".toList _)

/-- It takes only the last piece to see that a statement does not end in white space. -/
theorem ends_append (s : List Char) {piece : List Char} (h : piece.getLast?.all isSpace = false) :
    (s ++ piece).getLast?.all isSpace = false := by
  have hne : piece ≠ [] := fun hnil => by rw [hnil] at h; cases h
  rw [List.getLast?_append_of_ne_nil s hne, h]

theorem sound_whole {s : List Char} (hselect : "SELECT".toList <+: s) (h : Harmless s)
    (hend : s.getLast?.all isSpace = false) : Template.Sound ⟨s, []⟩ where
  select := hselect
  joined := hend
  harmless _ hpiece := List.mem_singleton.1 hpiece ▸ h

theorem sound_gap {s after : List Char} (hselect : "SELECT".toList <+: s) (hs : Harmless s) (hafter : Harmless after)
    (hlast : last none s = some ' ') (hhead : after.head? = some ' ') (hend : after.getLast?.all isSpace = false) :
    Template.Sound ⟨s, [after]⟩ where
  select := hselect
  joined := ⟨hlast, hhead, hend⟩
  harmless := List.forall_mem_cons.2 ⟨hs, List.forall_mem_singleton.2 hafter⟩

theorem columnTemplates_sound {measure : List Char} (h : Harmless measure) : ∀ t ∈ columnTemplates measure, t.Sound := by
  have hwhere : Harmless (nlBase ++ " WHERE ".toList ++ measure) := by
    refine (harmless_nlBase.append (by decide) (.inr rfl)).append h (.inl ?_)
    rw [last_append]
    rfl
  have horder : Harmless (" ORDER BY ".toList ++ measure) := .append (by decide) h (.inl rfl)
  have hdesc : Harmless (" ORDER BY ".toList ++ measure ++ " DESC".toList) := horder.append (by decide) (.inr rfl)
  have hasc : Harmless (" ORDER BY ".toList ++ measure ++ " ASC".toList) := horder.append (by decide) (.inr rfl)
  have hfirst (s : List Char) : "SELECT".toList <+: nlBase ++ " WHERE ".toList ++ measure ++ s := by
    rw [List.append_assoc, List.append_assoc]
    exact select_nlBase _
  intro t ht
  simp only [columnTemplates, List.mem_cons, List.not_mem_nil, or_false] at ht
  obtain rfl | rfl | rfl | rfl := ht
  · have hbetween : Harmless (nlBase ++ " WHERE ".toList ++ measure ++ " BETWEEN ".toList) :=
      hwhere.append (by decide) (.inr rfl)
    exact {
      select := hfirst _
      joined := ⟨by rw [last_append]; rfl, rfl, rfl, rfl, ends_append _ rfl⟩
      harmless := List.forall_mem_cons.2 ⟨hbetween, List.forall_mem_cons.2 ⟨by decide, List.forall_mem_singleton.2 hdesc⟩⟩ }
  · exact sound_gap (hfirst _) (hwhere.append (by decide) (.inr rfl)) hdesc (by rw [last_append]; rfl) rfl (ends_append _ rfl)
  · exact sound_gap (hfirst _) (hwhere.append (by decide) (.inr rfl)) hasc (by rw [last_append]; rfl) rfl (ends_append _ rfl)
  · refine sound_whole ?_ ?_ (ends_append _ rfl)
    · rw [List.append_assoc, List.append_assoc]
      exact select_nlBase _
    · rw [List.append_assoc, List.append_assoc, ← List.append_assoc (" ORDER BY ".toList)]
      exact harmless_nlBase.append hdesc (.inr rfl)

theorem sound_base (cs : List Char) (h : Harmless cs) (hhead : cs.head? = some ' ')
    (hend : cs.getLast?.all isSpace = false) : Template.Sound ⟨nlBase ++ (String.ofList cs).toList, []⟩ := by
  rw [String.toList_ofList]
  exact sound_whole (select_nlBase cs) (harmless_nlBase.append h (.inr hhead)) (ends_append _ hend)

theorem templates_sound : ∀ t ∈ templates, t.Sound := by
  intro t ht
  rcases List.mem_append.1 ht with ht | ht
  · obtain ⟨measure, hm, ht⟩ := List.mem_flatMap.1 ht
    exact columnTemplates_sound (harmless_measures measure hm) t ht
  · obtain ⟨s, hs, rfl⟩ := List.mem_map.1 ht
    simp only [wholeStatements, List.mem_cons, List.not_mem_nil, or_false] at hs
    obtain rfl | rfl | rfl | rfl | rfl | rfl := hs
    · exact sound_base _ (by decide +kernel) rfl rfl
    · exact sound_base _ (by decide +kernel) rfl rfl
    · exact sound_base _ (by decide +kernel) rfl rfl
    · exact sound_base _ (by decide +kernel) rfl rfl
    · exact sound_whole select_nlCount harmless_nlCount (ends_append _ (ends_append _ (ends_append _ (ends_append _ rfl))))
    · exact sound_whole (by simpa using select_nlBase []) harmless_nlBase (ends_append _ rfl)

theorem tokens_congr {p q : Char → Bool} (h : ∀ c ∈ s, p c = q c) : tokens p s = tokens q s := by
  induction s with
  | nil => rfl
  | cons c s ih =>
    obtain ⟨hc, hs⟩ := List.forall_mem_cons.1 h
    rw [tokens_cons, tokens_cons, hc, ih hs]

theorem Harmless.keywordFree (h : Harmless s) : KeywordFree u s := by
  have hword : ∀ c ∈ s, u.isWord c = Unicode.ascii.isWord c := fun c hc => by
    rw [u.word_ascii c (h.1 c hc).1, Unicode.ascii.word_ascii c (h.1 c hc).1]
  intro w hw
  rw [tokens_congr hword] at hw
  exact h.2 _ hw

theorem keywordFree_append {a b : List Char} (h : Apart u.isWord (last none a) b) (ha : KeywordFree u a)
    (hb : KeywordFree u b) : KeywordFree u (a ++ b) := by
  intro w hw
  rw [tokens_append h] at hw
  exact (List.mem_append.1 hw).elim (ha w) (hb w)

/-- What a numeral is made of. -/
theorem IsNumeral.mem {n : List Char} (h : IsNumeral u n) {c : Char} (hc : c ∈ n) :
    c = '-' ∨ c = '.' ∨ (u.digit c).isSome = true := by
  obtain ⟨sign, whole, fraction, rfl, hsign, ⟨-, hwhole⟩, hfraction⟩ := h
  rcases List.mem_append.1 hc with hc | hc
  · rcases hsign with rfl | rfl
    · cases hc
    · exact .inl (List.mem_singleton.1 hc)
  rcases List.mem_append.1 hc with hc | hc
  · exact .inr (.inr (hwhole c hc))
  rcases hfraction with rfl | ⟨ds, rfl, -, hds⟩
  · cases hc
  · exact .inr ((List.mem_cons.1 hc).imp_right (hds c))

theorem IsNumeral.keywordFree {n : List Char} (h : IsNumeral u n) : KeywordFree u n := by
  intro w hw hk
  obtain ⟨a, b, rfl, hne, -⟩ := mem_tokens_iff.1 hw
  obtain ⟨c, hc⟩ := List.exists_mem_of_ne_nil _ hne
  obtain ⟨k, hmem, hkw⟩ := List.mem_map.1 hk
  have halpha : ∀ k ∈ writeKeywords, (foldAll k).all Char.isAlpha = true := by decide
  have hc' : (fold c).isAlpha = true := List.all_eq_true.1 (halpha k hmem) (fold c) (hkw ▸ List.mem_map_of_mem hc)
  rcases h.mem (c := c) (by simp [hc]) with rfl | rfl | hdigit
  · revert hc'
    decide
  · revert hc'
    decide
  · rw [u.isAlpha_fold_of_digit hdigit] at hc'
    cases hc'

/-! ### With the gaps filled -/

theorem prefix_fillFrom (piece : List Char) (after ns : List (List Char)) : piece <+: fillFrom piece after ns := by
  cases after with
  | nil => exact List.prefix_rfl
  | cons next after =>
    cases ns with
    | nil => exact List.prefix_rfl
    | cons n ns => exact List.prefix_append ..

/-- The pieces are `after` the first, and the numerals are as many. -/
structure Fits (u : Unicode) (piece : List Char) (after ns : List (List Char)) : Prop where
  joined : Joined piece after
  harmless : ∀ p ∈ piece :: after, Harmless p
  numerals : ∀ n ∈ ns, IsNumeral u n
  length : ns.length = after.length

theorem Fits.next {piece next n : List Char} {after ns : List (List Char)} (h : Fits u piece (next :: after) (n :: ns)) :
    Fits u next after ns where
  joined := h.joined.2.2
  harmless := (List.forall_mem_cons.1 h.harmless).2
  numerals := (List.forall_mem_cons.1 h.numerals).2
  length := Nat.succ.inj h.length

/-- The pieces and the numerals, one after the other. -/
theorem Fits.induction {motive : List Char → List (List Char) → List (List Char) → Prop}
    (last : ∀ piece, Fits u piece [] [] → motive piece [] [])
    (gap : ∀ piece next n after ns, Fits u piece (next :: after) (n :: ns) → motive next after ns →
      motive piece (next :: after) (n :: ns))
    {piece : List Char} {after ns : List (List Char)} (h : Fits u piece after ns) : motive piece after ns := by
  induction after generalizing piece ns with
  | nil =>
    obtain rfl := List.length_eq_zero_iff.1 h.length
    exact last piece h
  | cons next after ih =>
    cases ns with
    | nil => cases h.length
    | cons n ns => exact gap piece next n after ns h (ih h.next)

theorem Fits.keywordFree {piece : List Char} {after ns : List (List Char)} (h : Fits u piece after ns) :
    KeywordFree u (fillFrom piece after ns) := by
  refine Fits.induction (motive := fun piece after ns => KeywordFree u (fillFrom piece after ns)) ?_ ?_ h
  · exact fun piece h => (h.harmless piece List.mem_cons_self).keywordFree
  · intro piece next n after ns h ih
    have hspace : u.isWord ' ' = false := u.word_space ' ' (by decide)
    obtain ⟨hbefore, hafter, -⟩ := h.joined
    have hnext : (fillFrom next after ns).head?.any u.isWord = false := by
      obtain ⟨rest, hrest⟩ := prefix_fillFrom next after ns
      rw [← hrest, List.head?_append, hafter]
      exact hspace
    refine keywordFree_append (.inl ?_) (h.harmless piece List.mem_cons_self).keywordFree
      (keywordFree_append (.inr hnext) (h.numerals n List.mem_cons_self).keywordFree ih)
    rw [hbefore]
    exact hspace

theorem Fits.semicolon {piece : List Char} {after ns : List (List Char)} (h : Fits u piece after ns) :
    ';' ∉ fillFrom piece after ns := by
  refine Fits.induction (motive := fun piece after ns => ';' ∉ fillFrom piece after ns) ?_ ?_ h
  · exact fun piece h hc => ((h.harmless piece List.mem_cons_self).1 _ hc).2 rfl
  · intro piece next n after ns h ih hc
    rcases List.mem_append.1 hc with hc | hc
    · exact ((h.harmless piece List.mem_cons_self).1 _ hc).2 rfl
    rcases List.mem_append.1 hc with hc | hc
    · have hdigit : (u.digit ';').isSome = false := by
        rw [u.digit_ascii ';' (by decide)]
        rfl
      rcases (h.numerals n List.mem_cons_self).mem hc with hc | hc | hc
      · cases hc
      · cases hc
      · rw [hdigit] at hc
        cases hc
    · exact ih hc

theorem Fits.last {piece : List Char} {after ns : List (List Char)} (h : Fits u piece after ns) :
    (fillFrom piece after ns).getLast?.all isSpace = false := by
  refine Fits.induction (motive := fun piece after ns => (fillFrom piece after ns).getLast?.all isSpace = false) ?_ ?_ h
  · exact fun piece h => h.joined
  · intro piece next n after ns h ih
    have hne : fillFrom next after ns ≠ [] := by
      intro hnil
      rw [hnil] at ih
      cases ih
    rw [fillFrom, ← List.append_assoc, List.getLast?_append_of_ne_nil _ hne]
    exact ih

theorem startsSelect_of_initial (h : "SELECT".toList <+: s) : StartsSelect u s := by
  obtain ⟨rest, rfl⟩ := h
  refine ⟨upper u rest, ?_⟩
  simp only [upper, List.flatMap_append]
  congr 1
  simp [u.upper_ascii]

/-- A statement that there is nothing to take off from is accepted as it is. -/
theorem validate_self (hs : Trimmed s) (hsemi : ';' ∉ s) (hstart : StartsSelect u s) (hfree : KeywordFree u s) :
    validate u s = .ok s := by
  have hr : rstrip s ';' = s := by
    refine List.rdropWhile_eq_self_iff.2 fun hne hl => hsemi ?_
    rw [← beq_iff_eq.1 hl]
    exact List.getLast_mem hne
  rw [validate_eq_ok, strip_of_trimmed hs, hr, strip_of_trimmed hs]
  exact ⟨rfl, hstart.ne_nil, hsemi, hstart, hfree⟩

theorem Filled.validate {prompt sql : List Char} {t : Template} {ns : List (List Char)}
    (h : Filled u prompt sql t ns) : validate u sql = .ok sql := by
  have hsound := templates_sound t h.template
  have hfits : Fits u t.first t.after ns :=
    ⟨hsound.joined, hsound.harmless, fun n hn => (h.numerals n hn).1, h.length⟩
  have hselect : "SELECT".toList <+: sql := by
    rw [h.eq]
    exact hsound.select.trans (prefix_fillFrom ..)
  rw [h.eq, Template.fill]
  rw [h.eq, Template.fill] at hselect
  refine validate_self ⟨?_, ?_⟩ hfits.semicolon (startsSelect_of_initial hselect) hfits.keywordFree
  · obtain ⟨rest, hrest⟩ := hselect
    rw [← hrest]
    rfl
  · have hlast := hfits.last
    cases hc : (fillFrom t.first t.after ns).getLast? with
    | none => rfl
    | some c =>
      rw [hc] at hlast
      exact hlast

theorem gaps_le : ∀ t ∈ templates, t.after.length ≤ 2 := by decide +kernel

/-- The statement for a question is accepted, and nothing of the question is in it but a numeral or two. -/
theorem patterns_safe (u : Unicode) (prompt : List Char) :
    validate u (patternsToSql u prompt) = .ok (patternsToSql u prompt) ∧
      ∃ t ∈ templates, ∃ ns, patternsToSql u prompt = t.fill ns ∧ ns.length = t.after.length ∧ ns.length ≤ 2 ∧
        ∀ n ∈ ns, IsNumeral u n ∧ n <:+: prompt := by
  obtain ⟨t, ns, h⟩ := patternsToSql_filled u prompt
  exact ⟨h.validate, t, h.template, ns, h.eq, h.length, h.length ▸ gaps_le t h.template, h.numerals⟩

example : ((nlComparisons .ascii).search Unicode.ascii.isWord "between 10 and 20.5".toList).map (fun m =>
    ["1", "2", "3"].map m.group) = some (["between", "10", "20.5"].map String.toList) := by decide +kernel

end HtapStack.Query
