import HtapStack.Lib.PyStr
/-!
# Regular expressions

The part of Python's `re` that needs no nested repetition: a repetition is of one
class of characters and greedy. `ends` gives a pattern's matches at one place in
the order in which backtracking tries them, so the first is the one that `re`
takes; `find` is the leftmost, and `cuts` all of them, from left to right.

What comes before the place matters to `\b` only, and is given by its last
character. `find_some`, `find_none` and `cuts_induction` are what a proof about
`search`, `sub` or `split` needs.
-/

namespace HtapStack.Py

inductive Re where
  | empty
  | one (p : Char → Bool)
  /-- `p*`, for one class of characters. -/
  | many (p : Char → Bool)
  /-- `\b`. -/
  | boundary
  /-- `$`. -/
  | atEnd
  | seq (r s : Re)
  | alt (r s : Re)
  | group (name : String) (r : Re)

structure Match where
  text : List Char
  rest : List Char
  groups : List (String × List Char)
  deriving DecidableEq, Repr

/-- `m.group(name)`. -/
def Match.group (m : Match) (name : String) : List Char := (m.groups.lookup name).getD []

/-- The last character of a text, after `prev`. -/
def last (prev : Option Char) (s : List Char) : Option Char := s.foldl (fun _ c => some c) prev

/-- The ways to take characters of the class off the front, the longest first. -/
def takes (p : Char → Bool) : List Char → List (List Char × List Char)
  | [] => [([], [])]
  | c :: s => if p c then (takes p s).map (fun x => (c :: x.1, x.2)) ++ [([], c :: s)] else [([], c :: s)]

namespace Re

/-- The literal characters of a text, case apart. -/
def text : List Char → Re
  | [] => .empty
  | c :: s => .seq (.one fun d => fold d == fold c) (text s)

/-- `p+`. -/
def many1 (p : Char → Bool) : Re := .seq (.one p) (.many p)

/-- `(r|s|…)`. -/
def anyOf : List Re → Re
  | [] => .one fun _ => false
  | r :: rs => .alt r (anyOf rs)

/-- `r?`. -/
def opt (r : Re) : Re := .alt r .empty

variable (isWord : Char → Bool)

/-- Whether there is a word character on one side only. -/
def isBoundary (prev : Option Char) (s : List Char) : Bool := prev.any isWord != s.head?.any isWord

def ends : Re → Option Char → List Char → List Match
  | .empty, _, s => [⟨[], s, []⟩]
  | .one p, _, s =>
    match s with
    | [] => []
    | c :: s => if p c then [⟨[c], s, []⟩] else []
  | .many p, _, s => (takes p s).map fun x => ⟨x.1, x.2, []⟩
  | .boundary, prev, s => if isBoundary isWord prev s then [⟨[], s, []⟩] else []
  | .atEnd, _, s => if s = [] ∨ s = ['\n'] then [⟨[], s, []⟩] else []
  | .seq r r', prev, s =>
    (r.ends prev s).flatMap fun m =>
      (r'.ends (last prev m.text) m.rest).map fun m' => ⟨m.text ++ m'.text, m'.rest, m.groups ++ m'.groups⟩
  | .alt r r', prev, s => r.ends prev s ++ r'.ends prev s
  | .group name r, prev, s => (r.ends prev s).map fun m => { m with groups := (name, m.text) :: m.groups }

/-- The leftmost match, and what comes before it. -/
def find (r : Re) : Option Char → List Char → Option (List Char × Match)
  | prev, [] => (r.ends isWord prev []).head?.map fun m => ([], m)
  | prev, c :: s =>
    match (r.ends isWord prev (c :: s)).head? with
    | some m => some ([], m)
    | none => (find r (some c) s).map fun x => (c :: x.1, x.2)

/-- All matches with what comes before each, and what comes after the last, for a
pattern that matches no empty text. A text has no more of them than characters. -/
def cuts (r : Re) : Nat → Option Char → List Char → List (List Char × Match) × List Char
  | 0, _, s => ([], s)
  | n + 1, prev, s =>
    match r.find isWord prev s with
    | none => ([], s)
    | some (p, m) =>
      let (hits, tail) := cuts r n (last prev (p ++ m.text)) m.rest
      ((p, m) :: hits, tail)

/-- `r.search(s)`. -/
def search (r : Re) (s : List Char) : Option Match := (r.find isWord none s).map (·.2)

/-- `r.sub(repl, s)`. -/
def sub (r : Re) (repl : Match → List Char) (s : List Char) : List Char :=
  let (hits, tail) := r.cuts isWord s.length none s
  hits.flatMap (fun x => x.1 ++ repl x.2) ++ tail

/-- `r.split(s)`, for a pattern without groups. -/
def split (r : Re) (s : List Char) : List (List Char) :=
  let (hits, tail) := r.cuts isWord s.length none s
  hits.map (·.1) ++ [tail]

end Re

/-! ## The last character -/

@[simp] theorem last_nil (prev : Option Char) : last prev [] = prev := rfl

@[simp] theorem last_cons (prev : Option Char) (c : Char) (s : List Char) : last prev (c :: s) = last (some c) s := rfl

theorem last_append (prev : Option Char) (s t : List Char) : last prev (s ++ t) = last (last prev s) t :=
  List.foldl_append ..

/-! ## What the matches are -/

theorem mem_takes {p : Char → Bool} {s : List Char} {x : List Char × List Char} :
    x ∈ takes p s ↔ x.1 ++ x.2 = s ∧ ∀ c ∈ x.1, p c = true := by
  obtain ⟨t, rest⟩ := x
  induction s generalizing t rest with
  | nil => cases t <;> simp [takes]
  | cons c s ih =>
    unfold takes
    cases t with
    | nil => split <;> simp
    | cons d t =>
      split
      · simp only [List.mem_append, List.mem_map, Prod.mk.injEq, List.cons.injEq, reduceCtorEq, false_and,
          Prod.exists, List.cons_append, List.mem_cons, forall_eq_or_imp]
        grind
      · grind

namespace Re

variable {isWord : Char → Bool} {r r' : Re} {prev : Option Char} {s : List Char} {m : Match}

theorem mem_empty : m ∈ Re.empty.ends isWord prev s ↔ m = ⟨[], s, []⟩ := by
  simp [ends]

theorem mem_one {p : Char → Bool} :
    m ∈ (Re.one p).ends isWord prev s ↔ ∃ c rest, s = c :: rest ∧ p c = true ∧ m = ⟨[c], rest, []⟩ := by
  cases s with
  | nil => simp [ends]
  | cons c s =>
    simp only [ends]
    split <;> grind

theorem mem_many {p : Char → Bool} : m ∈ (Re.many p).ends isWord prev s ↔
    ∃ t rest, s = t ++ rest ∧ (∀ c ∈ t, p c = true) ∧ m = ⟨t, rest, []⟩ := by
  simp only [ends, List.mem_map, mem_takes, Prod.exists]
  grind

theorem mem_boundary :
    m ∈ Re.boundary.ends isWord prev s ↔ isBoundary isWord prev s = true ∧ m = ⟨[], s, []⟩ := by
  simp only [ends]
  split <;> simp_all

theorem mem_atEnd : m ∈ Re.atEnd.ends isWord prev s ↔ (s = [] ∨ s = ['\n']) ∧ m = ⟨[], s, []⟩ := by
  simp only [ends]
  split <;> simp_all

theorem mem_seq : m ∈ (r.seq r').ends isWord prev s ↔
    ∃ m₁ ∈ r.ends isWord prev s, ∃ m₂ ∈ r'.ends isWord (last prev m₁.text) m₁.rest,
      m = ⟨m₁.text ++ m₂.text, m₂.rest, m₁.groups ++ m₂.groups⟩ := by
  simp only [ends, List.mem_flatMap, List.mem_map]
  grind

theorem mem_alt : m ∈ (r.alt r').ends isWord prev s ↔ m ∈ r.ends isWord prev s ∨ m ∈ r'.ends isWord prev s :=
  List.mem_append

theorem mem_group {name : String} : m ∈ (r.group name).ends isWord prev s ↔
    ∃ m' ∈ r.ends isWord prev s, m = ⟨m'.text, m'.rest, (name, m'.text) :: m'.groups⟩ := by
  simp only [ends, List.mem_map]
  grind

theorem mem_many1 {p : Char → Bool} : m ∈ (many1 p).ends isWord prev s ↔
    ∃ t rest, s = t ++ rest ∧ t ≠ [] ∧ (∀ c ∈ t, p c = true) ∧ m = ⟨t, rest, []⟩ := by
  simp only [many1, mem_seq, mem_one, mem_many]
  constructor
  · rintro ⟨_, ⟨c, s, rfl, hc, rfl⟩, _, ⟨t, rest, rfl, ht, rfl⟩, rfl⟩
    exact ⟨c :: t, rest, rfl, nofun, List.forall_mem_cons.2 ⟨hc, ht⟩, rfl⟩
  · rintro ⟨t, rest, rfl, hne, ht, rfl⟩
    cases t with
    | nil => exact absurd rfl hne
    | cons c t =>
      obtain ⟨hc, ht⟩ := List.forall_mem_cons.1 ht
      exact ⟨_, ⟨c, t ++ rest, rfl, hc, rfl⟩, _, ⟨t, rest, rfl, ht, rfl⟩, rfl⟩

theorem mem_text {t : List Char} : m ∈ (text t).ends isWord prev s ↔
    ∃ t' rest, s = t' ++ rest ∧ foldAll t' = foldAll t ∧ m = ⟨t', rest, []⟩ := by
  induction t generalizing prev s m with
  | nil =>
    simp only [text, mem_empty, foldAll, List.map_nil, List.map_eq_nil_iff]
    exact ⟨fun h => ⟨[], s, rfl, rfl, h⟩, fun ⟨_, _, hs, ht, hm⟩ => by rw [hm, hs, ht]; rfl⟩
  | cons c t ih =>
    simp only [text, mem_seq, mem_one, ih, beq_iff_eq]
    constructor
    · rintro ⟨_, ⟨d, s, rfl, hd, rfl⟩, _, ⟨t', rest, rfl, ht, rfl⟩, rfl⟩
      exact ⟨d :: t', rest, rfl, congrArg₂ List.cons hd ht, rfl⟩
    · rintro ⟨t', rest, rfl, ht, rfl⟩
      cases t' with
      | nil => cases ht
      | cons d t' =>
        obtain ⟨hd, ht⟩ := List.cons.inj ht
        exact ⟨_, ⟨d, t' ++ rest, rfl, hd, rfl⟩, _, ⟨t', rest, rfl, ht, rfl⟩, rfl⟩

theorem mem_anyOf {rs : List Re} :
    m ∈ (anyOf rs).ends isWord prev s ↔ ∃ r ∈ rs, m ∈ r.ends isWord prev s := by
  induction rs with
  | nil => simp [anyOf, mem_one]
  | cons r rs ih => simp [anyOf, mem_alt, ih]

theorem mem_anyOf_text {ts : List (List Char)} : m ∈ (anyOf (ts.map .text)).ends isWord prev s ↔
    ∃ t' rest, s = t' ++ rest ∧ (∃ t ∈ ts, foldAll t' = foldAll t) ∧ m = ⟨t', rest, []⟩ := by
  rw [mem_anyOf]
  constructor
  · rintro ⟨r, hr, hm⟩
    obtain ⟨t, ht, rfl⟩ := List.mem_map.1 hr
    obtain ⟨t', rest, hs, htt, rfl⟩ := mem_text.1 hm
    exact ⟨t', rest, hs, ⟨t, ht, htt⟩, rfl⟩
  · rintro ⟨t', rest, hs, ⟨t, ht, htt⟩, rfl⟩
    exact ⟨_, List.mem_map_of_mem ht, mem_text.2 ⟨t', rest, hs, htt, rfl⟩⟩

theorem mem_opt_text {t : List Char} : m ∈ (opt (text t)).ends isWord prev s ↔
    ∃ t' rest, s = t' ++ rest ∧ (t' = [] ∨ foldAll t' = foldAll t) ∧ m = ⟨t', rest, []⟩ := by
  rw [opt, mem_alt, mem_text, mem_empty]
  constructor
  · rintro (⟨t', rest, hs, ht, rfl⟩ | rfl)
    · exact ⟨t', rest, hs, .inr ht, rfl⟩
    · exact ⟨[], s, rfl, .inl rfl, rfl⟩
  · rintro ⟨t', rest, hs, rfl | ht, rfl⟩
    · exact .inr (by rw [hs]; rfl)
    · exact .inl ⟨t', rest, hs, ht, rfl⟩

theorem seq_ne_nil (hm : m ∈ r.ends isWord prev s) (h : r'.ends isWord (last prev m.text) m.rest ≠ []) :
    (r.seq r').ends isWord prev s ≠ [] := by
  obtain ⟨m', hm'⟩ := List.exists_mem_of_ne_nil _ h
  exact List.ne_nil_of_mem (mem_seq.2 ⟨m, hm, m', hm', rfl⟩)

theorem many1_mem {p : Char → Bool} {t rest : List Char} (hne : t ≠ []) (ht : ∀ c ∈ t, p c = true) :
    ⟨t, rest, []⟩ ∈ (many1 p).ends isWord prev (t ++ rest) :=
  mem_many1.2 ⟨t, rest, rfl, hne, ht, rfl⟩

theorem text_append_rest (h : m ∈ r.ends isWord prev s) : m.text ++ m.rest = s := by
  induction r generalizing prev s m with
  | empty => rw [mem_empty.1 h]; rfl
  | one p => obtain ⟨c, rest, rfl, -, rfl⟩ := mem_one.1 h; rfl
  | many p => obtain ⟨t, rest, rfl, -, rfl⟩ := mem_many.1 h; rfl
  | boundary => rw [(mem_boundary.1 h).2]; rfl
  | atEnd => rw [(mem_atEnd.1 h).2]; rfl
  | seq r r' ih ih' =>
    obtain ⟨m₁, h₁, m₂, h₂, rfl⟩ := mem_seq.1 h
    rw [List.append_assoc, ih' h₂, ih h₁]
  | alt r r' ih ih' => exact (mem_alt.1 h).elim ih ih'
  | group name r ih =>
    obtain ⟨m', h', rfl⟩ := mem_group.1 h
    exact (ih h' : m'.text ++ m'.rest = s)

/-! ## Searching -/

/-- The leftmost match: no place before it has one. -/
theorem find_some {p : List Char} (h : r.find isWord prev s = some (p, m)) :
    s = p ++ (m.text ++ m.rest) ∧ m ∈ r.ends isWord (last prev p) (m.text ++ m.rest) ∧
      ∀ a b, p = a ++ b → b ≠ [] → r.ends isWord (last prev a) (b ++ (m.text ++ m.rest)) = [] := by
  induction s generalizing prev p with
  | nil =>
    simp only [find, Option.map_eq_some_iff, Prod.mk.injEq] at h
    obtain ⟨m', hm, rfl, rfl⟩ := h
    have hm := List.mem_of_mem_head? hm
    rw [text_append_rest hm]
    refine ⟨rfl, hm, fun a b hab hb => ?_⟩
    exact absurd (List.append_eq_nil_iff.1 hab.symm).2 hb
  | cons c s ih =>
    unfold find at h
    split at h
    · rename_i m' hm
      cases h
      have hm := List.mem_of_mem_head? hm
      rw [text_append_rest hm]
      refine ⟨rfl, hm, fun a b hab hb => ?_⟩
      exact absurd (List.append_eq_nil_iff.1 hab.symm).2 hb
    · rename_i hnone
      obtain ⟨⟨p', m'⟩, hf, he⟩ := Option.map_eq_some_iff.1 h
      cases he
      obtain ⟨hs, hm, hleft⟩ := ih hf
      refine ⟨congrArg _ hs, hm, fun a b hab hb => ?_⟩
      cases a with
      | nil =>
        obtain rfl : c :: p' = b := hab
        rw [List.cons_append, ← hs]
        exact List.head?_eq_none_iff.1 hnone
      | cons d a =>
        obtain ⟨rfl, hp⟩ := List.cons.inj hab
        exact hleft a b hp hb

theorem find_eq_none : r.find isWord prev s = none ↔ ∀ a b, s = a ++ b → r.ends isWord (last prev a) b = [] := by
  induction s generalizing prev with
  | nil =>
    simp only [find, Option.map_eq_none_iff, List.head?_eq_none_iff]
    refine ⟨fun h a b hab => ?_, fun h => h [] [] rfl⟩
    obtain ⟨rfl, rfl⟩ := List.append_eq_nil_iff.1 hab.symm
    exact h
  | cons c s ih =>
    unfold find
    split
    · rename_i m hm
      refine iff_of_false nofun fun h => ?_
      have h := h [] _ rfl
      rw [last_nil] at h
      rw [h] at hm
      cases hm
    · rename_i hnone
      rw [Option.map_eq_none_iff, ih]
      constructor
      · intro h a b hab
        cases a with
        | nil =>
          obtain rfl : c :: s = b := hab
          exact List.head?_eq_none_iff.1 hnone
        | cons d a =>
          obtain ⟨rfl, hs⟩ := List.cons.inj hab
          exact h a b hs
      · exact fun h a b hab => h (c :: a) b (congrArg _ hab)

theorem search_eq_none : r.search isWord s = none ↔ ∀ a b, s = a ++ b → r.ends isWord (last none a) b = [] := by
  rw [search, Option.map_eq_none_iff, find_eq_none]

theorem sub_of_find_none {repl : Match → List Char} (h : r.find isWord none s = none) : r.sub isWord repl s = s := by
  unfold sub
  cases hn : s.length with
  | zero => rfl
  | succ n => simp only [cuts, h]; rfl

/-- A leftmost match that goes to the end is the only one. -/
theorem sub_of_find_some {repl : Match → List Char} {p : List Char} (h : r.find isWord none s = some (p, m))
    (hrest : m.rest = []) (hempty : ∀ prev, r.ends isWord prev [] = []) :
    r.sub isWord repl s = p ++ repl m := by
  have hnil : ∀ n prev, r.cuts isWord n prev [] = ([], []) := by
    intro n prev
    cases n with
    | zero => rfl
    | succ n => simp only [cuts, find, hempty]; rfl
  unfold sub
  cases hn : s.length with
  | zero =>
    rw [List.length_eq_zero_iff.1 hn, find, hempty] at h
    cases h
  | succ n => simp [cuts, h, hrest, hnil]

/-- What holds of a text without a cut, and goes from the text after a match to
the text up to and with it, holds of `cuts`. -/
theorem cuts_induction {motive : Option Char → List Char → List (List Char × Match) × List Char → Prop}
    (done : ∀ prev s, motive prev s ([], s))
    (hit : ∀ prev p m cut, m ∈ r.ends isWord (last prev p) (m.text ++ m.rest) →
      motive (last prev (p ++ m.text)) m.rest cut →
        motive prev (p ++ (m.text ++ m.rest)) ((p, m) :: cut.1, cut.2))
    (n : Nat) (prev : Option Char) (s : List Char) : motive prev s (r.cuts isWord n prev s) := by
  induction n generalizing prev s with
  | zero => exact done prev s
  | succ n ih =>
    unfold cuts
    split
    · exact done prev s
    · rename_i p m hf
      obtain ⟨rfl, hm, -⟩ := find_some hf
      exact hit prev p m _ hm (ih ..)

/-- What stands in a text after a substitution stood there before, or comes from
the replacements. -/
theorem mem_sub {repl : Match → List Char} (extra : List Char)
    (hrepl : ∀ prev s m, m ∈ r.ends isWord prev s → ∀ c ∈ repl m, c ∈ m.text ∨ c ∈ extra) {c : Char}
    (h : c ∈ r.sub isWord repl s) : c ∈ s ∨ c ∈ extra := by
  unfold sub at h
  revert h
  refine cuts_induction (motive := fun _ s cut =>
    c ∈ cut.1.flatMap (fun x => x.1 ++ repl x.2) ++ cut.2 → c ∈ s ∨ c ∈ extra) ?_ ?_ _ none s
  · exact fun _ s h => .inl h
  · intro _ p m cut hm ih h
    simp only [List.flatMap_cons, List.append_assoc, List.mem_append] at h ih ⊢
    rcases h with h | h | h
    · exact .inl (.inl h)
    · exact (hrepl _ _ m hm c h).imp_left fun h => .inr (.inl h)
    · exact (ih h).imp_left fun h => .inr (.inr h)

/-- A text and what it becomes agree up to the first match. -/
theorem sub_agrees (isWord : Char → Bool) (r : Re) (repl : Match → List Char) (s : List Char) : r.sub isWord repl s = s ∨
    ∃ p m t prev, s = p ++ (m.text ++ m.rest) ∧ m ∈ r.ends isWord prev (m.text ++ m.rest) ∧
      r.sub isWord repl s = p ++ t := by
  unfold sub
  refine cuts_induction (motive := fun _ s cut =>
    let out := cut.1.flatMap (fun x => x.1 ++ repl x.2) ++ cut.2
    out = s ∨ ∃ p m t prev, s = p ++ (m.text ++ m.rest) ∧ m ∈ r.ends isWord prev (m.text ++ m.rest) ∧
      out = p ++ t) ?_ ?_ _ none s
  · exact fun _ s => .inl rfl
  · intro prev p m cut hm _
    refine .inr ⟨p, m, repl m ++ (cut.1.flatMap (fun x => x.1 ++ repl x.2) ++ cut.2), _, rfl, hm, ?_⟩
    simp only [List.flatMap_cons, List.append_assoc]

end Re

end HtapStack.Py
