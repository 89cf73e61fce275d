import HtapStack.Lib.PyFloat
/-!
# JavaScript strings

What the frontend uses of `String` and `RegExp`, and `Number` of a string.
`number_float`: where `Number` is finite, and the text is not empty nor in another
radix, Python's `float` reads the same number.
-/

namespace HtapStack.Js

/-- The `\s` of a regular expression, which is also what `trim` takes off. -/
def isSpace (c : Char) : Bool :=
  let n := c.toNat
  (9 ≤ n && n ≤ 13) || n == 0x20 || n == 0xa0 || n == 0x1680 || (0x2000 ≤ n && n ≤ 0x200a) || n == 0x2028 ||
    n == 0x2029 || n == 0x202f || n == 0x205f || n == 0x3000 || n == 0xfeff

/-- What `.` does not match. -/
def isLineEnd (c : Char) : Bool := c == '\n' || c == '\r' || c == '\u2028' || c == '\u2029'

/-- `s.trim()`. -/
def trim (s : List Char) : List Char := (s.dropWhile isSpace).rdropWhile isSpace

/-- `s.split(/\s+/)`. -/
def splitSpaces (s : List Char) : List (List Char) :=
  if s.isEmpty then [[]]
  else (if s.head?.any isSpace then [[]] else []) ++ Py.runs (!isSpace ·) s ++
    (if s.getLast?.any isSpace then [[]] else [])

/-! ## A match -/

/-- `.*?` followed by `))`: what comes before the first `))`, on one line. -/
def upTo : List Char → Option (List Char)
  | [] => none
  | c :: s =>
    if [')', ')'].isPrefixOf (c :: s) then some []
    else if isLineEnd c then none
    else (upTo s).map (c :: ·)

/-- `.+?` followed by `))`. -/
def upToOne : List Char → Option (List Char)
  | [] => none
  | c :: s => if isLineEnd c then none else (upTo s).map (c :: ·)

/-- `s.match(/\(\((.+?)\)\)/)?.[1]`: at the first `((` where it matches. -/
def bracketed : List Char → Option (List Char)
  | [] => none
  | c :: s =>
    match (if ['(', '('].isPrefixOf (c :: s) then upToOne (s.drop 1) else none) with
    | some m => some m
    | none => bracketed s

section
variable {s t : List Char}

/-- What is before the first `))`, unless there is the end of a line in it. -/
theorem upTo_append (h : ¬ [')', ')'] <:+: s ++ [')']) :
    upTo (s ++ ')' :: ')' :: t) = if s.any isLineEnd then none else some s := by
  induction s with
  | nil => simp [upTo]
  | cons c s ih =>
    rw [List.cons_append, List.infix_cons_iff, not_or] at h
    have hnot : [')', ')'].isPrefixOf (c :: (s ++ ')' :: ')' :: t)) = false := by
      rw [← Bool.not_eq_true, List.isPrefixOf_iff_prefix]
      intro hp
      refine h.1 ?_
      obtain ⟨rfl, hnext⟩ := List.cons_prefix_cons.1 hp
      refine List.cons_prefix_cons.2 ⟨rfl, ?_⟩
      cases s with
      | nil => exact List.prefix_rfl
      | cons d s => simpa using hnext
    rw [List.cons_append, upTo, hnot, ih h.2, List.any_cons]
    cases isLineEnd c <;> cases s.any isLineEnd <;> rfl

theorem upToOne_append (hs : s ≠ []) (h : ¬ [')', ')'] <:+: s.tail ++ [')']) :
    upToOne (s ++ ')' :: ')' :: t) = if s.any isLineEnd then none else some s := by
  cases s with
  | nil => exact absurd rfl hs
  | cons c s =>
    rw [List.tail_cons] at h
    rw [List.cons_append, upToOne, upTo_append h, List.any_cons]
    cases isLineEnd c <;> cases s.any isLineEnd <;> rfl

theorem bracketed_eq_none (h : ¬ ['(', '('] <:+: s) : bracketed s = none := by
  induction s with
  | nil => rfl
  | cons c s ih =>
    rw [List.infix_cons_iff, not_or, ← List.isPrefixOf_iff_prefix, Bool.not_eq_true] at h
    rw [bracketed, h.1, ih h.2]
    rfl

theorem bracketed_append (h : '(' ∉ s) : bracketed (s ++ t) = bracketed t := by
  induction s with
  | nil => rfl
  | cons c s ih =>
    obtain ⟨hc, hs⟩ := not_or.1 (List.mem_cons.not.1 h)
    have hne : ('(' == c) = false := beq_false_of_ne hc
    rw [List.cons_append, bracketed, List.isPrefixOf_cons_cons, hne, ih hs]
    rfl

theorem bracketed_here : bracketed ('(' :: '(' :: s) = (upToOne s).or (bracketed ('(' :: s)) := by
  rw [bracketed, if_pos (by simp)]
  simp only [List.drop_succ_cons, List.drop_zero]
  cases upToOne s <;> rfl

/-- The first `((` is where Python's `find` finds it. -/
theorem bracketed_find {n : Nat} (h : Py.find ['(', '('] s = some n) : ∃ u, s.drop n = '(' :: '(' :: u ∧
    bracketed (s ++ t) = (upToOne (u ++ t)).or (bracketed ('(' :: (u ++ t))) := by
  induction s generalizing n with
  | nil => cases h
  | cons c s ih =>
    rw [Py.find] at h
    split at h
    · rename_i hp
      cases h
      obtain ⟨u, hu⟩ := List.isPrefixOf_iff_prefix.1 hp
      obtain ⟨rfl, rfl⟩ : '(' = c ∧ '(' :: u = s := by simpa using hu
      exact ⟨u, rfl, bracketed_here⟩
    · rename_i hp
      obtain ⟨m, hm, rfl⟩ := Option.map_eq_some_iff.1 h
      obtain ⟨u, hu, hb⟩ := ih hm
      have hpt : ['(', '('].isPrefixOf (c :: (s ++ t)) = false := by
        cases s with
        | nil => cases hm
        | cons d s => exact Bool.eq_false_iff.2 hp
      refine ⟨u, hu, ?_⟩
      rw [List.cons_append, bracketed, hpt, ← hb]
      rfl

end

/-! ## Numbers -/

def digit (c : Char) : Option Nat := if c.isDigit then some (c.toNat - 48) else none

def digits (s : List Char) : Option (List Nat) := if s.isEmpty then none else s.mapM digit

def radixDigit (radix : Nat) (c : Char) : Option Nat :=
  let n := if c.isDigit then c.toNat - 48 else if c.isAlpha then c.toLower.toNat - 87 else radix
  if n < radix then some n else none

/-- The digits after `0x`, `0o` or `0b`. -/
def inRadix (radix : Nat) (s : List Char) : Literal :=
  if s.isEmpty then .nan
  else match s.mapM (radixDigit radix) with
    | some ds => .finite false (ds.foldl (fun n d => radix * n + d) 0 : Nat)
    | none => .nan

def inDecimal (s : List Char) : Literal :=
  let (negative, s) := Decimal.signed s
  if s = "Infinity".toList then .infinite negative
  else match Decimal.read digits s with
    | some q => .finite negative q
    | none => .nan

def numberLiteral (s : List Char) : Literal :=
  match trim s with
  | [] => .finite false 0
  | '0' :: 'x' :: t | '0' :: 'X' :: t => inRadix 16 t
  | '0' :: 'o' :: t | '0' :: 'O' :: t => inRadix 8 t
  | '0' :: 'b' :: t | '0' :: 'B' :: t => inRadix 2 t
  | t => inDecimal t

/-- `Number(s)`. -/
def number {F : Type} (D : Doubles F) (s : List Char) : F := D.nearest (numberLiteral s)

/-! ## Against Python's -/

theorem mapM_mono {α β : Type} {f g : α → Option β} (h : ∀ x y, f x = some y → g x = some y) {l : List α}
    {ys : List β} (hl : l.mapM f = some ys) : l.mapM g = some ys := by
  induction l generalizing ys with
  | nil => exact hl
  | cons x l ih =>
    simp only [List.mapM_cons, Option.bind_eq_bind, Option.bind_eq_some_iff, Option.pure_def] at hl ⊢
    obtain ⟨y, hy, zs, hzs, hys⟩ := hl
    exact ⟨y, h x y hy, zs, ih hzs, hys⟩

theorem digitPart_of_digits (U : Py.Unicode) (s : List Char) (ds : List Nat) (h : digits s = some ds) :
    Py.digitPart U s = some ds := by
  unfold digits at h
  split at h
  · cases h
  · rename_i hne
    have hplain : '_' ∉ s := by
      intro hin
      rw [Py.mapM_eq_none hin rfl] at h
      cases h
    have hone : s.splitOn '_' = [s] := by
      rw [List.splitOn_eq_splitOnP]
      refine List.splitOnP_eq_singleton fun c hc => beq_false_of_ne ?_
      rintro rfl
      exact hplain hc
    have hdigit : ∀ c d, digit c = some d → U.digit c = some d := by
      intro c d hd
      unfold digit at hd
      split at hd
      · rw [U.digit_of_isDigit ‹_›, hd]
      · cases hd
    simp only [Py.digitPart, hone, List.any_cons, hne, List.any_nil, List.flatten_cons, List.flatten_nil,
      List.append_nil]
    exact mapM_mono hdigit h

theorem digits_eq_none {c : Char} (hc : c.isDigit = false) (s : List Char) (h : c ∈ s) : digits s = none := by
  unfold digits
  split
  · rfl
  · exact Py.mapM_eq_none h (by simp [digit, hc])

/-- No decimal numeral has an `n`, as the names that `float` reads all have. -/
theorem read_name {s m : List Char} (hm : 'n' ∈ m) (h : s.map Char.toLower = m) : Decimal.read digits s = none := by
  rw [← h] at hm
  obtain ⟨c, hc, hn⟩ := List.mem_map.1 hm
  have hplain : c.isDigit = false ∧ c ≠ '.' ∧ (c ≠ '+' ∧ c ≠ '-') ∧ Decimal.isExponentMark c = false := by
    have hcase : c = 'n' ∨ c = 'N' := by
      have ht := congrArg Char.toNat hn
      rw [Py.toNat_toLower] at ht
      rw [← Char.toNat_inj, ← Char.toNat_inj]
      split at ht
      · exact .inr (by simpa using ht)
      · exact .inl ht
    rcases hcase with rfl | rfl <;> decide
  exact read_eq_none (digits_eq_none hplain.1) hplain.2.1 hplain.2.2.1 hplain.2.2.2 hc

theorem dropWhile_plain {p : Char → Bool} {s : List Char} (hs : ∀ c ∈ s, p c = false) :
    (s.dropWhile p).rdropWhile p = s := by
  have hd : s.dropWhile p = s := by
    cases s with
    | nil => rfl
    | cons c s => exact List.dropWhile_cons_of_neg (by simp [hs c List.mem_cons_self])
  rw [hd, List.rdropWhile_eq_self_iff]
  intro hne
  simp [hs _ (List.getLast_mem hne)]

theorem floatLiteral_of_number {F : Type} (U : Py.Unicode) (D : Doubles F) {s : List Char} (hne : s ≠ [])
    (hs : ∀ c ∈ s, Py.isSpace c = false ∧ isSpace c = false) (hf : ∀ c ∈ s, c ∉ Py.radixMarks)
    (h : D.isFinite (number D s) = true) : Py.floatLiteral U s = some (numberLiteral s) := by
  have hdec : numberLiteral s = inDecimal s := by
    unfold numberLiteral
    rw [trim, dropWhile_plain fun c hc => (hs c hc).2]
    split
    · exact absurd rfl hne
    all_goals first
      | rfl
      | exact absurd (by decide) (hf _ (List.mem_cons_of_mem _ List.mem_cons_self))
  rw [number, hdec] at h
  rw [hdec]
  have hstrip : Py.strip s = s := dropWhile_plain fun c hc => (hs c hc).1
  unfold inDecimal at h ⊢
  simp only at h ⊢
  split at h
  · rw [D.infinite_isFinite] at h
    cases h
  · rename_i hinf
    rw [if_neg hinf]
    split at h
    · rename_i q hq
      have hname (m : List Char) (hm : 'n' ∈ m) : (Decimal.signed s).2.map Char.toLower ≠ m := by
        intro hm'
        rw [read_name hm hm'] at hq
        cases hq
      have hinf' := hname "inf".toList (by decide)
      have hinfinity := hname "infinity".toList (by decide)
      have hnan := hname "nan".toList (by decide)
      unfold Py.floatLiteral
      rw [hstrip]
      simp only
      rw [if_neg (not_or.2 ⟨hinf', hinfinity⟩), if_neg hnan, read_mono (digitPart_of_digits U) hq]
      rfl
    · rw [D.nan_isFinite] at h
      cases h

theorem number_float {F : Type} {U : Py.Unicode} {D : Doubles F} {s : List Char} {l : Literal}
    (hs : ∀ c ∈ s, Py.isSpace c = false ∧ isSpace c = false) (hl : Py.floatLiteral U s = some l)
    (h : D.isFinite (number D s) = true) : numberLiteral s = l := by
  have hne : s ≠ [] := by
    rintro rfl
    cases hl
  have hf : ∀ c ∈ s, c ∉ Py.radixMarks := by
    intro c hc hcf
    rw [Py.floatLiteral_foreign U (List.mem_cons_of_mem _ (List.mem_cons_of_mem _ hcf)) hc] at hl
    cases hl
  rw [floatLiteral_of_number U D hne hs hf h] at hl
  exact Option.some.inj hl

section
variable {p q : Char → Bool} {s : List Char}

theorem dropWhile_same (h : ∀ c ∈ s, p c = q c) : s.dropWhile p = s.dropWhile q := by
  induction s with
  | nil => rfl
  | cons c s ih =>
    obtain ⟨hc, hs⟩ := List.forall_mem_cons.1 h
    rw [List.dropWhile_cons, List.dropWhile_cons, hc, ih hs]

theorem runs_same (h : ∀ c ∈ s, p c = q c) : Py.runs p s = Py.runs q s := by
  induction s with
  | nil => rfl
  | cons c s ih =>
    obtain ⟨hc, hs⟩ := List.forall_mem_cons.1 h
    cases s with
    | nil => rw [Py.runs, Py.runs, hc]
    | cons d s => rw [Py.runs, Py.runs, hc, (List.forall_mem_cons.1 hs).1, ih hs]

end

/-- The words of a text whose white space is the same in both languages. -/
theorem splitSpaces_trim {s : List Char} (hs : ∀ c ∈ s, Py.isSpace c = isSpace c) :
    splitSpaces (trim s) = if Py.split s = [] then [[]] else Py.split s := by
  have htrim : trim s = Py.strip s := by
    have hd : s.dropWhile isSpace = s.dropWhile Py.isSpace := dropWhile_same fun c hc => (hs c hc).symm
    rw [trim, hd, Py.strip, List.rdropWhile, List.rdropWhile, dropWhile_same (q := Py.isSpace)]
    exact fun c hc => (hs c ((List.dropWhile_sublist _).subset (List.mem_reverse.1 hc))).symm
  have hmem : ∀ c ∈ Py.strip s, isSpace c = Py.isSpace c := fun c hc => (hs c (Py.mem_of_mem_strip hc)).symm
  have hruns : Py.runs (!isSpace ·) (Py.strip s) = Py.split s := by
    rw [← Py.split_strip]
    exact runs_same fun c hc => by rw [hmem c hc]
  have hends (o : Option Char) (ho : ∀ c ∈ o, c ∈ Py.strip s) (h : o.any Py.isSpace = false) :
      o.any isSpace = false := by
    cases o with
    | none => rfl
    | some c => exact (hmem c (ho c rfl)).trans h
  obtain ⟨hh, hl⟩ := Py.trimmed_strip s
  rw [htrim, splitSpaces, hruns, hends _ (fun c => List.mem_of_mem_head?) hh,
    hends _ (fun c => List.mem_of_getLast?) hl]
  by_cases hn : Py.split s = []
  · rw [if_pos hn, Py.split_strip_eq_nil hn]
    rfl
  · have hne : (Py.strip s).isEmpty = false := by
      rw [List.isEmpty_eq_false_iff]
      intro h
      rw [← Py.split_strip, h] at hn
      exact hn rfl
    rw [if_neg hn, hne]
    simp

end HtapStack.Js
