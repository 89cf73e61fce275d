import Mathlib.Data.List.DropRight
/-!
# Python strings

The part of Python's `str` that the programs here use, on lists of characters.
White space is few enough to list. What else depends on the Unicode database
(`Unicode`) is a parameter, with the few facts about it that matter.
-/

namespace HtapStack.Py

/-- `str.isspace` of one character, which is also the `\s` of `re`. -/
def isSpace (c : Char) : Bool :=
  let n := c.toNat
  (9 ≤ n && n ≤ 13) || (28 ≤ n && n ≤ 32) || n == 0x85 || n == 0xa0 || n == 0x1680 ||
    (0x2000 ≤ n && n ≤ 0x200a) || n == 0x2028 || n == 0x2029 || n == 0x202f || n == 0x205f || n == 0x3000

/-- The maximal runs of characters that satisfy `p`, in order. -/
def runs (p : Char → Bool) : List Char → List (List Char)
  | [] => []
  | [c] => if p c then [[c]] else []
  | c :: d :: cs =>
    if p c then
      if p d then
        match runs p (d :: cs) with
        | r :: rs => (c :: r) :: rs
        | [] => [[c]]
      else [c] :: runs p (d :: cs)
    else runs p (d :: cs)

/-- `s.split()`. -/
def split (s : List Char) : List (List Char) := runs (fun c => !isSpace c) s

/-- `sep.join(xs)`. -/
def join (sep : List Char) (xs : List (List Char)) : List Char := sep.intercalate xs

/-- `s.strip()`. -/
def strip (s : List Char) : List Char := (s.dropWhile isSpace).rdropWhile isSpace

/-- `s.rstrip(c)`. -/
def rstrip (s : List Char) (c : Char) : List Char := s.rdropWhile (· == c)

/-! ## Case and character classes -/

/-- The letters beyond ASCII that `re.IGNORECASE` takes for ASCII ones. -/
def foreignLetters : List Char := ['\u0131', '\u0130', '\u017f', '\u212a']

/-- A character as `re.IGNORECASE` compares it with an ASCII one. -/
def fold (c : Char) : Char :=
  if c = '\u0131' ∨ c = '\u0130' then 'i'
  else if c = '\u017f' then 's'
  else if c = '\u212a' then 'k'
  else c.toLower

def foldAll (s : List Char) : List Char := s.map fold

/-- `str.lower`, but for letters beyond ASCII that stay beyond it. -/
def lowerChar (c : Char) : List Char :=
  if c = '\u0130' then ['i', '\u0307'] else if c = '\u212a' then ['k'] else [c.toLower]

def lower (s : List Char) : List Char := s.flatMap lowerChar

/-- The `\w`, the `\d` with the digit's value, and the `str.upper` of one character. -/
structure Unicode where
  isWord : Char → Bool
  digit : Char → Option Nat
  upper : Char → List Char
  word_ascii : ∀ c, c.toNat < 128 → isWord c = (c.isAlphanum || c == '_')
  word_foreign : ∀ c ∈ foreignLetters, isWord c = true
  word_space : ∀ c, isSpace c = true → isWord c = false
  word_digit : ∀ c, (digit c).isSome = true → isWord c = true
  digit_ascii : ∀ c, c.toNat < 128 → digit c = if c.isDigit then some (c.toNat - 48) else none
  digit_foreign : ∀ c ∈ foreignLetters, digit c = none
  upper_ascii : ∀ c, c.toNat < 128 → upper c = [c.toUpper]
  upper_space : ∀ c, isSpace c = true → upper c = [c]

theorem mem_foreignLetters {c : Char} :
    c ∈ foreignLetters ↔ c = '\u0131' ∨ c = '\u0130' ∨ c = '\u017f' ∨ c = '\u212a' := by
  simp [foreignLetters]

theorem isDigit_iff (c : Char) : c.isDigit = true ↔ 48 ≤ c.toNat ∧ c.toNat ≤ 57 :=
  Char.isDigit_iff_toNat

theorem isUpper_iff (c : Char) : c.isUpper = true ↔ 65 ≤ c.toNat ∧ c.toNat ≤ 90 :=
  decide_eq_true_iff

theorem isLower_iff (c : Char) : c.isLower = true ↔ 97 ≤ c.toNat ∧ c.toNat ≤ 122 := by
  refine Bool.and_eq_true_iff.trans ?_
  exact and_congr decide_eq_true_iff decide_eq_true_iff

theorem isAlpha_iff (c : Char) :
    c.isAlpha = true ↔ 65 ≤ c.toNat ∧ c.toNat ≤ 90 ∨ 97 ≤ c.toNat ∧ c.toNat ≤ 122 := by
  rw [← isUpper_iff, ← isLower_iff]
  exact Bool.or_eq_true_iff

theorem isAlphanum_iff (c : Char) : c.isAlphanum = true ↔
    48 ≤ c.toNat ∧ c.toNat ≤ 57 ∨ 65 ≤ c.toNat ∧ c.toNat ≤ 90 ∨ 97 ≤ c.toNat ∧ c.toNat ≤ 122 := by
  rw [← isAlpha_iff, ← isDigit_iff, or_comm]
  exact Bool.or_eq_true_iff

theorem isAlphanum_of_isSpace {c : Char} (h : isSpace c = true) : c.isAlphanum = false := by
  rw [← Bool.not_eq_true, isAlphanum_iff]
  simp only [isSpace, Bool.or_eq_true, Bool.and_eq_true, decide_eq_true_eq, beq_iff_eq] at h
  omega

theorem toUpper_of_isSpace {c : Char} (h : isSpace c = true) : c.toUpper = c := by
  unfold Char.toUpper
  split
  · rename_i hc
    have hn := isAlphanum_of_isSpace h
    rw [← Bool.not_eq_true, isAlphanum_iff] at hn
    have hl : 97 ≤ c.toNat ∧ c.toNat ≤ 122 := hc
    omega
  · rfl

/-- A database of ASCII and no more, but for the letters that `re` takes for ASCII ones. -/
def Unicode.ascii : Unicode where
  isWord c := c.isAlphanum || c == '_' || foreignLetters.contains c
  digit c := if c.isDigit then some (c.toNat - 48) else none
  upper c := [c.toUpper]
  word_ascii c h := by
    have hc : foreignLetters.contains c = false := by
      rw [← Bool.not_eq_true, List.contains_iff_mem, mem_foreignLetters]
      rintro (rfl | rfl | rfl | rfl) <;> revert h <;> decide
    rw [hc, Bool.or_false]
  word_foreign c h := by rw [List.contains_iff_mem.2 h, Bool.or_true]
  word_space c h := by
    simp [isAlphanum_of_isSpace h, foreignLetters]
    refine ⟨?_, ?_, ?_, ?_, ?_⟩ <;> rintro rfl <;> revert h <;> decide
  word_digit c h := by
    split at h
    · simp [Char.isAlphanum, *]
    · cases h
  digit_ascii c _ := rfl
  digit_foreign c h := by
    rcases mem_foreignLetters.1 h with rfl | rfl | rfl | rfl <;> decide
  upper_ascii c _ := rfl
  upper_space c h := by rw [toUpper_of_isSpace h]
/-! ## Folding -/

theorem fold_foreign {c : Char} (h : c ∈ foreignLetters) : fold c = 'i' ∨ fold c = 's' ∨ fold c = 'k' := by
  rcases mem_foreignLetters.1 h with rfl | rfl | rfl | rfl <;> decide

theorem fold_eq_toLower {c : Char} (h : c ∉ foreignLetters) : fold c = c.toLower := by
  simp only [mem_foreignLetters, not_or] at h
  simp [fold, h]

theorem toNat_toLower (c : Char) :
    c.toLower.toNat = if 65 ≤ c.toNat ∧ c.toNat ≤ 90 then c.toNat + 32 else c.toNat := by
  unfold Char.toLower
  split <;> rename_i h <;>
    simp only [ge_iff_le, UInt32.le_iff_toNat_le, Char.reduceVal, UInt32.reduceToNat, Char.toNat_val] at h
  · have hadd : (c.val + ('a'.val - 'A'.val)).toNat = c.toNat + 32 := by
      rw [UInt32.toNat_add, Char.toNat_val]
      show (c.toNat + 32) % 2 ^ 32 = c.toNat + 32
      omega
    rw [if_pos h]
    exact hadd
  · rw [if_neg h]

/-- What compares equal to an ASCII letter, digit or underscore is a word character. -/
theorem Unicode.isWord_of_fold (u : Unicode) {c : Char} (h : (fold c).isAlphanum = true ∨ fold c = '_') :
    u.isWord c = true := by
  by_cases hf : c ∈ foreignLetters
  · exact u.word_foreign c hf
  · rw [fold_eq_toLower hf] at h
    have hc : c.isAlphanum = true ∨ c = '_' := by
      rcases h with h | h
      · rw [isAlphanum_iff, toNat_toLower] at h
        rw [isAlphanum_iff]
        grind
      · have h := congrArg Char.toNat h
        rw [toNat_toLower] at h
        refine .inr (Char.toNat_inj.1 ?_)
        grind
    rw [u.word_ascii c]
    · simpa using hc
    · rcases hc with hc | rfl
      · rw [isAlphanum_iff] at hc
        omega
      · decide

/-- Case apart, a character of ASCII that is not `i`, `k` or `s` is itself or its capital. -/
theorem fold_eq {c l : Char} (h : fold c = l) (hl : l ≠ 'i' ∧ l ≠ 's' ∧ l ≠ 'k') :
    c = l ∨ 65 ≤ c.toNat ∧ c.toNat ≤ 90 ∧ c.toNat + 32 = l.toNat := by
  have hf : c ∉ foreignLetters := fun hf => by
    rcases fold_foreign hf with h' | h' | h'
    · exact hl.1 (h.symm.trans h')
    · exact hl.2.1 (h.symm.trans h')
    · exact hl.2.2 (h.symm.trans h')
  rw [fold_eq_toLower hf] at h
  have h := congrArg Char.toNat h
  rw [toNat_toLower] at h
  split at h
  · rename_i hc
    exact .inr ⟨hc.1, hc.2, h⟩
  · exact .inl (Char.toNat_inj.1 h)

theorem Unicode.digit_of_isDigit (u : Unicode) {c : Char} (h : c.isDigit = true) :
    u.digit c = some (c.toNat - 48) := by
  have hc := (isDigit_iff c).1 h
  rw [u.digit_ascii c (by omega), if_pos h]

theorem Unicode.digit_isSome (u : Unicode) {c : Char} (h : c.isDigit = true) : (u.digit c).isSome = true := by
  rw [u.digit_of_isDigit h]
  rfl

/-- A digit does not compare equal to a letter. -/
theorem Unicode.isAlpha_of_digit (u : Unicode) {c : Char} (h : (u.digit c).isSome = true) : c.isAlpha = false := by
  rw [← Bool.not_eq_true, isAlpha_iff]
  intro hc
  rw [u.digit_ascii c (by omega)] at h
  split at h
  · rename_i hd
    rw [isDigit_iff] at hd
    omega
  · cases h

theorem Unicode.isAlpha_fold_of_digit (u : Unicode) {c : Char} (h : (u.digit c).isSome = true) :
    (fold c).isAlpha = false := by
  have hf : c ∉ foreignLetters := fun hf => by
    rw [u.digit_foreign c hf] at h
    cases h
  have hc := u.isAlpha_of_digit h
  rw [← Bool.not_eq_true, isAlpha_iff] at hc
  rw [fold_eq_toLower hf, ← Bool.not_eq_true, isAlpha_iff, toNat_toLower]
  split <;> omega

/-! ## Stripping -/

/-- There is nothing to strip. -/
def Trimmed (s : List Char) : Prop := s.head?.any isSpace = false ∧ s.getLast?.any isSpace = false

theorem head_dropWhile (p : Char → Bool) (s : List Char) : (s.dropWhile p).head?.any p = false := by
  have h := List.head?_dropWhile_not p s
  cases hd : s.dropWhile p with
  | nil => rfl
  | cons c t =>
    rw [hd] at h
    exact h

theorem last_rdropWhile (p : Char → Bool) (s : List Char) : (s.rdropWhile p).getLast?.any p = false := by
  rw [List.rdropWhile, List.getLast?_reverse]
  exact head_dropWhile p _

theorem head_of_initial {p : Char → Bool} {t s : List Char} (ht : t <+: s) (hs : s.head?.any p = false) :
    t.head?.any p = false := by
  obtain ⟨r, rfl⟩ := ht
  cases t with
  | nil => rfl
  | cons c t => exact hs

theorem trimmed_strip (s : List Char) : Trimmed (strip s) :=
  ⟨head_of_initial (List.rdropWhile_prefix isSpace _) (head_dropWhile isSpace s), last_rdropWhile isSpace _⟩

theorem strip_of_trimmed {s : List Char} (h : Trimmed s) : strip s = s := by
  obtain ⟨hh, hl⟩ := h
  unfold strip
  have : s.dropWhile isSpace = s := by
    cases s with
    | nil => rfl
    | cons c s => exact List.dropWhile_cons_of_neg (by simpa using hh)
  rw [this, List.rdropWhile_eq_self_iff]
  intro hne
  rw [List.getLast?_eq_some_getLast hne] at hl
  simpa using hl

theorem mem_of_mem_strip {s : List Char} {c : Char} (h : c ∈ strip s) : c ∈ s :=
  (List.dropWhile_sublist _).subset ((List.rdropWhile_prefix isSpace _).subset h)

theorem Trimmed.nil_of_spaces {s sp : List Char} (h : Trimmed (s ++ sp)) (hsp : ∀ c ∈ sp, isSpace c = true) :
    sp = [] := by
  by_contra hne
  have hlast := h.2
  rw [List.getLast?_append_of_ne_nil _ hne, List.getLast?_eq_some_getLast hne] at hlast
  have := hsp _ (List.getLast_mem hne)
  simp [this] at hlast

/-- Stripping takes white space off both ends. -/
theorem strip_spec (s : List Char) : ∃ a b, s = a ++ (strip s ++ b) ∧ (∀ c ∈ a, isSpace c = true) ∧
    ∀ c ∈ b, isSpace c = true := by
  refine ⟨s.takeWhile isSpace, (s.dropWhile isSpace).rtakeWhile isSpace, ?_, ?_, ?_⟩
  · unfold strip
    rw [List.rdropWhile_append_rtakeWhile, List.takeWhile_append_dropWhile]
  · exact fun c hc => List.mem_takeWhile_imp hc
  · exact fun c hc => List.mem_rtakeWhile_imp hc

end HtapStack.Py
