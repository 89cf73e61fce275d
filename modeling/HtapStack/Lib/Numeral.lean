import Mathlib.Algebra.Order.Field.Basic
import Mathlib.Data.Bool.AllAny
import Mathlib.Data.Nat.Digits.Defs
import Mathlib.Data.Rat.Cast.Defs
import Mathlib.Tactic.FieldSimp
/-!
# Decimal numerals

How a language reads a number: `Decimal.read`, over the digits that it takes.
What it reads is exact (`Literal`) and then rounded to a double (`Doubles`).
`read_text`: a language that takes ASCII digits reads every `Numeral` right.
-/

namespace HtapStack

/-- A number as it is written. -/
inductive Literal where
  | finite (negative : Bool) (magnitude : ℚ)
  | infinite (negative : Bool)
  | nan
  deriving DecidableEq, Repr

/-- Doubles: the nearest to what is written, and which of them are finite. -/
structure Doubles (F : Type) where
  nearest : Literal → F
  isFinite : F → Bool
  infinite_isFinite : ∀ negative, isFinite (nearest (.infinite negative)) = false
  nan_isFinite : isFinite (nearest .nan) = false

/-- Doubles without rounding. -/
def Doubles.literal : Doubles Literal where
  nearest := id
  isFinite
    | .finite _ _ => true
    | _ => false
  infinite_isFinite _ := rfl
  nan_isFinite := rfl

namespace Decimal

/-! ## Reading -/

def natural (digits : List Nat) : Nat := digits.foldl (fun n d => 10 * n + d) 0

/-- `n * 10 ^ e`. -/
def scale (n : Nat) : Int → ℚ
  | .ofNat e => ((n * 10 ^ e : Nat) : ℚ)
  | .negSucc e => mkRat n (10 ^ (e + 1))

/-- Whether there is a minus sign, and what follows the sign. -/
def signed : List Char → Bool × List Char
  | '+' :: s => (false, s)
  | '-' :: s => (true, s)
  | s => (false, s)

def isExponentMark (c : Char) : Bool := c == 'e' || c == 'E'

section
variable (digits : List Char → Option (List Nat))

/-- Digits with a point among them, or none: what they are, and how many follow the point. -/
def mantissa (s : List Char) : Option (List Nat × Nat) :=
  match s.splitOn '.' with
  | [whole] => (digits whole).map (·, 0)
  | [whole, []] => (digits whole).map (·, 0)
  | [[], fraction] => (digits fraction).map fun ds => (ds, ds.length)
  | [whole, fraction] => do
    let ds ← digits whole
    let es ← digits fraction
    some (ds ++ es, es.length)
  | _ => none

/-- The mark, if there is one, and a signed whole number after it. -/
def exponent : List Char → Option Int
  | [] => some 0
  | _ :: s => (digits (signed s).2).map fun ds => if (signed s).1 then -natural ds else natural ds

/-- An unsigned decimal numeral. -/
def read (s : List Char) : Option ℚ := do
  let (ds, after) ← mantissa digits (s.takeWhile (!isExponentMark ·))
  let e ← exponent digits (s.dropWhile (!isExponentMark ·))
  some (scale (natural ds) (e - after))

end

theorem scale_eq (n : Nat) (e : Int) : scale n e = n * 10 ^ e := by
  cases e with
  | ofNat e => simp [scale]
  | negSucc e => simp [scale, Rat.mkRat_eq_div, zpow_negSucc, div_eq_mul_inv]

end Decimal

/-! ## Numerals -/

/-- The digit's character. -/
def digitChar (d : Fin 10) : Char := Nat.digitChar d

def digitsText (ds : List (Fin 10)) : List Char := ds.map digitChar

/-- The sign's text. There may be none. -/
def signText : Option Bool → List Char
  | none => []
  | some false => ['+']
  | some true => ['-']

/-- `e5`, `E-07`. -/
structure Exponent where
  mark : Char
  sign : Option Bool
  digits : List (Fin 10)
  mark_mem : mark = 'e' ∨ mark = 'E'
  digits_ne_nil : digits ≠ []

/-- A signed decimal numeral: digits before a point, after it, or both. -/
structure Numeral where
  sign : Option Bool
  whole : List (Fin 10)
  fraction : Option (List (Fin 10))
  exponent : Option Exponent
  digits_ne_nil : whole ≠ [] ∨ fraction.getD [] ≠ []

/-- What the digits write, the first of them being the greatest. -/
def ofDigits (ds : List (Fin 10)) : Nat := Nat.ofDigits 10 (ds.reverse.map (·.val))

namespace Exponent

def text (e : Exponent) : List Char := e.mark :: (signText e.sign ++ digitsText e.digits)

def value (e : Exponent) : Int := if e.sign = some true then -ofDigits e.digits else ofDigits e.digits

end Exponent

namespace Numeral
variable (n : Numeral)

def mantissaText : List Char := digitsText n.whole ++ n.fraction.elim [] ('.' :: digitsText ·)

/-- The text without the sign. -/
def unsignedText : List Char := n.mantissaText ++ n.exponent.elim [] Exponent.text

def text : List Char := signText n.sign ++ n.unsignedText

/-- All the digits as a whole number, then the point moved to where it is. -/
def magnitude : ℚ :=
  ofDigits (n.whole ++ n.fraction.getD []) * 10 ^ (n.exponent.elim 0 Exponent.value - (n.fraction.getD []).length)

def value : Literal := .finite (decide (n.sign = some true)) n.magnitude

end Numeral

/-! ## The characters of a numeral -/

def numeralChars : List Char := "+-.eE0123456789".toList

theorem digitChar_mem (d : Fin 10) : digitChar d ∈ numeralChars := by
  revert d
  decide

theorem mem_digitsText {ds : List (Fin 10)} {c : Char} (h : c ∈ digitsText ds) : c ∈ numeralChars := by
  obtain ⟨d, -, rfl⟩ := List.mem_map.1 h
  exact digitChar_mem d

theorem mem_signText {sign : Option Bool} {c : Char} (h : c ∈ signText sign) : c ∈ numeralChars := by
  match sign, h with
  | some false, h => exact List.mem_singleton.1 h ▸ by decide
  | some true, h => exact List.mem_singleton.1 h ▸ by decide

theorem Exponent.mem_text {e : Exponent} {c : Char} (h : c ∈ e.text) : c ∈ numeralChars := by
  rcases List.mem_cons.1 h with rfl | h
  · rcases e.mark_mem with h | h <;> rw [h] <;> decide
  · exact (List.mem_append.1 h).elim mem_signText mem_digitsText

theorem Numeral.mem_text {n : Numeral} {c : Char} (h : c ∈ n.text) : c ∈ numeralChars := by
  simp only [Numeral.text, Numeral.unsignedText, Numeral.mantissaText, List.mem_append] at h
  rcases h with h | (h | h) | h
  · exact mem_signText h
  · exact mem_digitsText h
  · cases hf : n.fraction with
    | none => simp [hf] at h
    | some fraction =>
      rw [hf] at h
      rcases List.mem_cons.1 h with rfl | h
      · decide
      · exact mem_digitsText h
  · cases he : n.exponent with
    | none => simp [he] at h
    | some e =>
      rw [he] at h
      exact e.mem_text h

/-- A numeral begins with a digit or the point, its sign apart. -/
theorem Numeral.head_unsignedText (n : Numeral) :
    ∃ c s, n.unsignedText = c :: s ∧ ((∃ d, c = digitChar d) ∨ c = '.') := by
  unfold Numeral.unsignedText Numeral.mantissaText
  cases hw : n.whole with
  | cons d ds => exact ⟨digitChar d, _, rfl, .inl ⟨d, rfl⟩⟩
  | nil =>
    cases hf : n.fraction with
    | none =>
      have := n.digits_ne_nil
      simp [hw, hf] at this
    | some fraction => exact ⟨'.', _, rfl, .inr rfl⟩

/-! ## Reading a numeral -/

theorem natural_val (ds : List (Fin 10)) : Decimal.natural (ds.map (·.val)) = ofDigits ds := by
  rw [Decimal.natural, ofDigits, Nat.ofDigits_eq_foldr, List.map_reverse, List.foldr_reverse]
  congr 1
  funext n d
  simp [add_comm]

theorem digitChar_plain (d : Fin 10) :
    digitChar d ≠ '.' ∧ digitChar d ≠ '+' ∧ digitChar d ≠ '-' ∧ Decimal.isExponentMark (digitChar d) = false := by
  revert d
  decide

theorem signed_text (sign : Option Bool) {s : List Char} (h : ∀ c ∈ s.head?, c ≠ '+' ∧ c ≠ '-') :
    Decimal.signed (signText sign ++ s) = (decide (sign = some true), s) := by
  match sign with
  | some false => rfl
  | some true => rfl
  | none =>
    cases s with
    | nil => rfl
    | cons c s =>
      obtain ⟨hp, hm⟩ := h c rfl
      simp only [signText, List.nil_append]
      unfold Decimal.signed
      split <;> simp_all

/-- The language reads ASCII digits. -/
def ReadsDigits (digits : List Char → Option (List Nat)) : Prop :=
  ∀ ds : List (Fin 10), ds ≠ [] → digits (digitsText ds) = some (ds.map (·.val))

section
variable {digits : List Char → Option (List Nat)} (hd : ReadsDigits digits)
include hd

theorem mantissa_text (n : Numeral) : Decimal.mantissa digits n.mantissaText =
    some ((n.whole ++ n.fraction.getD []).map (·.val), (n.fraction.getD []).length) := by
  have hpoint (ds : List (Fin 10)) : ∀ c ∈ digitsText ds, (c == '.') = false := by
    rintro c hc
    obtain ⟨d, -, rfl⟩ := List.mem_map.1 hc
    exact beq_false_of_ne (digitChar_plain d).1
  have hne := n.digits_ne_nil
  unfold Decimal.mantissa Numeral.mantissaText
  rw [List.splitOn_eq_splitOnP]
  cases hf : n.fraction with
  | none =>
    have hw : n.whole ≠ [] := by simpa [hf] using hne
    simp [List.splitOnP_eq_singleton (hpoint _), hd _ hw]
  | some fraction =>
    rw [hf] at hne
    simp only [Option.elim_some, Option.getD_some] at hne ⊢
    rw [List.splitOnP_append_cons_of_forall_mem (hpoint _) _ (beq_self_eq_true _),
      List.splitOnP_eq_singleton (hpoint _)]
    -- One side may be empty.
    cases hfrac : fraction with
    | nil =>
      have hw : n.whole ≠ [] := hne.resolve_right (not_not.2 hfrac)
      change (digits (digitsText n.whole)).map (·, 0) = _
      rw [hd _ hw]
      simp
    | cons d ds =>
      cases hw : n.whole with
      | nil => simpa [digitsText] using hd (d :: ds) (by simp)
      | cons e es =>
        have hl := hd (e :: es) (by simp)
        have hr := hd (d :: ds) (by simp)
        simp only [digitsText, List.map_cons] at hl hr
        simp [digitsText, hl, hr]

theorem exponent_text (e : Exponent) : Decimal.exponent digits e.text = some e.value := by
  have hhead : ∀ c ∈ (digitsText e.digits).head?, c ≠ '+' ∧ c ≠ '-' := by
    intro c hc
    obtain ⟨d, -, rfl⟩ := List.mem_map.1 (List.mem_of_mem_head? hc)
    exact ⟨(digitChar_plain d).2.1, (digitChar_plain d).2.2.1⟩
  rw [Exponent.text, Decimal.exponent, signed_text e.sign hhead, hd _ e.digits_ne_nil, Option.map_some, natural_val,
    Exponent.value]
  simp

theorem read_text (n : Numeral) : Decimal.read digits n.unsignedText = some n.magnitude := by
  have hplain : ∀ c ∈ n.mantissaText, (!Decimal.isExponentMark c) = true := by
    intro c hc
    rw [Bool.not_eq_true']
    rcases List.mem_append.1 hc with hc | hc
    · obtain ⟨d, -, rfl⟩ := List.mem_map.1 hc
      exact (digitChar_plain d).2.2.2
    · cases hf : n.fraction with
      | none => simp [hf] at hc
      | some fraction =>
        rw [hf] at hc
        rcases List.mem_cons.1 hc with rfl | hc
        · rfl
        · obtain ⟨d, -, rfl⟩ := List.mem_map.1 hc
          exact (digitChar_plain d).2.2.2
  have hcut : n.unsignedText.takeWhile (!Decimal.isExponentMark ·) = n.mantissaText ∧
      n.unsignedText.dropWhile (!Decimal.isExponentMark ·) = n.exponent.elim [] Exponent.text := by
    rw [Numeral.unsignedText, List.takeWhile_append_of_pos hplain, List.dropWhile_append_of_pos hplain]
    cases n.exponent with
    | none => simp
    | some e =>
      have hmark : (!Decimal.isExponentMark e.mark) = false := by
        rcases e.mark_mem with h | h <;> rw [h] <;> rfl
      simp [Exponent.text, hmark]
  have he : Decimal.exponent digits (n.exponent.elim [] Exponent.text) = some (n.exponent.elim 0 Exponent.value) := by
    cases n.exponent with
    | none => rfl
    | some e => exact exponent_text hd e
  rw [Decimal.read, hcut.1, hcut.2, mantissa_text hd, he]
  simp only [Option.bind_eq_bind, Option.bind_some, natural_val, Decimal.scale_eq, Numeral.magnitude]

end

/-! ## What is no numeral -/

section
variable {digits : List Char → Option (List Nat)} {c : Char} {s : List Char}

theorem mem_signed (hc : c ≠ '+' ∧ c ≠ '-') (h : c ∈ s) : c ∈ (Decimal.signed s).2 := by
  unfold Decimal.signed
  split
  · exact (List.mem_cons.1 h).resolve_left hc.1
  · exact (List.mem_cons.1 h).resolve_left hc.2
  · exact h

/-- Splitting takes out the separator and nothing else. -/
theorem exists_mem_splitOn {sep : Char} (hc : c ≠ sep) (h : c ∈ s) : ∃ w ∈ s.splitOn sep, c ∈ w := by
  rw [List.splitOn_eq_splitOnP]
  induction s with
  | nil => cases h
  | cons d s ih =>
    rw [List.splitOnP_cons_eq_if_modifyHead]
    obtain ⟨w, ws, hws⟩ := List.exists_cons_of_ne_nil (List.splitOnP_ne_nil (· == sep) s)
    rw [hws] at ih ⊢
    rcases List.mem_cons.1 h with rfl | h
    · rw [if_neg (by simpa using hc)]
      exact ⟨c :: w, by simp, List.mem_cons_self⟩
    · obtain ⟨v, hv, hcv⟩ := ih h
      split
      · exact ⟨v, List.mem_cons_of_mem _ hv, hcv⟩
      · rcases List.mem_cons.1 hv with rfl | hv
        · exact ⟨d :: v, by simp, List.mem_cons_of_mem _ hcv⟩
        · exact ⟨v, by simp [hv], hcv⟩

/-- What is not read by the digits is only read as a point, an exponent's mark or a sign. -/
theorem read_eq_none (hd : ∀ s, c ∈ s → digits s = none) (hpoint : c ≠ '.') (hsign : c ≠ '+' ∧ c ≠ '-')
    (hmark : Decimal.isExponentMark c = false) (h : c ∈ s) : Decimal.read digits s = none := by
  rw [← List.takeWhile_append_dropWhile (p := (!Decimal.isExponentMark ·)) (l := s), List.mem_append] at h
  rcases h with h | h
  · have hm : Decimal.mantissa digits (s.takeWhile (!Decimal.isExponentMark ·)) = none := by
      obtain ⟨w, hw, hcw⟩ := exists_mem_splitOn hpoint h
      unfold Decimal.mantissa
      split <;> rename_i hs <;> first | rfl | rw [hs] at hw
      · rw [hd _ (List.mem_singleton.1 hw ▸ hcw), Option.map_none]
      · rcases List.mem_pair.1 hw with rfl | rfl
        · rw [hd _ hcw, Option.map_none]
        · cases hcw
      · rcases List.mem_pair.1 hw with rfl | rfl
        · cases hcw
        · rw [hd _ hcw, Option.map_none]
      · rcases List.mem_pair.1 hw with rfl | rfl
        · rw [hd _ hcw]
          rfl
        · rw [hd _ hcw]
          exact Option.bind_fun_none _
    rw [Decimal.read, hm]
    rfl
  · have he : Decimal.exponent digits (s.dropWhile (!Decimal.isExponentMark ·)) = none := by
      cases ht : s.dropWhile (!Decimal.isExponentMark ·) with
      | nil => simp [ht] at h
      | cons m t =>
        have hm : (!Decimal.isExponentMark m) = false := by
          have := List.head_dropWhile_not (!Decimal.isExponentMark ·) (l := s) (by simp [ht])
          simpa [ht] using this
        rw [ht] at h
        have hne : c ≠ m := by
          rintro rfl
          simp [hmark] at hm
        have hct := mem_signed hsign ((List.mem_cons.1 h).resolve_left hne)
        rw [Decimal.exponent, hd _ hct, Option.map_none]
    rw [Decimal.read, he]
    cases Decimal.mantissa digits _ <;> rfl

end

/-- A language that takes more digits reads no numeral otherwise. -/
theorem read_mono {digits digits' : List Char → Option (List Nat)} (hd : ∀ s ds, digits s = some ds → digits' s = some ds)
    {s : List Char} {q : ℚ} (h : Decimal.read digits s = some q) : Decimal.read digits' s = some q := by
  have hmap {β : Type} (f : List Nat → β) (t : List Char) (b : β) (h : (digits t).map f = some b) :
      (digits' t).map f = some b := by
    obtain ⟨ds, hds, rfl⟩ := Option.map_eq_some_iff.1 h
    rw [hd t ds hds]
    rfl
  have hm (t : List Char) (m : List Nat × Nat) (h : Decimal.mantissa digits t = some m) :
      Decimal.mantissa digits' t = some m := by
    unfold Decimal.mantissa at h ⊢
    split at h
    · exact hmap _ _ _ h
    · exact hmap _ _ _ h
    · exact hmap _ _ _ h
    · simp only [Option.bind_eq_bind, Option.bind_eq_some_iff] at h ⊢
      obtain ⟨ds, hds, es, hes, hq⟩ := h
      exact ⟨ds, hd _ _ hds, es, hd _ _ hes, hq⟩
    · cases h
  have he (t : List Char) (e : Int) (h : Decimal.exponent digits t = some e) :
      Decimal.exponent digits' t = some e := by
    cases t with
    | nil => exact h
    | cons c t => exact hmap _ _ _ h
  simp only [Decimal.read, Option.bind_eq_bind, Option.bind_eq_some_iff] at h ⊢
  obtain ⟨m, hm', e, he', hq⟩ := h
  exact ⟨m, hm _ _ hm', e, he _ _ he', hq⟩

end HtapStack
