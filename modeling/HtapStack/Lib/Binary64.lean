import HtapStack.Lib.PyJson
import HtapStack.Lib.Rounding
import Mathlib.Data.Nat.Cast.Field
import Mathlib.Data.Nat.Prime.Basic
import Mathlib.Tactic.Ring
/-!
# Binary64

The doubles as they are: a double is a number that rounding leaves as it is.
`binary64` is the instance of `FloatReprs`, its `repr` being the double written out
in full.
-/

namespace HtapStack.Binary64

/-- The nearest double to what is written. -/
def nearest : Literal → Literal
  | .finite negative q => if rounded q < 2 ^ 1024 then .finite negative (rounded q) else .infinite negative
  | l => l

theorem nearest_nearest (l : Literal) : nearest (nearest l) = nearest l := by
  cases l with
  | finite negative q =>
    by_cases h : rounded q < 2 ^ 1024
    · simp only [nearest, if_pos h, rounded_rounded]
    · simp only [nearest, if_neg h]
  | infinite | nan => rfl

end HtapStack.Binary64

namespace HtapStack

/-- A double. -/
abbrev Binary64 := { l : Literal // Binary64.nearest l = l }

namespace Binary64

/-! ## Writing out -/

/-- The rounded magnitudes are those of a whole number and a power of two. -/
theorem den_dvd {q : ℚ} (h : rounded q = q) : ∃ k, q.den ∣ 2 ^ k := by
  by_cases hq : 0 < q
  · rw [rounded, if_pos hq] at h
    obtain ⟨m, hm⟩ : ∃ m : Int, Py.round (q / 2 ^ exponent q) = m := ⟨_, rfl⟩
    rw [hm] at h
    rcases le_or_gt 0 (exponent q) with he | he
    · obtain ⟨k, hk⟩ := Int.eq_ofNat_of_zero_le he
      have hint : q = ((m * 2 ^ k : Int) : ℚ) := by
        rw [← h, hk]
        push_cast
        rfl
      exact ⟨0, by rw [hint, Rat.den_intCast, pow_zero]⟩
    · obtain ⟨k, hk⟩ := Int.eq_ofNat_of_zero_le (show 0 ≤ -exponent q by omega)
      have hdiv : q = (m : ℚ) / ((2 ^ k : Int) : ℚ) := by
        rw [← h, show exponent q = -(k : Int) by omega, zpow_neg, zpow_natCast, div_eq_mul_inv]
        push_cast
        rfl
      have hden := Rat.den_dvd m (2 ^ k)
      rw [Rat.divInt_eq_div, ← hdiv] at hden
      exact ⟨k, by exact_mod_cast hden⟩
  · have hzero : q = 0 := by rw [← h, rounded, if_neg hq]
    exact ⟨0, by simp [hzero]⟩

/-- How many digits follow the point. -/
def places (q : ℚ) : Nat := max 1 (Nat.log 2 q.den)

/-- All the digits, as a whole number. -/
def digits (q : ℚ) : Nat := q.num.natAbs * (10 ^ places q / q.den)

local instance base : NeZero 10 := ⟨by decide⟩

/-- So many digits, the last ones of the number. -/
def lastDigits : Nat → Nat → List (Fin 10)
  | 0, _ => []
  | p + 1, n => lastDigits p (n / 10) ++ [Fin.ofNat 10 n]

theorem length_lastDigits (p n : Nat) : (lastDigits p n).length = p := by
  induction p generalizing n with
  | zero => rfl
  | succ p ih => rw [lastDigits, List.length_append, ih, List.length_singleton]

theorem ofDigits_concat (ds : List (Fin 10)) (d : Fin 10) : ofDigits (ds ++ [d]) = 10 * ofDigits ds + d := by
  rw [← natural_val, ← natural_val, Decimal.natural, Decimal.natural, List.map_append, List.foldl_append]
  rfl

theorem ofDigits_lastDigits (ds : List (Fin 10)) (p n : Nat) :
    ofDigits (ds ++ lastDigits p n) = ofDigits ds * 10 ^ p + n % 10 ^ p := by
  induction p generalizing n with
  | zero => simp [lastDigits, Nat.mod_one]
  | succ p ih =>
    rw [lastDigits, ← List.append_assoc, ofDigits_concat, ih]
    have hdiv : n % 10 ^ (p + 1) = 10 * (n / 10 % 10 ^ p) + n % 10 := by
      rw [Nat.pow_succ', Nat.mod_mul]
      omega
    have hlast : ((Fin.ofNat 10 n : Fin 10) : Nat) = n % 10 := rfl
    rw [hdiv, hlast, Nat.pow_succ]
    ring

/-- The magnitude with every digit. -/
def numeral (negative : Bool) (q : ℚ) : Numeral where
  sign := if negative then some true else none
  whole := Py.decimalDigits (digits q / 10 ^ places q)
  fraction := some (lastDigits (places q) (digits q))
  exponent := none
  digits_ne_nil := .inl (Py.decimalDigits_ne_nil _)

theorem rounded_nonneg {q : ℚ} (h : rounded q = q) : 0 ≤ q := by
  by_contra hq
  rw [rounded, if_neg (by linarith)] at h
  exact hq h.le

theorem den_dvd_places {q : ℚ} (h : rounded q = q) : q.den ∣ 10 ^ places q := by
  obtain ⟨k, hk⟩ := den_dvd h
  obtain ⟨j, -, hj⟩ := (Nat.dvd_prime_pow Nat.prime_two).1 hk
  have hlog : j ≤ places q := by
    rw [places, hj, Nat.log_pow (by decide)]
    exact le_max_right _ _
  rw [hj]
  exact (pow_dvd_pow 2 hlog).trans (pow_dvd_pow_of_dvd (by decide) _)

theorem value_numeral (negative : Bool) {q : ℚ} (h : rounded q = q) :
    (numeral negative q).value = .finite negative q := by
  have hsign : decide ((numeral negative q).sign = some true) = negative := by cases negative <;> rfl
  have hnum : (q.num.natAbs : ℚ) = q.num := by
    have := Rat.num_nonneg.2 (rounded_nonneg h)
    rw [← Int.cast_natCast, Int.natAbs_of_nonneg this]
  have hdigits : ((digits q : Nat) : ℚ) = q * 10 ^ places q := by
    have hden : (q.den : ℚ) ≠ 0 := by exact_mod_cast q.den_ne_zero
    rw [digits, Nat.cast_mul, Nat.cast_div (den_dvd_places h) hden, hnum]
    push_cast
    rw [← mul_div_assoc, div_eq_iff hden]
    conv_rhs => rw [mul_right_comm, Rat.mul_den_eq_num]
  have hall : ofDigits ((numeral negative q).whole ++ (numeral negative q).fraction.getD []) = digits q := by
    rw [numeral, Option.getD_some, ofDigits_lastDigits, Py.ofDigits_decimalDigits, Nat.mul_comm, Nat.div_add_mod]
  rw [Numeral.value, hsign, Numeral.magnitude, hall, hdigits]
  have hlength : (((numeral negative q).fraction.getD []).length : Int) = places q := by
    rw [numeral, Option.getD_some, length_lastDigits]
  rw [hlength, mul_assoc, ← zpow_natCast, ← zpow_add₀ (by norm_num)]
  simp [numeral]

theorem plain_numeral (negative : Bool) (q : ℚ) : Js.Json.IsPlain (numeral negative q) where
  sign := by cases negative <;> simp [numeral]
  whole := Py.decimalDigits_ne_nil _
  zero := Py.decimalDigits_zero
  fraction := by
    intro h
    have hlength := congrArg List.length (Option.some.inj h)
    rw [length_lastDigits] at hlength
    exact absurd hlength (Nat.pos_of_ne_zero (by unfold places; omega)).ne'

def shown (x : Binary64) : Py.Shown :=
  match x.val with
  | .finite negative q => .finite (numeral negative q)
  | .infinite negative => .infinite negative
  | .nan => .nan

theorem shown_finite {x : Binary64} {n : Numeral} (h : shown x = .finite n) :
    ∃ negative q, x.val = .finite negative q ∧ rounded q = q ∧ n = numeral negative q := by
  obtain ⟨l, hl⟩ := x
  cases l with
  | finite negative q =>
    refine ⟨negative, q, rfl, ?_, (Py.Shown.finite.inj h).symm⟩
    by_cases hq : rounded q < 2 ^ 1024
    · rw [nearest, if_pos hq] at hl
      exact (Literal.finite.inj hl).2
    · rw [nearest, if_neg hq] at hl
      cases hl
  | infinite | nan => cases h

end Binary64

/-- The doubles of Python and JavaScript. -/
def binary64 : Py.FloatReprs Binary64 where
  nearest l := ⟨Binary64.nearest l, Binary64.nearest_nearest l⟩
  isFinite x :=
    match x.val with
    | .finite _ _ => true
    | _ => false
  infinite_isFinite _ := rfl
  nan_isFinite := rfl
  shown := Binary64.shown
  isFinite_iff x := by
    obtain ⟨l, hl⟩ := x
    cases l <;> simp [Binary64.shown]
  plain x n h := by
    obtain ⟨negative, q, -, -, rfl⟩ := Binary64.shown_finite h
    exact Binary64.plain_numeral negative q
  nearest_shown x n h := by
    obtain ⟨negative, q, hx, hq, rfl⟩ := Binary64.shown_finite h
    refine Subtype.ext ?_
    change Binary64.nearest (Binary64.numeral negative q).value = x.val
    rw [Binary64.value_numeral negative hq, ← hx]
    exact x.property

end HtapStack
