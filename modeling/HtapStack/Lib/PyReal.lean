import HtapStack.Lib.PyNum
import Mathlib.Analysis.SpecialFunctions.Complex.Arg
import Mathlib.Analysis.SpecialFunctions.Trigonometric.Inverse
/-!
# Python numbers as reals

`reals`: floats that are never rounded, never infinite and always a number, with
the functions of `math` on them. `reals_lawful`, `reals_ordered`: they keep the laws of
floats, so what is proved from the laws can be tried on them.
-/

namespace HtapStack.Py
open Real

noncomputable def reals : Floats ℝ where
  toArith := exact (fun x y => √(x ^ 2 + y ^ 2)) Real.cos (fun x => x * (π / (180 : ℚ)))
  infinite _ := false
  sin x := .ok (Real.sin x)
  sqrt x := if x < 0 then .error .value else .ok √x
  asin x := if x < -1 ∨ 1 < x then .error .value else .ok (arcsin x)
  atan2 y x := Complex.arg ⟨x, y⟩
  degrees x := x * ((180 : ℚ) / π)
  square x := x ^ 2
  mod360 x := x - 360 * ⌊x / 360⌋
  ofInt n := .ok n
  single x := .ok x
  totalSeconds n := n / 1000000

section
variable (q : ℚ) (x y : ℝ)

@[simp] theorem reals_lit : reals.lit q = (q : ℝ) := rfl
@[simp] theorem reals_lt : reals.lt x y = decide (x < y) := rfl
@[simp] theorem reals_le : reals.le x y = decide (x ≤ y) := rfl
@[simp] theorem reals_eq : reals.eq x y = decide (x = y) := rfl
@[simp] theorem reals_add : reals.add x y = x + y := rfl
@[simp] theorem reals_mul : reals.mul x y = x * y := rfl
@[simp] theorem reals_square : reals.square x = x ^ 2 := rfl
@[simp] theorem reals_radians : reals.radians x = x * (π / 180) := by simp [reals]
@[simp] theorem reals_degrees : reals.degrees x = x * (180 / π) := by simp [reals]
@[simp] theorem reals_mod360 : reals.mod360 x = x - 360 * ⌊x / 360⌋ := rfl
@[simp] theorem reals_atan2 : reals.atan2 y x = Complex.arg ⟨x, y⟩ := rfl
@[simp] theorem reals_sub : reals.sub x y = x - y := rfl
@[simp] theorem reals_sin : reals.sin x = .ok (Real.sin x) := rfl
@[simp] theorem reals_cos : reals.cos x = .ok (Real.cos x) := rfl
@[simp] theorem reals_infinite : reals.infinite x = false := rfl

theorem reals_sqrt : reals.sqrt x = if x < 0 then .error .value else .ok √x := rfl

theorem reals_asin : reals.asin x = if x < -1 ∨ 1 < x then .error .value else .ok (arcsin x) := rfl

theorem reals_div {y : ℝ} (h : y ≠ 0) : reals.div x y = .ok (x / y) := if_neg h

@[simp] theorem reals_half : reals.div x (reals.lit 2) = .ok (x / 2) := by
  simpa using reals_div x (y := reals.lit 2) (by simp)

end

theorem reals_lawful : reals.Lawful where
  div_returns x y := by
    rw [reals_eq, reals_lit, Rat.cast_zero, decide_eq_false_iff_not]
    constructor
    · rintro ⟨z, hz⟩ rfl
      simp [reals, exact] at hz
    · intro h
      exact ⟨_, reals_div x h⟩
  cos_returns _ := by simp
  sin_returns _ := by simp
  sqrt_returns x := by
    rw [reals_lt, reals_lit, Rat.cast_zero, decide_eq_false_iff_not]
    rw [reals_sqrt]
    split
    · exact iff_of_false (not_returns_error _) (not_not.2 ‹_›)
    · exact iff_of_true (returns_ok _) ‹_›
  sqrt_nonneg x y h := by
    rw [reals_sqrt] at h
    split at h
    · cases h
    · cases h
      simp
  asin_returns x h0 h1 := by
    simp only [reals_lt, reals_lit, Rat.cast_zero, Rat.cast_one, decide_eq_false_iff_not, not_lt] at h0 h1
    exact ⟨_, if_neg (by rintro (h | h) <;> linarith)⟩
  radians_infinite _ := rfl
  sub_radians _ _ _ _ := rfl
  half_infinite _ _ _ := rfl
  sub_ne_zero x y z h := by
    simp only [reals_lt, reals_sub, reals_eq, reals_lit, Rat.cast_zero, decide_eq_false_iff_not] at *
    intro heq
    exact h (by rw [sub_eq_zero.1 heq])
  lt_asymm x y h := by
    simp only [reals_lt, decide_eq_true_eq, decide_eq_false_iff_not] at *
    exact h.le.not_gt
  zero_lt_one := by simp
  le_of_eq x y h := by
    simp only [reals_eq, reals_le, decide_eq_true_eq] at *
    exact h.le
  lit_ne_zero q hq := by
    have hpos : (0 : ℚ) < q := by linarith
    simpa using hpos.ne'

theorem reals_ordered : reals.Ordered where
  lit_le p q h := by simpa using h
  lit_pos q hq := by
    have hpos : (0 : ℚ) < q := by linarith
    simpa using hpos
  lit_finite _ _ _ := rfl
  le_of_not_lt x q _ h := by simpa using h
  seconds_pos n h := by simpa using h
  seconds_finite _ := rfl
  div_nonneg x y z hx hy _ h := by
    simp only [reals_lit, Rat.cast_zero, reals_le, reals_lt, decide_eq_true_eq] at hx hy ⊢
    rw [reals_div x hy.ne'] at h
    cases h
    exact div_nonneg hx hy.le

end HtapStack.Py
