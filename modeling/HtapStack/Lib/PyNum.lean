import HtapStack.Lib.Returns
import Mathlib.Algebra.Order.Field.Basic
import Mathlib.Data.Rat.Cast.Defs
/-!
# Python numbers

What a program asks of `float`: an `Arith` is a type of numbers with the
operations of the language and of `math`, each of which may raise where the
real one does. Code written over it can be run on exact numbers (`exact`), and
reasoned about on floats by the laws that they keep.
-/

namespace HtapStack.Py

/-- The exceptions that come up. -/
inductive Exn where
  | attribute
  | key
  | overflow
  | type
  | unicodeEncode
  | value
  | zeroDivision
  deriving DecidableEq, Repr

structure Arith (F : Type) where
  lit : ℚ → F
  add : F → F → F
  sub : F → F → F
  mul : F → F → F
  neg : F → F
  div : F → F → Except Exn F
  lt : F → F → Bool
  le : F → F → Bool
  eq : F → F → Bool
  /-- `x < float("inf")`. -/
  belowInf : F → Bool
  radians : F → F
  cos : F → Except Exn F
  hypot : F → F → F

namespace Arith
variable {F : Type} (A : Arith F)

/-- `min(a, b)`: the first of the two unless the second is less. -/
def min (a b : F) : F := if A.lt b a then b else a

/-- `max(a, b)`: the first of the two unless the second is greater. -/
def max (a b : F) : F := if A.lt a b then b else a

end Arith

/-! ## Floats -/

/-- What is left of `float` and `math`. -/
structure Floats (F : Type) extends Arith F where
  infinite : F → Bool
  sin : F → Except Exn F
  sqrt : F → Except Exn F
  asin : F → Except Exn F
  atan2 : F → F → F
  degrees : F → F
  /-- `x ** 2`. -/
  square : F → F
  /-- `x % 360`. -/
  mod360 : F → F
  /-- `float(n)`. -/
  ofInt : Int → Except Exn F
  /-- The nearest 32-bit float. -/
  single : F → Except Exn F
  /-- `timedelta(microseconds=n).total_seconds()`. -/
  totalSeconds : Int → F

/-- When the operations raise, and what the comparisons keep. -/
structure Floats.Lawful {F : Type} (A : Floats F) : Prop where
  div_returns : ∀ x y, Returns (A.div x y) ↔ A.eq y (A.lit 0) = false
  cos_returns : ∀ x, Returns (A.cos x) ↔ A.infinite x = false
  sin_returns : ∀ x, Returns (A.sin x) ↔ A.infinite x = false
  sqrt_returns : ∀ x, Returns (A.sqrt x) ↔ A.lt x (A.lit 0) = false
  sqrt_nonneg : ∀ x y, A.sqrt x = .ok y → A.lt y (A.lit 0) = false
  asin_returns : ∀ x, A.lt x (A.lit 0) = false → A.lt (A.lit 1) x = false → Returns (A.asin x)
  radians_infinite : ∀ x, A.infinite (A.radians x) = A.infinite x
  /-- Angles in radians are too small for their difference to overflow. -/
  sub_radians : ∀ x y, A.infinite x = false → A.infinite y = false →
    A.infinite (A.sub (A.radians x) (A.radians y)) = false
  half_infinite : ∀ x y, A.div x (A.lit 2) = .ok y → A.infinite y = A.infinite x
  /-- Numbers on two sides of a third are apart, also after rounding. -/
  sub_ne_zero : ∀ x y z, A.lt x y ≠ A.lt x z → A.eq (A.sub z y) (A.lit 0) = false
  lt_asymm : ∀ x y, A.lt x y = true → A.lt y x = false
  zero_lt_one : A.lt (A.lit 0) (A.lit 1) = true
  le_of_eq : ∀ x y, A.eq x y = true → A.le x y = true
  lit_ne_zero : ∀ q : ℚ, 1 / 1000 ≤ q → A.eq (A.lit q) (A.lit 0) = false

/-- How numbers from 0 up compare, and that a quotient of two is one of them. What is
no number compares with nothing, and infinity over infinity is none. -/
structure Floats.Ordered {F : Type} (A : Floats F) : Prop where
  lit_le : ∀ p q : ℚ, p ≤ q → A.le (A.lit p) (A.lit q) = true
  lit_pos : ∀ q : ℚ, 1 / 1000 ≤ q → A.lt (A.lit 0) (A.lit q) = true
  lit_finite : ∀ q : ℚ, 0 ≤ q → q ≤ 1 → A.infinite (A.lit q) = false
  le_of_not_lt : ∀ x (q : ℚ), A.le (A.lit 0) x = true → A.lt (A.lit q) x = false → A.le x (A.lit q) = true
  seconds_pos : ∀ n, A.le (A.totalSeconds n) (A.lit 0) = false → A.lt (A.lit 0) (A.totalSeconds n) = true
  seconds_finite : ∀ n, A.infinite (A.totalSeconds n) = false
  div_nonneg : ∀ x y z, A.le (A.lit 0) x = true → A.lt (A.lit 0) y = true → A.infinite y = false →
    A.div x y = .ok z → A.le (A.lit 0) z = true

/-! ## Exact numbers -/

section
variable {K : Type} [Field K] [LinearOrder K]

/-- An ordered field, with functions in place of the two that leave it. -/
def exact (hypot : K → K → K) (cos radians : K → K) : Arith K where
  lit q := (q : K)
  add := (· + ·)
  sub := (· - ·)
  mul := (· * ·)
  neg := (- ·)
  div a b := if b = 0 then .error .zeroDivision else .ok (a / b)
  lt a b := decide (a < b)
  le a b := decide (a ≤ b)
  eq a b := decide (a = b)
  belowInf _ := true
  radians := radians
  cos a := .ok (cos a)
  hypot := hypot

variable {hypot : K → K → K} {cos radians : K → K}

@[simp] theorem exact_lit (q : ℚ) : (exact hypot cos radians).lit q = (q : K) := rfl
@[simp] theorem exact_add (a b : K) : (exact hypot cos radians).add a b = a + b := rfl
@[simp] theorem exact_sub (a b : K) : (exact hypot cos radians).sub a b = a - b := rfl
@[simp] theorem exact_mul (a b : K) : (exact hypot cos radians).mul a b = a * b := rfl
@[simp] theorem exact_neg (a : K) : (exact hypot cos radians).neg a = -a := rfl
@[simp] theorem exact_lt (a b : K) : (exact hypot cos radians).lt a b = decide (a < b) := rfl
@[simp] theorem exact_le (a b : K) : (exact hypot cos radians).le a b = decide (a ≤ b) := rfl
@[simp] theorem exact_eq (a b : K) : (exact hypot cos radians).eq a b = decide (a = b) := rfl
@[simp] theorem exact_belowInf (a : K) : (exact hypot cos radians).belowInf a = true := rfl
@[simp] theorem exact_radians (a : K) : (exact hypot cos radians).radians a = radians a := rfl
@[simp] theorem exact_cos (a : K) : (exact hypot cos radians).cos a = .ok (cos a) := rfl
@[simp] theorem exact_hypot (a b : K) : (exact hypot cos radians).hypot a b = hypot a b := rfl

theorem exact_div (a : K) {b : K} (h : b ≠ 0) : (exact hypot cos radians).div a b = .ok (a / b) := if_neg h

@[simp] theorem exact_min (a b : K) : (exact hypot cos radians).min a b = min a b := by
  simp only [Arith.min, exact_lt, decide_eq_true_eq]
  split
  · exact (min_eq_right_of_lt ‹_›).symm
  · exact (min_eq_left (not_lt.1 ‹_›)).symm

@[simp] theorem exact_max (a b : K) : (exact hypot cos radians).max a b = max a b := by
  simp only [Arith.max, exact_lt, decide_eq_true_eq]
  split
  · exact (max_eq_right_of_lt ‹_›).symm
  · exact (max_eq_left (not_lt.1 ‹_›)).symm

end

end HtapStack.Py
