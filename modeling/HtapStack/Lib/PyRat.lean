import Mathlib.Algebra.Order.Floor.Defs
import Mathlib.Data.Rat.Floor
import Mathlib.Tactic.Linarith
import Mathlib.Tactic.NormNum
/-!
# Python numbers as rationals

`int` and `round` of an exact number. `round1_near`: a number that is rounded to
one decimal is a twentieth away at most.
-/

namespace HtapStack.Py

/-- `int(x)`, towards zero. -/
def trunc (x : ℚ) : Int := if x < 0 then ⌈x⌉ else ⌊x⌋

theorem trunc_of_nonneg {x : ℚ} (h : 0 ≤ x) : trunc x = ⌊x⌋ := if_neg h.not_gt

/-- `round(x)`: the nearest, and of two the even one. -/
def round (x : ℚ) : Int :=
  if Int.fract x < 1 / 2 then ⌊x⌋
  else if 1 / 2 < Int.fract x then ⌊x⌋ + 1
  else if ⌊x⌋ % 2 = 0 then ⌊x⌋ else ⌊x⌋ + 1

/-- `round(x, 1)`. -/
def round1 (x : ℚ) : ℚ := round (10 * x) / 10

theorem round_near (x : ℚ) : |round x - x| ≤ 1 / 2 := by
  have hx := Int.floor_add_fract x
  have hlow := Int.fract_nonneg x
  have hhigh := Int.fract_lt_one x
  rw [abs_le]
  unfold round
  split_ifs <;> push_cast <;> constructor <;> linarith

theorem round_intCast (m : Int) : round (m : ℚ) = m := by
  rw [round, Int.fract_intCast, if_pos (by norm_num), Int.floor_intCast]

/-- It is one of the two whole numbers next to it. -/
theorem round_mem (x : ℚ) : ⌊x⌋ ≤ round x ∧ round x ≤ ⌊x⌋ + 1 := by
  unfold round
  split_ifs <;> omega

theorem round_mono {x y : ℚ} (h : x ≤ y) : round x ≤ round y := by
  rcases (Int.floor_mono h).lt_or_eq with hlt | heq
  · exact (round_mem x).2.trans ((Int.add_one_le_iff.2 hlt).trans (round_mem y).1)
  · have hfract : Int.fract x ≤ Int.fract y := by
      rw [Int.fract, Int.fract, heq]
      exact sub_le_sub_right h _
    unfold round
    rw [heq]
    split_ifs <;> first | omega | linarith

/-- An even number is what everything from a half below it rounds to, at least. -/
theorem le_round_of_even {x : ℚ} {m : Int} (hm : m % 2 = 0) (h : m - 1 / 2 ≤ x) : m ≤ round x := by
  rcases le_or_gt (m : ℚ) x with hle | hlt
  · exact (Int.le_floor.2 hle).trans (round_mem x).1
  have hfloor : ⌊x⌋ = m - 1 := by
    rw [Int.floor_eq_iff]
    push_cast
    constructor <;> linarith
  have hfract : 1 / 2 ≤ Int.fract x := by
    rw [Int.fract, hfloor]
    push_cast
    linarith
  unfold round
  rw [hfloor, if_neg hfract.not_gt]
  split_ifs <;> omega

theorem round_nonneg {x : ℚ} (h : 0 ≤ x) : 0 ≤ round x := by
  have hfloor := Int.floor_nonneg.2 h
  unfold round
  split_ifs <;> omega

theorem round1_near (x : ℚ) : |round1 x - x| ≤ 1 / 20 := by
  have hnear := abs_le.1 (round_near (10 * x))
  rw [abs_le, round1]
  constructor <;> linarith

theorem round1_nonneg {x : ℚ} (h : 0 ≤ x) : 0 ≤ round1 x := by
  have hround : (0 : ℚ) ≤ round (10 * x) := by exact_mod_cast round_nonneg (by linarith)
  exact div_nonneg hround (by norm_num)

example : trunc (-1 / 2) = 0 := by decide +kernel

example : [round1 (1 / 20), round1 (3 / 20)] = [0, 1 / 5] := by decide +kernel

end HtapStack.Py
