import HtapStack.Lib.PyRat
import Mathlib.Data.Int.Log
import Mathlib.Tactic.LinearCombination
import Mathlib.Tactic.Ring
/-!
# Rounding to binary64

`rounded` takes a magnitude to the nearest multiple of its unit in the last place, of
two to the even one. It keeps the order (`rounded_mono`) and is half a unit off at most
(`rounded_near`), which of a normal magnitude is a small part of it (`unit_le`).

Overflow is not rounding: whoever uses these numbers says what becomes of it.
-/

namespace HtapStack.Binary64

/-- The exponent of the unit in the last place. -/
def exponent (q : ℚ) : Int := max (Int.log 2 q - 52) (-1074)

def rounded (q : ℚ) : ℚ := if 0 < q then Py.round (q / 2 ^ exponent q) * 2 ^ exponent q else 0

theorem two_zpow_pos (e : Int) : (0 : ℚ) < 2 ^ e := zpow_pos (by norm_num) e

theorem lt_two_zpow (q : ℚ) : q < 2 ^ (exponent q + 53) := by
  have hlog : q < (2 : ℕ) ^ (Int.log 2 q + 1) := Int.lt_zpow_succ_log_self (by decide) q
  refine hlog.trans_le ?_
  have hle : Int.log 2 q + 1 ≤ exponent q + 53 := by
    have := le_max_left (Int.log 2 q - 52) (-1074)
    unfold exponent
    omega
  exact_mod_cast zpow_le_zpow_right₀ (by norm_num : (1 : ℚ) ≤ 2) hle

/-- A multiple of a unit no smaller than its own is as it is. -/
theorem rounded_eq {q : ℚ} {m : Int} (hq : 0 < q) (h : q = m * 2 ^ exponent q) : rounded q = q := by
  have hdiv : q / 2 ^ exponent q = m := by
    rw [div_eq_iff (two_zpow_pos _).ne']
    exact h
  rw [rounded, if_pos hq, hdiv, Py.round_intCast]
  exact h.symm

/-- So is every multiple of a greater unit, by a factor below `2 ^ 53`. -/
theorem rounded_of_lt {m : Nat} {e : Int} (hm : m < 2 ^ 53) (he : -1074 ≤ e) :
    rounded (m * 2 ^ e) = m * 2 ^ e := by
  have hpos := two_zpow_pos e
  by_cases h0 : m = 0
  · subst h0
    simp [rounded]
  have hq : (0 : ℚ) < m * 2 ^ e := mul_pos (by exact_mod_cast Nat.pos_of_ne_zero h0) hpos
  have hlt : (m * 2 ^ e : ℚ) < (2 : ℕ) ^ (e + 53) := by
    have hm : (m : ℚ) < 2 ^ 53 := by exact_mod_cast hm
    rw [Nat.cast_ofNat, zpow_add₀ (by norm_num), mul_comm]
    exact mul_lt_mul_of_pos_left (by exact_mod_cast hm) hpos
  have hle : exponent (m * 2 ^ e) ≤ e := by
    have := (Int.lt_zpow_iff_log_lt (by decide) hq).1 hlt
    exact max_le (by omega) he
  refine rounded_eq (m := m * 2 ^ (e - exponent (m * 2 ^ e)).toNat) hq ?_
  push_cast
  rw [mul_assoc, ← zpow_natCast, Int.toNat_of_nonneg (by omega), ← zpow_add₀ (by norm_num), Int.sub_add_cancel]

theorem rounded_rounded (q : ℚ) : rounded (rounded q) = rounded q := by
  by_cases hq : 0 < q
  · obtain ⟨e, he⟩ : ∃ e, exponent q = e := ⟨_, rfl⟩
    have hpos := two_zpow_pos e
    obtain ⟨m, hm⟩ := Int.eq_ofNat_of_zero_le (Py.round_nonneg (div_nonneg hq.le hpos.le))
    have hr : rounded q = m * 2 ^ e := by
      rw [rounded, if_pos hq, he, hm]
      rfl
    have hmle : m ≤ 2 ^ 53 := by
      have hround : Py.round (q / 2 ^ e) ≤ (2 ^ 53 : Nat) := by
        refine (Py.round_mono ((div_le_iff₀ hpos).2 ?_)).trans (Py.round_intCast _).le
        have hlt := lt_two_zpow q
        rw [he, zpow_add₀ (by norm_num), mul_comm] at hlt
        exact_mod_cast hlt.le
      rw [hm] at hround
      exact_mod_cast hround
    have hemin : -1074 ≤ e := he ▸ le_max_right _ _
    rw [hr]
    rcases hmle.lt_or_eq with hlt | rfl
    · exact rounded_of_lt hlt hemin
    · have hup : ((2 ^ 53 : Nat) : ℚ) * 2 ^ e = (2 ^ 52 : Nat) * 2 ^ (e + 1) := by
        rw [zpow_add₀ (by norm_num)]
        push_cast
        ring
      rw [hup]
      exact rounded_of_lt (by decide) (by omega)
  · have hzero : rounded q = 0 := if_neg hq
    rw [hzero]
    simp [rounded]

/-! ## How far off it is -/

@[simp] theorem rounded_zero : rounded 0 = 0 := if_neg (lt_irrefl 0)

theorem exponent_mono {p q : ℚ} (hp : 0 < p) (h : p ≤ q) : exponent p ≤ exponent q :=
  max_le_max (sub_le_sub_right (Int.log_mono_right hp h) _) le_rfl

/-- The unit in the last place. -/
def unit (q : ℚ) : ℚ := 2 ^ exponent q

theorem unit_pos (q : ℚ) : 0 < unit q := two_zpow_pos _

theorem unit_mono {p q : ℚ} (hp : 0 < p) (h : p ≤ q) : unit p ≤ unit q :=
  zpow_le_zpow_right₀ (by norm_num) (exponent_mono hp h)

theorem rounded_near {q : ℚ} (hq : 0 < q) : |rounded q - q| ≤ unit q / 2 := by
  have hpos := unit_pos q
  have hsplit : rounded q - q = (Py.round (q / unit q) - q / unit q) * unit q := by
    rw [rounded, if_pos hq, sub_mul, div_mul_cancel₀ _ hpos.ne']
    rfl
  rw [hsplit, abs_mul, abs_of_pos hpos]
  calc |(Py.round (q / unit q) : ℚ) - q / unit q| * unit q ≤ 1 / 2 * unit q := by
        gcongr
        exact Py.round_near _
    _ = unit q / 2 := by ring

/-- The unit of any greater magnitude will do. -/
theorem rounded_near_of_le {q r : ℚ} (hq : 0 ≤ q) (hle : q ≤ r) : |rounded q - q| ≤ unit r / 2 := by
  rcases hq.eq_or_lt with rfl | hq
  · rw [rounded_zero, sub_zero, abs_zero]
    exact (half_pos (unit_pos _)).le
  · exact (rounded_near hq).trans (div_le_div_of_nonneg_right (unit_mono hq hle) zero_le_two)

/-- A normal magnitude is its unit `2 ^ 52` times at least. -/
theorem unit_le {q : ℚ} (hq : 2 ^ (-1022 : Int) ≤ q) : unit q ≤ q / 2 ^ 52 := by
  have hpos : 0 < q := (two_zpow_pos _).trans_le hq
  have hlog : -1022 ≤ Int.log 2 q := (Int.zpow_le_iff_le_log (by decide) hpos).1 (by exact_mod_cast hq)
  have hexponent : exponent q = Int.log 2 q - 52 := max_eq_left (by omega)
  have hle : ((2 : ℕ) : ℚ) ^ Int.log 2 q ≤ q := Int.zpow_log_le_self (by decide) hpos
  rw [unit, hexponent, zpow_sub₀ (by norm_num)]
  exact div_le_div_of_nonneg_right (by exact_mod_cast hle) (by norm_num)

/-- Below `2 ^ 52` the unit is a half, or goes into one. -/
theorem unit_halves {q : ℚ} (hq : 0 < q) (hlt : q < 2 ^ 52) : ∃ j : Nat, unit q * (2 ^ (j + 1) : Int) = 1 := by
  have hlog : Int.log 2 q < 52 := (Int.lt_zpow_iff_log_lt (by decide) hq).1 (by exact_mod_cast hlt)
  have hexponent : exponent q ≤ -1 := max_le (by omega) (by decide)
  obtain ⟨j, hj⟩ := Int.eq_ofNat_of_zero_le (a := -1 - exponent q) (by omega)
  refine ⟨j, ?_⟩
  have hneg : exponent q = -((j + 1 : Nat) : Int) := by
    push_cast
    omega
  rw [unit, hneg, zpow_neg, zpow_natCast]
  push_cast
  exact inv_mul_cancel₀ (by positivity)

/-- There what is half a unit below an integer is rounded to it, for it is an even number of units. -/
theorem intCast_le_rounded {q : ℚ} {m : Int} (hq : 0 < q) (hlt : q < 2 ^ 52) (hm : m ≤ q + unit q / 2) :
    (m : ℚ) ≤ rounded q := by
  obtain ⟨j, hunits⟩ := unit_halves hq hlt
  push_cast at hunits
  have hround : m * 2 ^ (j + 1) ≤ Py.round (q / unit q) := by
    have heven : m * 2 ^ (j + 1) % 2 = 0 := by
      rw [pow_succ, ← mul_assoc]
      exact Int.mul_emod_left _ _
    apply Py.le_round_of_even heven
    rw [le_div_iff₀ (unit_pos q)]
    push_cast
    linear_combination hm + (m : ℚ) * hunits
  calc (m : ℚ) = (m * 2 ^ (j + 1) : Int) * unit q := by
        push_cast
        linear_combination -(m : ℚ) * hunits
    _ ≤ Py.round (q / unit q) * unit q := mul_le_mul_of_nonneg_right (by exact_mod_cast hround) (unit_pos q).le
    _ = rounded q := (if_pos hq).symm

/-! ## Order -/

theorem zero_le_rounded (q : ℚ) : 0 ≤ rounded q := by
  unfold rounded
  split
  · have hround : (0 : ℚ) ≤ Py.round (q / 2 ^ exponent q) := by
      exact_mod_cast Py.round_nonneg (div_nonneg (le_of_lt ‹_›) (two_zpow_pos _).le)
    exact mul_nonneg hround (two_zpow_pos _).le
  · exact le_rfl

theorem rounded_mono {p q : ℚ} (h : p ≤ q) : rounded p ≤ rounded q := by
  rcases le_or_gt p 0 with hp | hp
  · rw [rounded, if_neg hp.not_gt]
    exact zero_le_rounded q
  have hq := hp.trans_le h
  rw [rounded, rounded, if_pos hp, if_pos hq]
  rcases (exponent_mono hp h).eq_or_lt with hsame | hlt
  · rw [← hsame]
    have hround : Py.round (p / 2 ^ exponent p) ≤ Py.round (q / 2 ^ exponent p) :=
      Py.round_mono (div_le_div_of_nonneg_right h (two_zpow_pos _).le)
    exact mul_le_mul_of_nonneg_right (by exact_mod_cast hround) (two_zpow_pos _).le
  · -- Between them is the power of two at which the greater unit begins.
    have hbelow : Py.round (p / 2 ^ exponent p) ≤ ((2 ^ 53 : Nat) : Int) := by
      refine (Py.round_mono ((div_le_iff₀ (two_zpow_pos _)).2 ?_)).trans (Py.round_intCast _).le
      have hlt := lt_two_zpow p
      rw [zpow_add₀ (by norm_num), mul_comm] at hlt
      exact_mod_cast hlt.le
    have hnormal : exponent q = Int.log 2 q - 52 := by
      have hmin : -1074 ≤ exponent p := le_max_right _ _
      unfold exponent at hlt hmin ⊢
      omega
    have habove : ((2 ^ 52 : Nat) : Int) ≤ Py.round (q / 2 ^ exponent q) := by
      refine (Py.round_intCast _).ge.trans (Py.round_mono ((le_div_iff₀ (two_zpow_pos _)).2 ?_))
      have hle : ((2 : ℕ) : ℚ) ^ Int.log 2 q ≤ q := Int.zpow_log_le_self (by decide) hq
      have hsplit : (((2 ^ 52 : Nat) : Int) : ℚ) * 2 ^ (Int.log 2 q - 52) = ((2 : ℕ) : ℚ) ^ Int.log 2 q := by
        rw [zpow_sub₀ (by norm_num)]
        norm_num
        ring
      rw [hnormal, hsplit]
      exact hle
    calc (Py.round (p / 2 ^ exponent p) : ℚ) * 2 ^ exponent p ≤ (2 ^ 53 : Nat) * 2 ^ exponent p :=
          mul_le_mul_of_nonneg_right (by exact_mod_cast hbelow) (two_zpow_pos _).le
      _ = (2 ^ 52 : Nat) * 2 ^ (exponent p + 1) := by
          rw [zpow_add₀ (by norm_num)]
          push_cast
          ring
      _ ≤ (2 ^ 52 : Nat) * 2 ^ exponent q := by
          gcongr
          · norm_num
          · omega
      _ ≤ Py.round (q / 2 ^ exponent q) * 2 ^ exponent q :=
          mul_le_mul_of_nonneg_right (by exact_mod_cast habove) (two_zpow_pos _).le

/-! ## With a sign -/

/-- The nearest double, if there is no overflow. -/
def double (q : ℚ) : ℚ := if 0 ≤ q then rounded q else -rounded (-q)

theorem double_of_nonneg {q : ℚ} (h : 0 ≤ q) : double q = rounded q := if_pos h

theorem zero_le_double {q : ℚ} (h : 0 ≤ q) : 0 ≤ double q := by
  rw [double_of_nonneg h]
  exact zero_le_rounded q

theorem double_near {q r : ℚ} (hq : 0 ≤ q) (hle : q ≤ r) : |double q - q| ≤ unit r / 2 := by
  rw [double_of_nonneg hq]
  exact rounded_near_of_le hq hle

theorem double_mono {p q : ℚ} (hp : 0 ≤ p) (h : p ≤ q) : double p ≤ double q := by
  rw [double_of_nonneg hp, double_of_nonneg (hp.trans h)]
  exact rounded_mono h

end HtapStack.Binary64
