import Mathlib.Analysis.Convex.Segment
import Mathlib.Tactic.FieldSimp
import Mathlib.Tactic.Linarith
/-!
# Segments in the plane

Where a segment comes nearest to the origin, over any ordered field. The foot of
the perpendicular is clamped to the segment's ends, and no point of the segment
is nearer (`foot_nearest`). It is the origin itself exactly if the segment goes
through it (`foot_eq_origin_iff`).
-/

namespace HtapStack.Plane

variable {K : Type} [Field K] [LinearOrder K]

/-- How far along the segment from `a` in direction `d` the origin's nearest point
lies, from 0 to 1. -/
def foot (a d : K × K) : K :=
  if d.1 * d.1 + d.2 * d.2 = 0 then 0
  else max 0 (min 1 (-(a.1 * d.1 + a.2 * d.2) / (d.1 * d.1 + d.2 * d.2)))

variable [IsStrictOrderedRing K]

theorem foot_mem (a d : K × K) : 0 ≤ foot a d ∧ foot a d ≤ 1 := by
  unfold foot
  split
  · exact ⟨le_rfl, zero_le_one⟩
  · exact ⟨le_max_left _ _, max_le zero_le_one (min_le_left _ _)⟩

theorem eq_zero_of_lengthSq {d : K × K} (hd : d.1 * d.1 + d.2 * d.2 = 0) : d.1 = 0 ∧ d.2 = 0 :=
  ⟨by nlinarith only [hd, mul_self_nonneg d.1, mul_self_nonneg d.2],
    by nlinarith only [hd, mul_self_nonneg d.1, mul_self_nonneg d.2]⟩

/-- How much farther from the origin one point of a segment is than another, where
`q` is the foot of the perpendicular. -/
theorem lengthSq_sub {a d : K × K} {q : K} (hq : q * (d.1 * d.1 + d.2 * d.2) = -(a.1 * d.1 + a.2 * d.2)) (s t : K) :
    ((a.1 + s * d.1) * (a.1 + s * d.1) + (a.2 + s * d.2) * (a.2 + s * d.2)) -
        ((a.1 + t * d.1) * (a.1 + t * d.1) + (a.2 + t * d.2) * (a.2 + t * d.2)) =
      (d.1 * d.1 + d.2 * d.2) * ((s - t) * (s + t - 2 * q)) := by
  linear_combination 2 * (s - t) * hq

theorem foot_nearest (a d : K × K) {s : K} (h0 : 0 ≤ s) (h1 : s ≤ 1) :
    (a.1 + foot a d * d.1) * (a.1 + foot a d * d.1) + (a.2 + foot a d * d.2) * (a.2 + foot a d * d.2) ≤
      (a.1 + s * d.1) * (a.1 + s * d.1) + (a.2 + s * d.2) * (a.2 + s * d.2) := by
  by_cases hd : d.1 * d.1 + d.2 * d.2 = 0
  · obtain ⟨hd₁, hd₂⟩ := eq_zero_of_lengthSq hd
    simp [hd₁, hd₂]
  · have hq := div_mul_cancel₀ (-(a.1 * d.1 + a.2 * d.2)) hd
    have hfoot : foot a d = max 0 (min 1 (-(a.1 * d.1 + a.2 * d.2) / (d.1 * d.1 + d.2 * d.2))) := if_neg hd
    generalize -(a.1 * d.1 + a.2 * d.2) / (d.1 * d.1 + d.2 * d.2) = q at hq hfoot
    rw [← sub_nonneg, lengthSq_sub hq]
    refine mul_nonneg (add_nonneg (mul_self_nonneg _) (mul_self_nonneg _)) ?_
    -- The foot is before the segment, after it or on it.
    rcases le_total q 0 with hq0 | hq0
    · rw [hfoot, min_eq_right (hq0.trans zero_le_one), max_eq_left hq0]
      exact mul_nonneg (by linarith) (by linarith)
    · rcases le_total 1 q with hq1 | hq1
      · rw [hfoot, min_eq_left hq1, max_eq_right zero_le_one]
        exact mul_nonneg_of_nonpos_of_nonpos (by linarith) (by linarith)
      · rw [hfoot, min_eq_right hq1, max_eq_right hq0]
        have : (s - q) * (s + q - 2 * q) = (s - q) * (s - q) := by ring
        rw [this]
        exact mul_self_nonneg _

theorem foot_eq_origin_iff (a d : K × K) :
    (a.1 + foot a d * d.1 = 0 ∧ a.2 + foot a d * d.2 = 0) ↔
      ∃ s, 0 ≤ s ∧ s ≤ 1 ∧ a.1 + s * d.1 = 0 ∧ a.2 + s * d.2 = 0 := by
  constructor
  · rintro ⟨h₁, h₂⟩
    exact ⟨foot a d, (foot_mem a d).1, (foot_mem a d).2, h₁, h₂⟩
  · rintro ⟨s, h0, h1, h₁, h₂⟩
    have ha₁ : a.1 = -(s * d.1) := eq_neg_of_add_eq_zero_left h₁
    have ha₂ : a.2 = -(s * d.2) := eq_neg_of_add_eq_zero_left h₂
    by_cases hd : d.1 * d.1 + d.2 * d.2 = 0
    · -- A segment of no length is the origin.
      obtain ⟨hd₁, hd₂⟩ := eq_zero_of_lengthSq hd
      simp [ha₁, ha₂, hd₁, hd₂]
    · have hshare : -(a.1 * d.1 + a.2 * d.2) / (d.1 * d.1 + d.2 * d.2) = s := by
        rw [div_eq_iff hd, ha₁, ha₂]
        ring
      have hfoot : foot a d = s := by
        rw [foot, if_neg hd, hshare, min_eq_right h1, max_eq_right h0]
      rw [hfoot]
      exact ⟨h₁, h₂⟩

/-- The points of a segment, by coordinates. -/
theorem mem_segment_iff {p a b : K × K} : p ∈ segment K a b ↔
    ∃ s, 0 ≤ s ∧ s ≤ 1 ∧ a.1 + s * (b.1 - a.1) = p.1 ∧ a.2 + s * (b.2 - a.2) = p.2 := by
  simp only [segment_eq_image', Set.mem_image, Set.mem_Icc, Prod.ext_iff, Prod.fst_add, Prod.snd_add,
    Prod.smul_fst, Prod.smul_snd, Prod.fst_sub, Prod.snd_sub, smul_eq_mul, and_assoc]

end HtapStack.Plane
