import Mathlib.Algebra.BigOperators.Group.Multiset.Basic
import Mathlib.Analysis.Normed.Module.Normalize
/-!
# Feature hashing

A bag of tokens as a direction: each token adds its feature, and the sum is scaled
to length 1. Where the features cancel each other, or there are none, a given
direction stands in. The result is a unit vector (`norm_embed`), and repeating the
bag leaves it as it is (`embed_nsmul`).
-/

namespace HtapStack.FeatureHash
open NormedSpace

variable {T E : Type}

/-! ## Bags -/

section
variable [AddCommMonoid E] (feature : T → E)

/-- What the tokens add up to. -/
def bag (ts : Multiset T) : E := (ts.map feature).sum

theorem bag_zero : bag feature 0 = 0 := by rw [bag, Multiset.map_zero, Multiset.sum_zero]

theorem bag_cons (t : T) (ts : Multiset T) : bag feature (t ::ₘ ts) = feature t + bag feature ts := by
  rw [bag, Multiset.map_cons, Multiset.sum_cons, bag]

theorem bag_nsmul (k : Nat) (ts : Multiset T) : bag feature (k • ts) = k • bag feature ts := by
  rw [bag, Multiset.map_nsmul, Multiset.sum_nsmul, bag]

end

/-! ## Directions -/

variable [NormedAddCommGroup E] [NormedSpace ℝ E]

open Classical in
/-- The direction of a vector, or `e` if it has none. -/
noncomputable def direction (e v : E) : E := if v = 0 then e else normalize v

noncomputable def embed (e : E) (feature : T → E) (ts : Multiset T) : E := direction e (bag feature ts)

theorem direction_zero (e : E) : direction e 0 = e := if_pos rfl

theorem direction_of_ne_zero (e : E) {v : E} (h : v ≠ 0) : direction e v = normalize v := if_neg h

theorem norm_direction {e : E} (he : ‖e‖ = 1) (v : E) : ‖direction e v‖ = 1 := by
  by_cases h : v = 0
  · rw [h, direction_zero, he]
  · rw [direction_of_ne_zero e h, norm_normalize h]

/-- More of the same has the same direction. -/
theorem direction_nsmul (e v : E) {k : Nat} (hk : k ≠ 0) : direction e (k • v) = direction e v := by
  by_cases h : v = 0
  · rw [h, smul_zero]
  · have hpos : 0 < (k : ℝ) := Nat.cast_pos.2 (Nat.pos_of_ne_zero hk)
    rw [direction_of_ne_zero e h, ← Nat.cast_smul_eq_nsmul ℝ, direction_of_ne_zero e (smul_ne_zero hpos.ne' h),
      normalize_smul_of_pos hpos]

theorem norm_embed {e : E} (he : ‖e‖ = 1) (feature : T → E) (ts : Multiset T) : ‖embed e feature ts‖ = 1 :=
  norm_direction he _

theorem embed_nsmul (e : E) (feature : T → E) (ts : Multiset T) {k : Nat} (hk : k ≠ 0) :
    embed e feature (k • ts) = embed e feature ts := by
  rw [embed, bag_nsmul, direction_nsmul e _ hk, embed]

end HtapStack.FeatureHash
