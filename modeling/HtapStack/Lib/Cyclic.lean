import Mathlib.Data.Int.CardIntervalMod
/-!
# Going round a ring

`cycle n p k`: the `k` places of a ring of `n` that are visited from place `p`
on. Visits that follow one another are one longer visit (`cycle_append`), and no
place gets two visits more than another (`count_cycle_le`).
-/

namespace HtapStack

def cycle (n p : Int) (k : Nat) : List Int := (List.range k).map fun (i : Nat) => (p + i) % n

variable {n p i j : Int} {k l : Nat}

@[simp] theorem cycle_zero : cycle n p 0 = [] := rfl

theorem mem_cycle (hn : 0 < n) (h : i ∈ cycle n p k) : 0 ≤ i ∧ i < n := by
  obtain ⟨m, -, rfl⟩ := List.mem_map.1 h
  exact ⟨Int.emod_nonneg _ hn.ne', Int.emod_lt_of_pos _ hn⟩

theorem cycle_append : cycle n p (k + l) = cycle n p k ++ cycle n ((p + k) % n) l := by
  rw [cycle, List.range_add, List.map_append, List.map_map]
  refine congrArg _ (List.map_congr_left fun m _ => ?_)
  rw [Int.emod_add_emod]
  simp [add_assoc]

/-- A place is visited when the number of the visit is its distance from the start, round by round. -/
theorem count_cycle (hn : 0 < n) (hi : 0 ≤ i ∧ i < n) :
    (cycle n p k).count i = k.count (· ≡ ((i - p) % n).toNat [MOD n.toNat]) := by
  rw [List.count, cycle, List.countP_map, Nat.count]
  refine List.countP_congr fun m _ => ?_
  have hdistance : (((i - p) % n).toNat : Int) = (i - p) % n := Int.toNat_of_nonneg (Int.emod_nonneg _ hn.ne')
  have hround : (n.toNat : Int) = n := Int.toNat_of_nonneg hn.le
  simp only [Function.comp, beq_iff_eq, decide_eq_true_eq]
  rw [← Int.natCast_modEq_iff, hdistance, hround]
  calc (p + m) % n = i ↔ (p + m) % n = i % n := by rw [Int.emod_eq_of_lt hi.1 hi.2]
    _ ↔ p + m ≡ p + (i - p) [ZMOD n] := by rw [add_sub_cancel]; rfl
    _ ↔ m ≡ i - p [ZMOD n] := ⟨Int.ModEq.add_left_cancel' p, Int.ModEq.add_left p⟩
    _ ↔ m ≡ (i - p) % n [ZMOD n] := by rw [Int.ModEq, Int.ModEq, Int.emod_emod]

theorem count_cycle_le (hn : 0 < n) (hi : 0 ≤ i ∧ i < n) (hj : 0 ≤ j ∧ j < n) :
    (cycle n p k).count i ≤ (cycle n p k).count j + 1 := by
  have hround : 0 < n.toNat := Int.pos_iff_toNat_pos.1 hn
  rw [count_cycle hn hi, count_cycle hn hj, Nat.count_modEq_card _ hround, Nat.count_modEq_card _ hround]
  split <;> split <;> omega

end HtapStack
