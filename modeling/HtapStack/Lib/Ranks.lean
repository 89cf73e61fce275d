import Mathlib.Data.List.Nodup
import Mathlib.Order.Lattice
/-!
# Ranks in an ascending list

`rank l x` is how many of `l` come before `x`. In an ascending list it is the
place of `x`: `mem_take_iff` says which elements a cut leaves in, and
`pair_sublist` that two of them stand in their order.
-/

namespace HtapStack.Ranks

variable {α : Type} [LinearOrder α] {l : List α} {x y : α}

def rank (l : List α) (x : α) : Nat := l.countP fun y => decide (y < x)

theorem rank_le_of_le (l : List α) (h : x ≤ y) : rank l x ≤ rank l y := by
  refine List.countP_mono_left fun z _ hz => ?_
  exact decide_eq_true ((of_decide_eq_true hz).trans_le h)

theorem rank_cons (z : α) (l : List α) (x : α) : rank (z :: l) x = rank l x + if z < x then 1 else 0 := by
  simp [rank, List.countP_cons]

/-- The first of the list comes before everything else in it. -/
theorem rank_head (h : (x :: l).Pairwise (· < ·)) : rank (x :: l) x = 0 := by
  refine List.countP_eq_zero.2 fun y hy hlt => ?_
  obtain rfl | hy := List.mem_cons.1 hy
  · exact lt_irrefl _ (of_decide_eq_true hlt)
  · exact lt_asymm (of_decide_eq_true hlt) ((List.pairwise_cons.1 h).1 y hy)

theorem mem_take_iff (h : l.Pairwise (· < ·)) (hx : x ∈ l) (k : Nat) : x ∈ l.take k ↔ rank l x < k := by
  induction l generalizing k with
  | nil => cases hx
  | cons head l ih =>
    obtain ⟨hhead, hl⟩ := List.pairwise_cons.1 h
    cases k with
    | zero => simp
    | succ k =>
      obtain rfl | hx := List.mem_cons.1 hx
      · simp [rank_head h]
      · have hne : x ≠ head := (hhead x hx).ne'
        rw [List.take_succ_cons, List.mem_cons, rank_cons, if_pos (hhead x hx), Nat.add_lt_add_iff_right, ← ih hl hx k]
        simp [hne]

/-- Two elements of an ascending list stand in it in their order. -/
theorem pair_sublist (h : l.Pairwise (· < ·)) (hx : x ∈ l) (hy : y ∈ l) : [x, y].Sublist l ↔ x < y := by
  constructor
  · exact fun hsub => by simpa using h.sublist hsub
  · intro hlt
    induction l with
    | nil => cases hx
    | cons head l ih =>
      obtain ⟨hhead, hl⟩ := List.pairwise_cons.1 h
      obtain rfl | hxl := List.mem_cons.1 hx
      · obtain rfl | hyl := List.mem_cons.1 hy
        · exact absurd hlt (lt_irrefl _)
        · exact (List.singleton_sublist.2 hyl).cons_cons _
      · obtain rfl | hyl := List.mem_cons.1 hy
        · exact absurd hlt (hhead x hxl).not_gt
        · exact (ih hl hxl hyl).cons _

end HtapStack.Ranks
