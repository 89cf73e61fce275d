import HtapStack.Lib.Ring
import HtapStack.Zones.Agreement
import Mathlib.Data.Nat.Bits
/-!
# Ray casting is an even-odd test

In exact arithmetic an edge is crossed or not whichever way it goes
(`crosses_comm`), so that the answer is the parity of a count around the ring
(`rayCast_eq`). `evenOdd`: of the sink's test and the backend's.
-/

namespace HtapStack.EvenOdd
open Py
open Agreement (cross rayCast)

/-- What an even-odd test answers: for a ring that a chord cuts in two, and for
the same ring written another way. -/
structure IsEvenOdd {K : Type} (inPolygon : List (K × K) → Except Exn Bool) : Prop where
  answers : ∀ ring, 3 ≤ ring.length → ∃ inside, inPolygon ring = .ok inside
  chord : ∀ a p b q c, b ≠ [] → a ++ c ≠ [] → ∃ near far,
    inPolygon (p :: b ++ [q]) = .ok near ∧ inPolygon (a ++ p :: q :: c) = .ok far ∧
      inPolygon (a ++ p :: b ++ q :: c) = .ok (near ^^ far)
  rotate : ∀ n ring, 3 ≤ ring.length → inPolygon (ring.rotate n) = inPolygon ring
  reverse : ∀ ring, 3 ≤ ring.length → inPolygon ring.reverse = inPolygon ring
  repeated : ∀ a p b, 3 ≤ (a ++ p :: b).length → inPolygon (a ++ p :: p :: b) = inPolygon (a ++ p :: b)
  closed : ∀ p l, 3 ≤ (p :: l).length → inPolygon (p :: l ++ [p]) = inPolygon (p :: l)

section
variable {K : Type} [Field K] [LinearOrder K] {lat lon : K}

/-- Whether the ray goes through the edge between the two. -/
def crosses (lat lon : K) (a b : K × K) : Bool :=
  (decide (lat < b.2) != decide (lat < a.2)) && decide (lon < b.1 + (a.1 - b.1) * (lat - b.2) / (a.2 - b.2))

theorem cross_eq (inside : Bool) (edge : (K × K) × (K × K)) :
    cross lat lon inside edge = (inside ^^ crosses lat lon edge.1 edge.2) := by
  unfold cross
  change (if crosses lat lon edge.1 edge.2 = true then !inside else inside) = _
  cases crosses lat lon edge.1 edge.2 <;> simp

theorem foldl_cross (inside : Bool) (edges : List ((K × K) × (K × K))) :
    edges.foldl (cross lat lon) inside =
      (inside ^^ (edges.countP fun e => crosses lat lon e.1 e.2).bodd) := by
  induction edges generalizing inside with
  | nil => simp
  | cons e edges ih =>
    rw [List.foldl_cons, ih, cross_eq, List.countP_cons, Nat.bodd_add, Bool.xor_assoc]
    cases crosses lat lon e.1 e.2 <;> simp

/-- The two vertices of an edge that is crossed are on different sides of the ray's
latitude, and so not level. -/
theorem crosses_comm (a b : K × K) : crosses lat lon a b = crosses lat lon b a := by
  unfold crosses
  by_cases hs : (decide (lat < b.2) != decide (lat < a.2)) = true
  · have hab : a.2 - b.2 ≠ 0 := by
      rw [sub_ne_zero]
      intro h
      simp [h] at hs
    have hba : b.2 - a.2 ≠ 0 := by
      rw [← neg_sub]
      exact neg_ne_zero.2 hab
    have hcross : b.1 + (a.1 - b.1) * (lat - b.2) / (a.2 - b.2) =
        a.1 + (b.1 - a.1) * (lat - a.2) / (b.2 - a.2) := by
      field_simp
      ring
    rw [hcross, bne_comm]
  · have hs' : ¬(decide (lat < a.2) != decide (lat < b.2)) = true := by rwa [bne_comm]
    rw [Bool.not_eq_true] at hs hs'
    rw [hs, hs', Bool.false_and, Bool.false_and]

theorem crosses_self (p : K × K) : crosses lat lon p p = false := by
  simp [crosses]

theorem rayCast_eq (ring : List (K × K)) :
    rayCast lat lon ring = (decide (3 ≤ ring.length) && (Ring.around (crosses lat lon) ring).bodd) := by
  rw [rayCast, foldl_cross, Bool.false_xor, Proximity.edgesInto, Ring.countP_zip_rotate]

theorem rayCast_ring {ring : List (K × K)} (h : 3 ≤ ring.length) :
    rayCast lat lon ring = (Ring.around (crosses lat lon) ring).bodd := by
  rw [rayCast_eq, decide_eq_true h, Bool.true_and]

theorem rayCast_chord {a b c : List (K × K)} {p q : K × K} (hb : b ≠ []) (hac : a ++ c ≠ []) :
    rayCast lat lon (a ++ p :: b ++ q :: c) =
      (rayCast lat lon (p :: b ++ [q]) ^^ rayCast lat lon (a ++ p :: q :: c)) := by
  have hb := List.length_pos_iff.2 hb
  have hac := List.length_pos_iff.2 hac
  simp only [List.length_append] at hac
  rw [rayCast_ring, rayCast_ring, rayCast_ring, ← Nat.bodd_add, Ring.around_chord crosses_comm]
  · simp
  all_goals
    simp only [List.length_append, List.length_cons, List.length_nil]
    omega

variable (hypot : K → K → K) (cos radians : K → K) (lat lon) in
theorem evenOdd_pointInPolygon : IsEvenOdd (Proximity.pointInPolygon (exact hypot cos radians) lat lon) := by
  have hpip (ring : List (K × K)) :
      Proximity.pointInPolygon (exact hypot cos radians) lat lon ring = .ok (rayCast lat lon ring) :=
    Agreement.pointInPolygon_exact
  simp only [funext hpip]
  constructor
  case answers => exact fun ring _ => ⟨_, rfl⟩
  case chord => exact fun a p b q c hb hac => ⟨_, _, rfl, rfl, congrArg _ (rayCast_chord hb hac)⟩
  case rotate =>
    intro n ring _
    rw [rayCast_eq, rayCast_eq, List.length_rotate, Ring.around_rotate]
  case reverse =>
    intro ring _
    rw [rayCast_eq, rayCast_eq, List.length_reverse, Ring.around_reverse crosses_comm]
  case repeated =>
    intro a p b h
    rw [rayCast_ring h, rayCast_ring (by simp only [List.length_append, List.length_cons] at h ⊢; omega),
      Ring.around_repeat (crosses_self p)]
  case closed =>
    intro p l h
    rw [rayCast_ring h, rayCast_ring (by simp only [List.length_append, List.length_cons] at h ⊢; omega),
      Ring.around_append_comm]
    exact congrArg (Except.ok <| Nat.bodd ·) (Ring.around_repeat (crosses_self p) [] l)

/-- The sink's and the backend's. -/
theorem evenOdd : IsEvenOdd (Proximity.pointInPolygon (exact hypot cos radians) lat lon) ∧
    IsEvenOdd (WhatIf.pointInPolygon (exact hypot cos radians) lat lon) := by
  rw [WhatIf.pointInPolygon_eq]
  exact ⟨evenOdd_pointInPolygon lat lon hypot cos radians, evenOdd_pointInPolygon lat lon hypot cos radians⟩

end

end HtapStack.EvenOdd
