import HtapStack.Lib.Plane
import HtapStack.Zones.WhatIf
import Mathlib.Analysis.SpecialFunctions.Trigonometric.Basic
/-!
# Live alerting and the what-if page

The sink counts a position inside a zone when its distance is 0, the what-if page
when ray casting says so. In exact arithmetic:

- `distance_spec`: the distance is 0 inside by ray casting, and on the boundary.
- `agree_iff`: so the two agree on a position unless it lies on the ring and ray
  casting leaves it out. On what is near they always agree.
-/

namespace HtapStack.Agreement
open Py
open Proximity (edgesInto edgesFrom mPerDegLat)

/-! ## The code on exact numbers -/

section
variable {K : Type} [Field K] [LinearOrder K] [IsStrictOrderedRing K]
  {hypot : K → K → K} {cos radians : K → K} {lat lon : K} {ring : List (K × K)}

omit [Field K] [LinearOrder K] [IsStrictOrderedRing K] in
theorem foldlM_ok {B E : Type} {f : B → E → Except Exn B} {g : B → E → B}
    (h : ∀ b e, f b e = .ok (g b e)) (b : B) (es : List E) : es.foldlM f b = .ok (es.foldl g b) := by
  induction es generalizing b with
  | nil => rfl
  | cons e es ih =>
    rw [List.foldlM_cons, h]
    exact ih _

/-- `crossEdge`, on numbers that divide by everything but 0. -/
def cross (lat lon : K) (inside : Bool) (edge : (K × K) × (K × K)) : Bool :=
  if (decide (lat < edge.2.2) != decide (lat < edge.1.2)) &&
      decide (lon < edge.2.1 + (edge.1.1 - edge.2.1) * (lat - edge.2.2) / (edge.1.2 - edge.2.2)) then !inside
  else inside

/-- What `pointInPolygon` returns. -/
def rayCast (lat lon : K) (ring : List (K × K)) : Bool :=
  decide (3 ≤ ring.length) && (edgesInto ring).foldl (cross lat lon) false

omit [IsStrictOrderedRing K] in
theorem crossEdge_exact (inside : Bool) (edge : (K × K) × (K × K)) :
    Proximity.crossEdge (exact hypot cos radians) lat lon inside edge = .ok (cross lat lon inside edge) := by
  obtain ⟨⟨xj, yj⟩, xi, yi⟩ := edge
  simp only [Proximity.crossEdge, cross, exact_lt, exact_mul, exact_sub, exact_add]
  by_cases hs : (decide (lat < yi) != decide (lat < yj)) = true
  · -- An edge that straddles the ray is not level.
    have hne : yj - yi ≠ 0 := by
      rw [sub_ne_zero]
      rintro rfl
      simp at hs
    simp only [hs, if_true, exact_div _ hne, Bool.true_and, decide_eq_true_eq]
    rfl
  · simp only [hs, Bool.false_and]
    rfl

omit [IsStrictOrderedRing K] in
theorem pointInPolygon_exact :
    Proximity.pointInPolygon (exact hypot cos radians) lat lon ring = .ok (rayCast lat lon ring) := by
  unfold Proximity.pointInPolygon rayCast
  split
  · rw [decide_eq_false (by omega), Bool.false_and]
  · rw [decide_eq_true (by omega), Bool.true_and]
    exact foldlM_ok crossEdge_exact _ _

/-- An edge in metres about the position: where it begins, and its direction. -/
def inMetres (lat lon m : K) (edge : (K × K) × (K × K)) : (K × K) × (K × K) :=
  (((edge.1.1 - lon) * m, (edge.1.2 - lat) * mPerDegLat),
    ((edge.2.1 - lon) * m - (edge.1.1 - lon) * m, (edge.2.2 - lat) * mPerDegLat - (edge.1.2 - lat) * mPerDegLat))

/-- The distance to an edge. -/
def edgeDistance (hypot : K → K → K) (lat lon m : K) (edge : (K × K) × (K × K)) : K :=
  let (a, d) := inMetres lat lon m edge
  hypot (a.1 + Plane.foot a d * d.1) (a.2 + Plane.foot a d * d.2)

/-- The nearer of what was nearest so far and one more edge. -/
def nearer (hypot : K → K → K) (lat lon m : K) (nearest : Option K) (edge : (K × K) × (K × K)) : Option K :=
  some (nearest.elim (edgeDistance hypot lat lon m edge) (min · (edgeDistance hypot lat lon m edge)))

omit [IsStrictOrderedRing K] in
theorem nearestEdge_exact (m : K) (nearest : Option K) (edge : (K × K) × (K × K)) :
    Proximity.nearestEdge (exact hypot cos radians) lat lon m nearest edge =
      .ok (nearer hypot lat lon m nearest edge) := by
  by_cases hd : (inMetres lat lon m edge).2.1 * (inMetres lat lon m edge).2.1 +
      (inMetres lat lon m edge).2.2 * (inMetres lat lon m edge).2.2 = 0
  · simp only [inMetres] at hd
    cases nearest <;>
      simp [Proximity.nearestEdge, nearer, edgeDistance, inMetres, Plane.foot, hd, bind, Except.bind, pure, Except.pure]
  · simp only [inMetres] at hd
    cases nearest <;>
      simp [Proximity.nearestEdge, nearer, edgeDistance, inMetres, Plane.foot, hd, exact_div _ hd, bind,
        Except.bind, pure, Except.pure]

theorem mPerDegLat_ne_zero : (mPerDegLat : K) ≠ 0 := by
  simp [mPerDegLat]

variable (lat lon) in
omit [LinearOrder K] [IsStrictOrderedRing K] in
/-- The points of an edge in metres are those of the edge, in metres. -/
theorem inMetres_point (m s : K) (edge : (K × K) × (K × K)) :
    (inMetres lat lon m edge).1.1 + s * (inMetres lat lon m edge).2.1 =
        (edge.1.1 + s * (edge.2.1 - edge.1.1) - lon) * m ∧
      (inMetres lat lon m edge).1.2 + s * (inMetres lat lon m edge).2.2 =
        (edge.1.2 + s * (edge.2.2 - edge.1.2) - lat) * mPerDegLat := by
  constructor <;> (simp only [inMetres]; ring)

/-- An edge in metres goes through the origin where it goes through the position. -/
theorem inMetres_origin_iff {m s : K} (hm : m ≠ 0) (edge : (K × K) × (K × K)) :
    ((inMetres lat lon m edge).1.1 + s * (inMetres lat lon m edge).2.1 = 0 ∧
      (inMetres lat lon m edge).1.2 + s * (inMetres lat lon m edge).2.2 = 0) ↔
      edge.1.1 + s * (edge.2.1 - edge.1.1) = lon ∧ edge.1.2 + s * (edge.2.2 - edge.1.2) = lat := by
  rw [(inMetres_point lat lon m s edge).1, (inMetres_point lat lon m s edge).2, mul_eq_zero, mul_eq_zero,
    or_iff_left hm, or_iff_left mPerDegLat_ne_zero, sub_eq_zero, sub_eq_zero]

/-- The distance to an edge is 0 exactly on it. -/
theorem edgeDistance_eq_zero {m : K} (hm : m ≠ 0) (hzero : ∀ x y, hypot x y = 0 ↔ x = 0 ∧ y = 0)
    (edge : (K × K) × (K × K)) :
    edgeDistance hypot lat lon m edge = 0 ↔ (lon, lat) ∈ segment K edge.1 edge.2 := by
  rw [edgeDistance, hzero, Plane.foot_eq_origin_iff, Plane.mem_segment_iff]
  simp only [inMetres_origin_iff hm]

variable (lat lon) in
omit [IsStrictOrderedRing K] in
theorem edgeDistance_nonneg (hnonneg : ∀ x y, 0 ≤ hypot x y) (m : K) (edge : (K × K) × (K × K)) :
    0 ≤ edgeDistance hypot lat lon m edge := hnonneg _ _

variable (hypot lat lon) in
omit [IsStrictOrderedRing K] in
/-- The fold finds the least of what it starts from and the distances to the edges. -/
theorem nearest_min (m n : K) (edges : List ((K × K) × (K × K))) :
    ∃ d, edges.foldl (nearer hypot lat lon m) (some n) = some d ∧
      (d ≤ n ∧ ∀ edge ∈ edges, d ≤ edgeDistance hypot lat lon m edge) ∧
      (d = n ∨ ∃ edge ∈ edges, d = edgeDistance hypot lat lon m edge) := by
  induction edges generalizing n with
  | nil => exact ⟨n, rfl, by simp⟩
  | cons edge edges ih =>
    obtain ⟨d, hd, ⟨hn, hle⟩, hat⟩ := ih (min n (edgeDistance hypot lat lon m edge))
    obtain ⟨hn, he⟩ := le_min_iff.1 hn
    refine ⟨d, hd, ⟨hn, List.forall_mem_cons.2 ⟨he, hle⟩⟩, ?_⟩
    rcases hat with hat | ⟨e, hmem, hat⟩
    · rcases min_choice n (edgeDistance hypot lat lon m edge) with h | h
      · exact .inl (hat.trans h)
      · exact .inr ⟨edge, List.mem_cons_self, hat.trans h⟩
    · exact .inr ⟨e, List.mem_cons_of_mem _ hmem, hat⟩

/-- Metres to the degree of longitude, at the position's latitude. -/
def mPerDegLon (cos radians : K → K) (lat : K) : K := (mPerDegLat : K) * max (cos (radians lat)) (0.01 : ℚ)

variable (cos radians lat) in
theorem mPerDegLon_pos : 0 < mPerDegLon cos radians lat := by
  refine mul_pos ?_ (lt_max_of_lt_right ?_)
  · norm_num [mPerDegLat]
  · norm_num

variable (hypot cos radians lat lon) in
omit [IsStrictOrderedRing K] in
/-- The distance to a ring: 0 inside it by ray casting, and else that of the nearest edge. -/
theorem distance_exact (hring : 3 ≤ ring.length) :
    ∃ d, Proximity.distanceToPolygonM (exact hypot cos radians) lat lon ring = .ok (some d) ∧
      (rayCast lat lon ring = true → d = 0) ∧ (rayCast lat lon ring = false →
        (∀ edge ∈ edgesFrom ring, d ≤ edgeDistance hypot lat lon (mPerDegLon cos radians lat) edge) ∧
        ∃ edge ∈ edgesFrom ring, d = edgeDistance hypot lat lon (mPerDegLon cos radians lat) edge) := by
  simp only [Proximity.distanceToPolygonM, pointInPolygon_exact, if_neg (show ¬ ring.length < 3 by omega)]
  cases hcast : rayCast lat lon ring with
  | true => exact ⟨0, by simp [bind, Except.bind, pure, Except.pure], by simp, by simp⟩
  | false =>
    -- The first edge takes the place of infinity.
    obtain ⟨first, rest, hedges⟩ : ∃ first rest, edgesFrom ring = first :: rest := by
      cases hr : edgesFrom ring with
      | nil =>
        have : ring.length = 0 := by simpa [edgesFrom] using congrArg List.length hr
        omega
      | cons first rest => exact ⟨first, rest, rfl⟩
    obtain ⟨d, hd, ⟨hfirst, hrest⟩, hat⟩ := nearest_min hypot lat lon (mPerDegLon cos radians lat)
      (edgeDistance hypot lat lon (mPerDegLon cos radians lat) first) rest
    refine ⟨d, ?_, by simp, fun _ => ?_⟩
    · simp only [exact_radians, exact_cos, exact_lit, exact_mul, exact_max, bind, Except.bind]
      rw [foldlM_ok (nearestEdge_exact _), hedges]
      exact congrArg Except.ok hd
    · rw [hedges, List.forall_mem_cons]
      refine ⟨⟨hfirst, hrest⟩, ?_⟩
      rcases hat with hat | ⟨edge, hmem, hat⟩
      · exact ⟨first, List.mem_cons_self, hat⟩
      · exact ⟨edge, List.mem_cons_of_mem _ hmem, hat⟩

/-- On the ring: on one of its edges. -/
def OnBoundary (lat lon : K) (ring : List (K × K)) : Prop :=
  ∃ edge ∈ edgesFrom ring, (lon, lat) ∈ segment K edge.1 edge.2

variable (cos radians lat lon) in
/-- The distance to a ring is 0 inside it by ray casting, and on it. -/
theorem distance_spec (hnonneg : ∀ x y, 0 ≤ hypot x y) (hzero : ∀ x y, hypot x y = 0 ↔ x = 0 ∧ y = 0)
    (hring : 3 ≤ ring.length) : ∃ d, 0 ≤ d ∧
      Proximity.distanceToPolygonM (exact hypot cos radians) lat lon ring = .ok (some d) ∧
      (d = 0 ↔ rayCast lat lon ring = true ∨ OnBoundary lat lon ring) := by
  obtain ⟨d, hd, hinside, houtside⟩ := distance_exact hypot cos radians lat lon hring
  have hm := (mPerDegLon_pos cos radians lat).ne'
  cases hcast : rayCast lat lon ring with
  | true => exact ⟨d, (hinside hcast).ge, hd, by simp [hinside hcast]⟩
  | false =>
    obtain ⟨hle, edge, hmem, hat⟩ := houtside hcast
    have h0 : 0 ≤ d := hat ▸ edgeDistance_nonneg lat lon hnonneg _ edge
    refine ⟨d, h0, hd, ?_⟩
    constructor
    · intro hd0
      exact .inr ⟨edge, hmem, (edgeDistance_eq_zero hm hzero edge).1 (hat.symm.trans hd0)⟩
    · rintro (h | ⟨e, he, hon⟩)
      · cases h
      · exact h0.antisymm' ((hle e he).trans_eq ((edgeDistance_eq_zero hm hzero e).2 hon))

/-! ## The two verdicts -/

/-- The sink counts the position inside. -/
def SinkInside (sink : Option (Proximity.ZoneRisk K)) : Prop := ∃ z, sink = some z ∧ z.inside = true

/-- The risk of a zone that is near. -/
def risk (d : K) : K := if d = 0 then (0.95 : ℚ) else 1 - d / 500

theorem zoneRisk_exact {d : K}
    (hd : Proximity.distanceToPolygonM (exact hypot cos radians) lat lon ring = .ok (some d)) :
    Proximity.zoneRisk (exact hypot cos radians) lat lon ring =
      .ok (if d < 500 then some ⟨decide (d = 0), risk d⟩ else none) := by
  have h500 : ((Proximity.warningDistanceM : ℚ) : K) = 500 := by simp [Proximity.warningDistanceM]
  have hne : (500 : K) ≠ 0 := by simp
  simp only [Proximity.zoneRisk, hd, exact_le, exact_eq, exact_lit, exact_sub, h500, Rat.cast_zero, Rat.cast_one,
    exact_div _ hne, bind, Except.bind, decide_eq_true_eq, ← not_lt, ite_not, pure, Except.pure, risk]
  by_cases hnear : d < 500
  · by_cases h0 : d = 0 <;> simp [hnear, h0]
  · simp [hnear]

omit [IsStrictOrderedRing K] in
theorem verdict_exact {d : K}
    (hd : Proximity.distanceToPolygonM (exact hypot cos radians) lat lon ring = .ok (some d)) :
    WhatIf.verdict (exact hypot cos radians) lat lon ring =
      .ok (if rayCast lat lon ring then some true else if d < 500 then some false else none) := by
  have h500 : ((WhatIf.warningDistanceM : ℚ) : K) = 500 := by simp [WhatIf.warningDistanceM]
  simp only [WhatIf.verdict, WhatIf.pointInPolygon_eq, WhatIf.distanceToPolygonM_eq, pointInPolygon_exact, hd,
    exact_lt, exact_lit, h500, bind, Except.bind, pure, Except.pure, decide_eq_true_eq]
  split <;> rfl

variable (cos radians lat lon) in
/-- What each of the two makes of a position. -/
theorem verdicts (hnonneg : ∀ x y, 0 ≤ hypot x y) (hzero : ∀ x y, hypot x y = 0 ↔ x = 0 ∧ y = 0)
    (hring : 3 ≤ ring.length) : ∃ sink whatIf,
      Proximity.zoneRisk (exact hypot cos radians) lat lon ring = .ok sink ∧
      WhatIf.verdict (exact hypot cos radians) lat lon ring = .ok whatIf ∧
      (SinkInside sink ↔ rayCast lat lon ring = true ∨ OnBoundary lat lon ring) ∧
      (whatIf = some true ↔ rayCast lat lon ring = true) ∧ (sink.isSome ↔ whatIf.isSome) := by
  obtain ⟨d, h0, hd, hiff⟩ :=
    distance_spec cos radians lat lon hnonneg hzero hring
  have hin : SinkInside (if d < 500 then some ⟨decide (d = 0), risk d⟩ else none) ↔ d = 0 := by
    by_cases hnear : d < 500
    · simp [SinkInside, hnear]
    · have h0 : d ≠ 0 := by
        rintro rfl
        exact hnear (by norm_num)
      simp [SinkInside, hnear, h0]
  refine ⟨_, _, zoneRisk_exact hd, verdict_exact hd, hin.trans hiff, ?_, ?_⟩
  · cases rayCast lat lon ring <;> simp [ite_eq_iff]
  · cases hcast : rayCast lat lon ring with
    | true =>
      -- Inside by ray casting is at distance 0.
      obtain rfl := hiff.2 (.inl hcast)
      simp
    | false => by_cases h : d < 500 <;> simp [h]

/-- The two count a position alike: inside, and near. -/
def Agree (A : Arith K) (lat lon : K) (ring : List (K × K)) : Prop := ∃ sink whatIf,
  Proximity.zoneRisk A lat lon ring = .ok sink ∧ WhatIf.verdict A lat lon ring = .ok whatIf ∧
    (SinkInside sink ↔ whatIf = some true) ∧ (sink.isSome ↔ whatIf.isSome)

/-- They do so unless the position lies on the ring and ray casting leaves it out. -/
theorem agree_iff (hnonneg : ∀ x y, 0 ≤ hypot x y) (hzero : ∀ x y, hypot x y = 0 ↔ x = 0 ∧ y = 0)
    (hring : 3 ≤ ring.length) : Agree (exact hypot cos radians) lat lon ring ↔
      (OnBoundary lat lon ring →
        WhatIf.pointInPolygon (exact hypot cos radians) lat lon ring = .ok true) := by
  obtain ⟨sink, whatIf, hsink, hwhatIf, hin, hcast, hnear⟩ :=
    verdicts cos radians lat lon hnonneg hzero hring
  rw [WhatIf.pointInPolygon_eq, pointInPolygon_exact, Except.ok.injEq, ← hcast]
  constructor
  · rintro ⟨sink', whatIf', hsink', hwhatIf', hiff, -⟩ hon
    cases hsink.symm.trans hsink'
    cases hwhatIf.symm.trans hwhatIf'
    exact hiff.1 (hin.2 (.inr hon))
  · intro h
    refine ⟨sink, whatIf, hsink, hwhatIf, hin.trans ?_, hnear⟩
    rw [← hcast]
    exact or_iff_left_of_imp h

end

/-! ## Real numbers -/

/-- Python's `math`, exactly. -/
noncomputable def real : Arith ℝ :=
  exact (fun x y => √(x * x + y * y)) Real.cos (fun degrees => degrees * (Real.pi / 180))

theorem real_nonneg (x y : ℝ) : 0 ≤ √(x * x + y * y) := Real.sqrt_nonneg _

theorem real_zero (x y : ℝ) : √(x * x + y * y) = 0 ↔ x = 0 ∧ y = 0 := by
  rw [Real.sqrt_eq_zero (add_nonneg (mul_self_nonneg x) (mul_self_nonneg y))]
  constructor
  · intro h
    exact ⟨by nlinarith only [h, mul_self_nonneg x, mul_self_nonneg y],
      by nlinarith only [h, mul_self_nonneg x, mul_self_nonneg y]⟩
  · rintro ⟨rfl, rfl⟩
    simp

/-- A triangle with its apex to the north. -/
def triangle : List (ℝ × ℝ) := [(10, 59), (12, 59), (11, 60)]

theorem agree_iff_centre : 3 ≤ triangle.length ∧
    (Agree real 59.5 11 triangle ↔
      (OnBoundary 59.5 11 triangle → WhatIf.pointInPolygon real 59.5 11 triangle = .ok true)) :=
  ⟨by decide, agree_iff real_nonneg real_zero (by decide)⟩

/-- At its apex the distance is 0, and ray casting leaves it out. -/
theorem apex_disagrees :
    ¬ ∀ (lat lon : ℝ) (ring : List (ℝ × ℝ)), 3 ≤ ring.length → Agree real lat lon ring := by
  intro h
  have hon : OnBoundary (60 : ℝ) 11 triangle :=
    ⟨((12, 59), (11, 60)), by simp [edgesFrom, triangle], right_mem_segment ..⟩
  have hout : rayCast (60 : ℝ) 11 triangle = false := by
    norm_num [rayCast, edgesInto, triangle, cross]
  obtain ⟨sink, whatIf, hsink, hwhatIf, hin, hcast, -⟩ :=
    verdicts Real.cos (fun degrees => degrees * (Real.pi / 180)) (60 : ℝ) 11 real_nonneg real_zero
      (show 3 ≤ triangle.length by decide)
  obtain ⟨sink', whatIf', hsink', hwhatIf', hiff, -⟩ := h 60 11 triangle (by decide)
  cases hsink.symm.trans hsink'
  cases hwhatIf.symm.trans hwhatIf'
  rw [hcast.1 (hiff.1 (hin.2 (.inr hon)))] at hout
  cases hout

end HtapStack.Agreement
