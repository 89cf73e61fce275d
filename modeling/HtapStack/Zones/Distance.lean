import HtapStack.Zones.Agreement
/-!
# The distance to a ring

In exact arithmetic, in metres about the position: the sink's function and the
backend's both find the distance to the nearest point of the ring's edges, or 0
inside (`true_distance`).
-/

namespace HtapStack.Distance
open Py
open Agreement (rayCast inMetres edgeDistance mPerDegLon)
open Proximity (edgesFrom mPerDegLat)

section
variable {K : Type} [Field K] [LinearOrder K] [IsStrictOrderedRing K]
  {hypot : K → K → K} {cos radians : K → K} {lat lon : K} {ring : List (K × K)}

/-- The square of a point's distance, with `m` metres to the degree of longitude. -/
def distanceSq (m lat lon : K) (p : K × K) : K :=
  (p.1 - lon) * m * ((p.1 - lon) * m) + (p.2 - lat) * mPerDegLat * ((p.2 - lat) * mPerDegLat)

/-- `d` is the distance to the nearest point of the ring's edges. -/
def IsDistance (m lat lon : K) (ring : List (K × K)) (d : K) : Prop :=
  0 ≤ d ∧ (∀ edge ∈ edgesFrom ring, ∀ p ∈ segment K edge.1 edge.2, d * d ≤ distanceSq m lat lon p) ∧
    ∃ edge ∈ edgesFrom ring, ∃ p ∈ segment K edge.1 edge.2, d * d = distanceSq m lat lon p

variable (lat lon) in
/-- No point of an edge is nearer than its distance, and one is at that distance. -/
theorem edgeDistance_spec (hsq : ∀ x y, hypot x y * hypot x y = x * x + y * y) (m : K) (edge : (K × K) × (K × K)) :
    (∀ p ∈ segment K edge.1 edge.2,
      edgeDistance hypot lat lon m edge * edgeDistance hypot lat lon m edge ≤ distanceSq m lat lon p) ∧
    ∃ p ∈ segment K edge.1 edge.2,
      edgeDistance hypot lat lon m edge * edgeDistance hypot lat lon m edge = distanceSq m lat lon p := by
  rcases hin : inMetres lat lon m edge with ⟨a, d⟩
  have hpoint (s : K) : (a.1 + s * d.1) * (a.1 + s * d.1) + (a.2 + s * d.2) * (a.2 + s * d.2) =
      distanceSq m lat lon (edge.1.1 + s * (edge.2.1 - edge.1.1), edge.1.2 + s * (edge.2.2 - edge.1.2)) := by
    have hxy := Agreement.inMetres_point lat lon m s edge
    rw [hin] at hxy
    rw [hxy.1, hxy.2]
    rfl
  have hfoot : edgeDistance hypot lat lon m edge * edgeDistance hypot lat lon m edge =
      (a.1 + Plane.foot a d * d.1) * (a.1 + Plane.foot a d * d.1) +
        (a.2 + Plane.foot a d * d.2) * (a.2 + Plane.foot a d * d.2) := by
    rw [edgeDistance, hin, hsq]
  rw [hfoot]
  constructor
  · intro p hp
    obtain ⟨s, h0, h1, hx, hy⟩ := Plane.mem_segment_iff.1 hp
    rw [← Prod.mk.eta (p := p), ← hx, ← hy, ← hpoint]
    exact Plane.foot_nearest a d h0 h1
  · refine ⟨_, Plane.mem_segment_iff.2 ⟨Plane.foot a d, ?_, ?_, rfl, rfl⟩, hpoint _⟩
    · exact (Plane.foot_mem a d).1
    · exact (Plane.foot_mem a d).2

theorem isDistance_of_edges (hnonneg : ∀ x y, 0 ≤ hypot x y)
    (hsq : ∀ x y, hypot x y * hypot x y = x * x + y * y) {m d : K}
    (hle : ∀ edge ∈ edgesFrom ring, d ≤ edgeDistance hypot lat lon m edge)
    (hat : ∃ edge ∈ edgesFrom ring, d = edgeDistance hypot lat lon m edge) : IsDistance m lat lon ring d := by
  obtain ⟨nearest, hmem, hd⟩ := hat
  have h0 : 0 ≤ d := hd ▸ Agreement.edgeDistance_nonneg lat lon hnonneg m nearest
  refine ⟨h0, ?_, ?_⟩
  · intro edge he p hp
    have hd := hle edge he
    exact (mul_le_mul hd hd h0 (h0.trans hd)).trans ((edgeDistance_spec lat lon hsq m edge).1 p hp)
  · obtain ⟨p, hp, heq⟩ := (edgeDistance_spec lat lon hsq m nearest).2
    exact ⟨nearest, hmem, p, hp, by rw [hd, heq]⟩

variable (cos radians lat lon) in
/-- The sink's function and the backend's: 0 inside, and else the distance to the
nearest point of the ring's edges. -/
theorem true_distance (hnonneg : ∀ x y, 0 ≤ hypot x y) (hsq : ∀ x y, hypot x y * hypot x y = x * x + y * y)
    (hring : 3 ≤ ring.length) : ∃ d inside,
      Proximity.distanceToPolygonM (exact hypot cos radians) lat lon ring = .ok (some d) ∧
      WhatIf.distanceToPolygonM (exact hypot cos radians) lat lon ring = .ok (some d) ∧
      Proximity.pointInPolygon (exact hypot cos radians) lat lon ring = .ok inside ∧
      0 < mPerDegLon cos radians lat ∧
      if inside then d = 0 else IsDistance (mPerDegLon cos radians lat) lat lon ring d := by
  obtain ⟨d, hd, hinside, houtside⟩ := Agreement.distance_exact hypot cos radians lat lon hring
  refine ⟨d, rayCast lat lon ring, hd, ?_, Agreement.pointInPolygon_exact, Agreement.mPerDegLon_pos .., ?_⟩
  · rw [WhatIf.distanceToPolygonM_eq, hd]
  · cases hcast : rayCast lat lon ring with
    | true => exact hinside hcast
    | false => exact isDistance_of_edges hnonneg hsq (houtside hcast).1 (houtside hcast).2

end

theorem real_sq (x y : ℝ) : √(x * x + y * y) * √(x * x + y * y) = x * x + y * y :=
  Real.mul_self_sqrt (add_nonneg (mul_self_nonneg x) (mul_self_nonneg y))

open Agreement (real triangle real_nonneg) in
theorem true_distance_north : ∃ d inside,
    Proximity.distanceToPolygonM real 61 11 triangle = .ok (some d) ∧
    WhatIf.distanceToPolygonM real 61 11 triangle = .ok (some d) ∧
    Proximity.pointInPolygon real 61 11 triangle = .ok inside ∧
    0 < mPerDegLon Real.cos (fun degrees => degrees * (Real.pi / 180)) 61 ∧
    if inside then d = 0
    else IsDistance (mPerDegLon Real.cos (fun degrees => degrees * (Real.pi / 180)) 61) 61 11 triangle d :=
  true_distance Real.cos _ 61 11 real_nonneg real_sq (by decide)

end HtapStack.Distance
