import HtapStack.Lib.PyNum
import Mathlib.Data.List.Rotate
import Mathlib.Tactic.NormNum
/-!
# Zone proximity in the sink

The geometry of `ingress/consumer/consumer.py`, and `check_proximity`, which
scores a position against the zones in the cache.

A ring is a list of (lon, lat) pairs. The alerts that `check_proximity` writes are
in `Alerts.lean`.
-/

namespace HtapStack.Proximity
open Py

variable {F : Type} (A : Arith F)

/-- The edges of a ring, each from the vertex before: the last one's comes first. -/
def edgesInto (ring : List (F × F)) : List ((F × F) × (F × F)) := (ring.rotate (ring.length - 1)).zip ring

/-- The edges of a ring, each to the vertex after. -/
def edgesFrom (ring : List (F × F)) : List ((F × F) × (F × F)) := ring.zip (ring.rotate 1)

def mPerDegLat : ℚ := 111320

/-- Whether the ray goes through the edge, and so in or out. -/
def crossEdge (lat lon : F) (inside : Bool) (edge : (F × F) × (F × F)) : Except Exn Bool := do
  let (xj, yj) := edge.1
  let (xi, yi) := edge.2
  if A.lt lat yi != A.lt lat yj then
    let dx ← A.div (A.mul (A.sub xj xi) (A.sub lat yi)) (A.sub yj yi)
    return if A.lt lon (A.add xi dx) then !inside else inside
  else return inside

def pointInPolygon (lat lon : F) (polygon : List (F × F)) : Except Exn Bool :=
  if polygon.length < 3 then .ok false else (edgesInto polygon).foldlM (crossEdge A lat lon) false

/-- The nearest so far, with one more edge. `none` is infinity. -/
def nearestEdge (lat lon mPerDegLon : F) (nearest : Option F) (edge : (F × F) × (F × F)) :
    Except Exn (Option F) := do
  let (vlon, vlat) := edge.1
  let (nlon, nlat) := edge.2
  let ax := A.mul (A.sub vlon lon) mPerDegLon
  let ay := A.mul (A.sub vlat lat) (A.lit mPerDegLat)
  let bx := A.mul (A.sub nlon lon) mPerDegLon
  let «by» := A.mul (A.sub nlat lat) (A.lit mPerDegLat)
  let dx := A.sub bx ax
  let dy := A.sub «by» ay
  let lengthSq := A.add (A.mul dx dx) (A.mul dy dy)
  let t ← if A.eq lengthSq (A.lit 0) then pure (A.lit 0)
    else do
      let q ← A.div (A.neg (A.add (A.mul ax dx) (A.mul ay dy))) lengthSq
      pure (A.max (A.lit 0) (A.min (A.lit 1) q))
  let d := A.hypot (A.add ax (A.mul t dx)) (A.add ay (A.mul t dy))
  return match nearest with
    | some n => some (A.min n d)
    | none => if A.belowInf d then some d else none

def distanceToPolygonM (lat lon : F) (polygon : List (F × F)) : Except Exn (Option F) := do
  if polygon.length < 3 then return none
  if ← pointInPolygon A lat lon polygon then return some (A.lit 0)
  let cos ← A.cos (A.radians lat)
  let mPerDegLon := A.mul (A.lit mPerDegLat) (A.max cos (A.lit 0.01))
  (edgesFrom polygon).foldlM (nearestEdge A lat lon mPerDegLon) none

/-! ## Scoring a position -/

def warningDistanceM : ℚ := 500

def breachRiskThreshold : ℚ := 0.7

/-- A zone of the cache. -/
structure Zone (F : Type) where
  zoneId : String
  ring : List (F × F)

/-- A zone that is near: whether the position is inside, and its risk. -/
structure ZoneRisk (F : Type) where
  inside : Bool
  risk : F

/-- What one zone counts for, if it is near. -/
def zoneRisk (lat lon : F) (ring : List (F × F)) : Except Exn (Option (ZoneRisk F)) := do
  match ← distanceToPolygonM A lat lon ring with
  | none => return none
  | some distance =>
    if A.le (A.lit warningDistanceM) distance then return none
    else
      let inside := A.eq distance (A.lit 0)
      let risk ← if inside then pure (A.lit 0.95)
        else do
          let share ← A.div distance (A.lit warningDistanceM)
          pure (A.sub (A.lit 1) share)
      return some ⟨inside, risk⟩

/-- What `check_proximity` returns. -/
structure Score (F : Type) where
  nearZone : Bool
  predictedBreach : Bool
  riskScore : F
  nearestZoneId : Option String

def addZone (lat lon : F) (p : Score F) (zone : Zone F) : Except Exn (Score F) := do
  match ← zoneRisk A lat lon zone.ring with
  | none => return p
  | some z =>
    let worse := A.lt p.riskScore z.risk
    return {
      nearZone := true
      predictedBreach := p.predictedBreach || z.inside || A.lt (A.lit breachRiskThreshold) z.risk
      riskScore := if worse then z.risk else p.riskScore
      nearestZoneId := if worse then some zone.zoneId else p.nearestZoneId }

def checkProximity (zones : List (Zone F)) (lat lon : F) : Except Exn (Score F) :=
  zones.foldlM (addZone A lat lon) ⟨false, false, A.lit 0, none⟩

/-! ## When it raises -/

section
variable {A : Floats F} (hA : A.Lawful) {lat lon : F}
include hA

theorem returns_crossEdge (inside : Bool) (edge : (F × F) × (F × F)) :
    Returns (crossEdge A.toArith lat lon inside edge) := by
  obtain ⟨⟨xj, yj⟩, xi, yi⟩ := edge
  unfold crossEdge
  dsimp only
  split
  · rename_i hne
    have hapart : A.eq (A.sub yj yi) (A.lit 0) = false := hA.sub_ne_zero _ _ _ (by simpa using hne)
    exact ((hA.div_returns _ _).2 hapart).bind fun _ => returns_pure _
  · exact returns_pure _

variable (lat lon) in
theorem returns_pointInPolygon (polygon : List (F × F)) : Returns (pointInPolygon A.toArith lat lon polygon) := by
  unfold pointInPolygon
  split
  · exact returns_ok _
  · rw [returns_foldlM (p := fun _ => True) _ fun inside edge _ => iff_true_intro (returns_crossEdge hA inside edge)]
    exact fun _ _ => trivial

theorem returns_nearestEdge (mPerDegLon : F) (nearest : Option F) (edge : (F × F) × (F × F)) :
    Returns (nearestEdge A.toArith lat lon mPerDegLon nearest edge) := by
  obtain ⟨⟨vlon, vlat⟩, nlon, nlat⟩ := edge
  unfold nearestEdge
  dsimp only
  split
  · exact ⟨_, rfl⟩
  · rename_i hne
    exact ((hA.div_returns _ _).2 (by simpa using hne)).bind fun _ => ⟨_, rfl⟩

/-- A distance is found unless the latitude is infinite, of a ring that does not
contain the position. -/
theorem returns_distanceToPolygonM (polygon : List (F × F)) :
    Returns (distanceToPolygonM A.toArith lat lon polygon) ↔
      (A.infinite lat = true → polygon.length < 3 ∨ pointInPolygon A.toArith lat lon polygon = .ok true) := by
  obtain ⟨inside, hinside⟩ := returns_pointInPolygon hA lat lon polygon
  have hcos : Returns (A.cos (A.radians lat)) ↔ A.infinite lat = false := by
    rw [hA.cos_returns, hA.radians_infinite]
  unfold distanceToPolygonM
  by_cases hlen : polygon.length < 3
  · simp [hlen]
  · cases inside with
    | true => simp [hlen, hinside, ok_bind]
    | false =>
      have hfold (m : F) : Returns ((edgesFrom polygon).foldlM (nearestEdge A.toArith lat lon m) none) :=
        (returns_foldlM (p := fun _ => True) _ fun nearest edge _ =>
          iff_true_intro (returns_nearestEdge hA m nearest edge)).2 fun _ _ => trivial
      simp only [hlen, hinside, ok_bind, if_false]
      calc _ ↔ Returns (A.cos (A.radians lat)) ∧ True := returns_bind_and fun _ _ => iff_true_intro (hfold _)
        _ ↔ _ := by simp [hcos]

theorem returns_zoneRisk (ring : List (F × F)) : Returns (zoneRisk A.toArith lat lon ring) ↔
    Returns (distanceToPolygonM A.toArith lat lon ring) := by
  unfold zoneRisk
  rw [returns_bind_and (p := True) fun distance _ => iff_true_intro ?_, and_true]
  cases distance with
  | none => exact returns_pure _
  | some distance =>
    dsimp only
    split
    · exact returns_pure _
    · split
      · exact ⟨_, rfl⟩
      · exact ((hA.div_returns _ _).2 (hA.lit_ne_zero _ (by norm_num [warningDistanceM]))).bind fun _ => ⟨_, rfl⟩

/-- A position is scored unless its latitude is infinite and it is outside some zone. -/
theorem returns_checkProximity (zones : List (Zone F)) : Returns (checkProximity A.toArith zones lat lon) ↔
    ∀ zone ∈ zones, A.infinite lat = true →
      zone.ring.length < 3 ∨ pointInPolygon A.toArith lat lon zone.ring = .ok true := by
  refine returns_foldlM _ fun p zone _ => ?_
  rw [← returns_distanceToPolygonM hA, ← returns_zoneRisk hA]
  unfold addZone
  rw [returns_bind_and (p := True) fun z _ => iff_true_intro ?_, and_true]
  cases z <;> exact returns_pure _

end

end HtapStack.Proximity
