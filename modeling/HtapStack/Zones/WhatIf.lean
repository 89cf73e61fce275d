import HtapStack.Sink.Proximity
/-!
# The what-if page

The backend has its own copy of the sink's geometry (`backend/app/utils/geometry.py`),
and `what_if_zone` of `backend/app/routes/zones.py` combines it in its own way.

`pointInPolygon_eq`, `distanceToPolygonM_eq`: the copies compute the same, in any
arithmetic.
-/

namespace HtapStack.WhatIf
open Py
open Proximity (edgesInto edgesFrom mPerDegLat)

variable {F : Type} (A : Arith F)

/-! ## The backend's geometry -/

def crossEdge (lat lon : F) (inside : Bool) (edge : (F × F) × (F × F)) : Except Exn Bool := do
  let (xj, yj) := edge.1
  let (xi, yi) := edge.2
  if A.lt lat yi != A.lt lat yj then
    let dx ← A.div (A.mul (A.sub xj xi) (A.sub lat yi)) (A.sub yj yi)
    let xAtLat := A.add xi dx
    return if A.lt lon xAtLat then !inside else inside
  else return inside

def pointInPolygon (lat lon : F) (polygon : List (F × F)) : Except Exn Bool :=
  if polygon.length < 3 then .ok false else (edgesInto polygon).foldlM (crossEdge A lat lon) false

/-- A point in metres about the position. -/
def toXy (lat lon mPerDegLon : F) (p : F × F) : F × F :=
  (A.mul (A.sub p.1 lon) mPerDegLon, A.mul (A.sub p.2 lat) (A.lit mPerDegLat))

def nearestEdge (lat lon mPerDegLon : F) (nearest : Option F) (edge : (F × F) × (F × F)) :
    Except Exn (Option F) := do
  let (ax, ay) := toXy A lat lon mPerDegLon edge.1
  let (bx, «by») := toXy A lat lon mPerDegLon edge.2
  let dx := A.sub bx ax
  let dy := A.sub «by» ay
  let segLenSq := A.add (A.mul dx dx) (A.mul dy dy)
  let t ← if A.eq segLenSq (A.lit 0) then pure (A.lit 0)
    else do
      let q ← A.div (A.neg (A.add (A.mul ax dx) (A.mul ay dy))) segLenSq
      pure (A.max (A.lit 0) (A.min (A.lit 1) q))
  let px := A.add ax (A.mul t dx)
  let py := A.add ay (A.mul t dy)
  return match nearest with
    | some n => some (A.min n (A.hypot px py))
    | none => if A.belowInf (A.hypot px py) then some (A.hypot px py) else none

def distanceToPolygonM (lat lon : F) (polygon : List (F × F)) : Except Exn (Option F) := do
  if polygon.length < 3 then return none
  if ← pointInPolygon A lat lon polygon then return some (A.lit 0)
  let cos ← A.cos (A.radians lat)
  let mPerDegLon := A.mul (A.lit mPerDegLat) (A.max cos (A.lit 0.01))
  (edgesFrom polygon).foldlM (nearestEdge A lat lon mPerDegLon) none

theorem pointInPolygon_eq : pointInPolygon A = Proximity.pointInPolygon A := rfl

theorem distanceToPolygonM_eq : distanceToPolygonM A = Proximity.distanceToPolygonM A := rfl

/-! ## The simulation -/

def warningDistanceM : ℚ := 500

/-- How a drone is counted: inside, nearby (`some false`) or not at all. -/
def verdict (lat lon : F) (polygon : List (F × F)) : Except Exn (Option Bool) := do
  if ← pointInPolygon A lat lon polygon then return some true
  match ← distanceToPolygonM A lat lon polygon with
  | some d => return if A.lt d (A.lit warningDistanceM) then some false else none
  | none => return none

structure Drone (F : Type) where
  entityId : String
  latitude : Option F
  longitude : Option F

structure WhatIfResponse where
  dronesInside : Nat
  dronesNearby : Nat
  affectedDroneIds : List String

def addDrone (polygon : List (F × F)) (found : List String × List String) (d : Drone F) :
    Except Exn (List String × List String) :=
  match d.latitude, d.longitude with
  | some lat, some lon => do
    match ← verdict A lat lon polygon with
    | some true => return (found.1 ++ [d.entityId], found.2)
    | some false => return (found.1, found.2 ++ [d.entityId])
    | none => return found
  | _, _ => return found

/-- The counts of `what_if_zone`, for a polygon that could be parsed. -/
def whatIfZone (drones : List (Drone F)) (polygon : List (F × F)) : Except Exn WhatIfResponse := do
  let (inside, nearby) ← drones.foldlM (addDrone A polygon) ([], [])
  return ⟨inside.length, nearby.length, inside ++ nearby⟩

end HtapStack.WhatIf
