import HtapStack.Lib.Calendar
import HtapStack.Sink.Proximity
/-!
# Speed and heading in the sink

`haversine_distance_m`, `compute_bearing_deg` and `DroneTracker.update` of
`ingress/consumer/consumer.py`: what a position derives from the one before it.

`returns_update`: an update raises only when the two positions do (`Movable`), and
`returns_checkProximity`: scoring a position raises only for an infinite latitude.
-/

namespace HtapStack.Tracker
open Py
open Calendar (Aware)

variable {F Id : Type} (A : Floats F)

def earthRadiusM : ℚ := 6371000

/-- The `a` of `haversine_distance_m`. -/
def haversine (lat1 lon1 lat2 lon2 : F) : Except Exn F := do
  let rlat1 := A.radians lat1
  let rlat2 := A.radians lat2
  let dlat := A.sub rlat2 rlat1
  let dlon := A.radians (A.sub lon2 lon1)
  let halfLat ← A.div dlat (A.lit 2)
  let sinLat ← A.sin halfLat
  let cos1 ← A.cos rlat1
  let cos2 ← A.cos rlat2
  let halfLon ← A.div dlon (A.lit 2)
  let sinLon ← A.sin halfLon
  return A.add (A.square sinLat) (A.mul (A.mul cos1 cos2) (A.square sinLon))

def haversineDistanceM (lat1 lon1 lat2 lon2 : F) : Except Exn F := do
  let a ← haversine A lat1 lon1 lat2 lon2
  let root ← A.sqrt a
  let angle ← A.asin (A.min (A.lit 1) root)
  return A.mul (A.lit (2 * earthRadiusM)) angle

def computeBearingDeg (lat1 lon1 lat2 lon2 : F) : Except Exn F := do
  let rlat1 := A.radians lat1
  let rlat2 := A.radians lat2
  let dlon := A.radians (A.sub lon2 lon1)
  let sinLon ← A.sin dlon
  let cos2 ← A.cos rlat2
  let x := A.mul sinLon cos2
  let cos1 ← A.cos rlat1
  let sin2 ← A.sin rlat2
  let sin1 ← A.sin rlat1
  let cosLon ← A.cos dlon
  let y := A.sub (A.mul cos1 sin2) (A.mul (A.mul sin1 cos2) cosLon)
  return A.mod360 (A.add (A.degrees (A.atan2 x y)) (A.lit 360))

def flyingAltitudeThresholdM : ℚ := 10

def maxPlausibleSpeedMps : ℚ := 100

/-- What the tracker keeps of an asset. Its first event leaves no speed and no heading. -/
structure Entry (F : Type) where
  lat : F
  lon : F
  alt : F
  time : Aware
  speed : Option F
  heading : Option F

/-- What an update returns. -/
structure Motion (F : Type) where
  speedMps : F
  headingDeg : F
  isFlying : Bool

/-- The seconds since the event before, never 0. -/
def elapsed (prev : Entry F) (time : Aware) : F :=
  let dt := A.totalSeconds (time.instant - prev.time.instant)
  if A.le dt (A.lit 0) then A.lit 0.001 else dt

/-- The new entry of an asset, and what is derived. -/
def derive (prev : Option (Entry F)) (lat lon alt : F) (time : Aware) : Except Exn (Entry F × Motion F) := do
  let isFlying := A.lt (A.lit flyingAltitudeThresholdM) alt
  match prev with
  | none => return (⟨lat, lon, alt, time, none, none⟩, ⟨A.lit 0, A.lit 0, isFlying⟩)
  | some prev =>
    let distM ← haversineDistanceM A prev.lat prev.lon lat lon
    let ratio ← A.div distM (elapsed A prev time)
    let speedMps := if A.lt (A.lit maxPlausibleSpeedMps) ratio then prev.speed.getD (A.lit 0) else ratio
    let headingDeg ← computeBearingDeg A prev.lat prev.lon lat lon
    return (⟨lat, lon, alt, time, some speedMps, some headingDeg⟩, ⟨speedMps, headingDeg, isFlying⟩)

/-- `DroneTracker.update`. -/
def update [DecidableEq Id] (state : Id → Option (Entry F)) (entityId : Id) (lat lon alt : F) (time : Aware) :
    Except Exn ((Id → Option (Entry F)) × Motion F) := do
  let (entry, motion) ← derive A (state entityId) lat lon alt time
  return (fun id => if id = entityId then some entry else state id, motion)

/-! ## What it depends on -/

/-- Entries that nothing derived tells apart. -/
def Alike : Option (Entry F) → Option (Entry F) → Prop
  | none, none => True
  | some p, some q => p.lat = q.lat ∧ p.lon = q.lon ∧ p.time = q.time ∧ p.speed.getD (A.lit 0) = q.speed.getD (A.lit 0)
  | _, _ => False

section
variable {A} {prev prev' : Option (Entry F)} {lat lon alt : F} {time : Aware}

theorem derive_congr (h : Alike A prev prev') : derive A prev lat lon alt time = derive A prev' lat lon alt time := by
  cases prev with
  | none =>
    cases prev' with
    | none => rfl
    | some _ => cases h
  | some p =>
    cases prev' with
    | none => cases h
    | some q =>
      obtain ⟨hlat, hlon, htime, hspeed⟩ := h
      simp only [derive, elapsed, hlat, hlon, htime, hspeed]

/-- The entry that an update leaves. -/
theorem derive_entry {entry : Entry F} {motion : Motion F} (h : derive A prev lat lon alt time = .ok (entry, motion)) :
    entry.lat = lat ∧ entry.lon = lon ∧ entry.time = time ∧ entry.speed.getD (A.lit 0) = motion.speedMps := by
  cases prev with
  | none =>
    cases h
    exact ⟨rfl, rfl, rfl, rfl⟩
  | some p =>
    obtain ⟨distM, -, h⟩ := bind_eq_ok.1 h
    obtain ⟨ratio, -, h⟩ := bind_eq_ok.1 h
    obtain ⟨heading, -, h⟩ := bind_eq_ok.1 h
    cases h
    exact ⟨rfl, rfl, rfl, rfl⟩

/-- Updates that derive the same speed leave entries alike. -/
theorem alike_of_speed {entry entry' : Entry F} {motion motion' : Motion F}
    (h : derive A prev lat lon alt time = .ok (entry, motion))
    (h' : derive A prev' lat lon alt time = .ok (entry', motion')) (hspeed : motion.speedMps = motion'.speedMps) :
    Alike A (some entry) (some entry') := by
  obtain ⟨hlat, hlon, htime, hentry⟩ := derive_entry h
  obtain ⟨hlat', hlon', htime', hentry'⟩ := derive_entry h'
  exact ⟨hlat.trans hlat'.symm, hlon.trans hlon'.symm, htime.trans htime'.symm,
    hentry.trans (hspeed.trans hentry'.symm)⟩

theorem derive_heading {p entry : Entry F} {motion : Motion F}
    (h : derive A (some p) lat lon alt time = .ok (entry, motion)) :
    computeBearingDeg A p.lat p.lon lat lon = .ok motion.headingDeg := by
  obtain ⟨distM, -, h⟩ := bind_eq_ok.1 h
  obtain ⟨ratio, -, h⟩ := bind_eq_ok.1 h
  obtain ⟨heading, hheading, h⟩ := bind_eq_ok.1 h
  cases h
  exact hheading

end

/-! ## When it raises -/

/-- A position that something can be derived from, after the one before: neither
latitude is infinite, nor the way between the longitudes, and the haversine of the
two is not negative, as it is only with a latitude beyond a pole. -/
structure Movable (prev : Entry F) (lat lon : F) : Prop where
  old : A.infinite prev.lat = false
  new : A.infinite lat = false
  apart : A.infinite (A.sub lon prev.lon) = false
  arc : ∀ a, haversine A prev.lat prev.lon lat lon = .ok a → A.lt a (A.lit 0) = false

variable {A} (hA : A.Lawful)
include hA

theorem div_two (x : F) : Returns (A.div x (A.lit 2)) :=
  (hA.div_returns _ _).2 (hA.lit_ne_zero 2 (by norm_num))

/-- The sine of half an angle, in front of what does not depend on it. -/
theorem returns_sin_half {β : Type} {x : F} {f : F → Except Exn β} {p : Prop} (h : ∀ s, Returns (f s) ↔ p) :
    Returns (do let half ← A.div x (A.lit 2); let s ← A.sin half; f s) ↔ A.infinite x = false ∧ p := by
  have hsin (half : F) (hhalf : A.div x (A.lit 2) = .ok half) :
      Returns (do let s ← A.sin half; f s) ↔ A.infinite x = false ∧ p := by
    rw [returns_bind_and fun s _ => h s, hA.sin_returns, hA.half_infinite x half hhalf]
  rw [returns_bind_and hsin]
  exact and_iff_right (div_two hA x)

section
variable {lat1 lon1 lat2 lon2 : F}

theorem returns_haversine : Returns (haversine A lat1 lon1 lat2 lon2) ↔
    A.infinite lat1 = false ∧ A.infinite lat2 = false ∧ A.infinite (A.sub lon2 lon1) = false := by
  have hmain : Returns (haversine A lat1 lon1 lat2 lon2) ↔
      A.infinite (A.sub (A.radians lat2) (A.radians lat1)) = false ∧ A.infinite (A.radians lat1) = false ∧
        A.infinite (A.radians lat2) = false ∧ A.infinite (A.radians (A.sub lon2 lon1)) = false ∧ True := by
    refine returns_sin_half hA fun sinLat => ?_
    rw [returns_bind_and fun cos1 _ => returns_bind_and fun cos2 _ => returns_sin_half hA fun _ =>
      iff_true_intro (returns_pure _), hA.cos_returns, hA.cos_returns]
  rw [hmain]
  simp only [hA.radians_infinite, and_true]
  constructor
  · rintro ⟨-, h⟩
    exact h
  · rintro ⟨h1, h2, h3⟩
    exact ⟨hA.sub_radians _ _ h2 h1, h1, h2, h3⟩

theorem returns_bearing (h1 : A.infinite lat1 = false) (h2 : A.infinite lat2 = false)
    (hlon : A.infinite (A.sub lon2 lon1) = false) : Returns (computeBearingDeg A lat1 lon1 lat2 lon2) := by
  have hsin (x : F) (hx : A.infinite x = false) : Returns (A.sin (A.radians x)) :=
    (hA.sin_returns _).2 (by rw [hA.radians_infinite, hx])
  have hcos (x : F) (hx : A.infinite x = false) : Returns (A.cos (A.radians x)) :=
    (hA.cos_returns _).2 (by rw [hA.radians_infinite, hx])
  unfold computeBearingDeg
  rw [returns_bind_and fun _ _ => returns_bind_and fun _ _ => returns_bind_and fun _ _ =>
    returns_bind_and fun _ _ => returns_bind_and fun _ _ => returns_bind_and fun _ _ =>
      iff_true_intro (returns_pure _)]
  exact ⟨hsin _ hlon, hcos _ h2, hcos _ h1, hsin _ h2, hsin _ h1, hcos _ hlon, trivial⟩

/-- `asin(min(1.0, root))` returns, also for a root that is no number. -/
theorem returns_asin {a root : F} (h : A.sqrt a = .ok root) : Returns (A.asin (A.min (A.lit 1) root)) := by
  have hone : A.lt (A.lit 1) (A.lit 0) = false := hA.lt_asymm _ _ hA.zero_lt_one
  refine hA.asin_returns _ ?_ ?_
  · unfold Arith.min
    split
    · exact hA.sqrt_nonneg _ _ h
    · exact hone
  · unfold Arith.min
    split
    · exact hA.lt_asymm _ _ ‹_›
    · cases hlt : A.lt (A.lit 1) (A.lit 1) with
      | false => rfl
      | true => cases hlt.symm.trans (hA.lt_asymm _ _ hlt)

variable (lat1 lon1 lat2 lon2) in
theorem returns_distance : Returns (haversineDistanceM A lat1 lon1 lat2 lon2) ↔
    (A.infinite lat1 = false ∧ A.infinite lat2 = false ∧ A.infinite (A.sub lon2 lon1) = false) ∧
      ∀ a, haversine A lat1 lon1 lat2 lon2 = .ok a → A.lt a (A.lit 0) = false := by
  rw [← returns_haversine hA]
  unfold haversineDistanceM
  constructor
  · intro h
    obtain ⟨a, ha, h⟩ := returns_bind.1 h
    obtain ⟨root, hroot, -⟩ := returns_bind.1 h
    refine ⟨⟨a, ha⟩, fun a' ha' => ?_⟩
    cases ha.symm.trans ha'
    exact (hA.sqrt_returns a).1 ⟨root, hroot⟩
  · rintro ⟨⟨a, ha⟩, hneg⟩
    obtain ⟨root, hroot⟩ := (hA.sqrt_returns a).2 (hneg a ha)
    obtain ⟨angle, hangle⟩ := returns_asin hA hroot
    exact returns_bind.2 ⟨a, ha, returns_bind.2 ⟨root, hroot, returns_bind.2 ⟨angle, hangle, returns_pure _⟩⟩⟩

end

theorem elapsed_ne_zero (prev : Entry F) (time : Aware) : A.eq (elapsed A prev time) (A.lit 0) = false := by
  unfold elapsed
  dsimp only
  split
  · exact hA.lit_ne_zero _ (by norm_num)
  · rename_i hle
    cases heq : A.eq (A.totalSeconds (time.instant - prev.time.instant)) (A.lit 0) with
    | false => rfl
    | true => exact absurd (hA.le_of_eq _ _ heq) hle

theorem returns_derive (prev : Option (Entry F)) (lat lon alt : F) (time : Aware) :
    Returns (derive A prev lat lon alt time) ↔ ∀ p ∈ prev, Movable A p lat lon := by
  cases prev with
  | none => simp [derive]
  | some p =>
    have hdist := returns_distance hA p.lat p.lon lat lon
    simp only [Option.mem_some_iff, forall_eq']
    constructor
    · intro h
      obtain ⟨d, hd, -⟩ := returns_bind.1 h
      obtain ⟨⟨hold, hnew, hapart⟩, harc⟩ := hdist.1 ⟨d, hd⟩
      exact ⟨hold, hnew, hapart, harc⟩
    · rintro ⟨hold, hnew, hapart, harc⟩
      obtain ⟨d, hd⟩ := hdist.2 ⟨⟨hold, hnew, hapart⟩, harc⟩
      obtain ⟨ratio, hratio⟩ := (hA.div_returns d _).2 (elapsed_ne_zero hA p time)
      obtain ⟨heading, hheading⟩ := returns_bearing hA hold hnew hapart
      exact returns_bind.2 ⟨d, hd, returns_bind.2 ⟨ratio, hratio, returns_bind.2 ⟨heading, hheading, returns_pure _⟩⟩⟩

theorem returns_update [DecidableEq Id] {state : Id → Option (Entry F)} {entityId : Id} {lat lon alt : F}
    {time : Aware} : Returns (update A state entityId lat lon alt time) ↔
      ∀ p ∈ state entityId, Movable A p lat lon := by
  rw [← returns_derive hA (state entityId) lat lon alt time]
  unfold update
  rw [returns_bind_and fun _ _ => iff_true_intro (returns_pure _), and_true]

end HtapStack.Tracker
