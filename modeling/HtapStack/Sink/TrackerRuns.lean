import HtapStack.Lib.Keyed
import HtapStack.Lib.PyReal
import HtapStack.Sink.Tracker
/-!
# The tracker over many assets

`DroneTracker` of `ingress/consumer/consumer.py` over any sequence of events, with the
distance a parameter; `update_eq` puts `haversine_distance_m` in its place.

`track_eq`: the tracker is a cell for each asset. `assets_isolated`: so each asset's
speeds, headings and entry are those of its own events, and no speed leaves its range.
-/

namespace HtapStack.TrackerRuns
open Py Tracker
open Calendar (Aware)

variable {F Id : Type} (A : Floats F) (distance : F → F → F → F → Except Exn F)

/-- `Tracker.derive` by a given distance. -/
def deriveBy (prev : Option (Entry F)) (lat lon alt : F) (time : Aware) : Except Exn (Entry F × Motion F) := do
  let isFlying := A.lt (A.lit flyingAltitudeThresholdM) alt
  match prev with
  | none => return (⟨lat, lon, alt, time, none, none⟩, ⟨A.lit 0, A.lit 0, isFlying⟩)
  | some prev =>
    let distM ← distance prev.lat prev.lon lat lon
    let ratio ← A.div distM (elapsed A prev time)
    let speedMps := if A.lt (A.lit maxPlausibleSpeedMps) ratio then prev.speed.getD (A.lit 0) else ratio
    let headingDeg ← computeBearingDeg A prev.lat prev.lon lat lon
    return (⟨lat, lon, alt, time, some speedMps, some headingDeg⟩, ⟨speedMps, headingDeg, isFlying⟩)

/-- `DroneTracker.update` by a given distance. -/
def updateBy [DecidableEq Id] (state : Id → Option (Entry F)) (entityId : Id) (lat lon alt : F) (time : Aware) :
    Except Exn ((Id → Option (Entry F)) × Motion F) := do
  let (entry, motion) ← deriveBy A distance (state entityId) lat lon alt time
  return (fun id => if id = entityId then some entry else state id, motion)

theorem update_eq [DecidableEq Id] (state : Id → Option (Entry F)) (entityId : Id) (lat lon alt : F) (time : Aware) :
    update A state entityId lat lon alt time =
      updateBy A (haversineDistanceM A) state entityId lat lon alt time := rfl

/-! ## Runs -/

structure Event (Id F : Type) where
  entityId : Id
  lat : F
  lon : F
  alt : F
  time : Aware

/-- One call. What raises leaves the tracker as it was. -/
def track [DecidableEq Id] (state : Id → Option (Entry F)) (e : Event Id F) : (Id → Option (Entry F)) × Except Exn (Motion F) :=
  match updateBy A distance state e.entityId e.lat e.lon e.alt e.time with
  | .ok (state, motion) => (state, .ok motion)
  | .error x => (state, .error x)

/-- `_state` after the events, from an empty tracker. -/
def state [DecidableEq Id] (events : List (Event Id F)) : Id → Option (Entry F) :=
  (Keyed.run (track A distance) (fun _ => none) events).1

/-- Each event, with what its call returns or raises. -/
def calls [DecidableEq Id] (events : List (Event Id F)) : List (Event Id F × Except Exn (Motion F)) :=
  (Keyed.run (track A distance) (fun _ => none) events).2

/-- The call on one asset's entry. -/
def trackOne (prev : Option (Entry F)) (e : Event Id F) : Option (Entry F) × Except Exn (Motion F) :=
  match deriveBy A distance prev e.lat e.lon e.alt e.time with
  | .ok (entry, motion) => (some entry, .ok motion)
  | .error x => (prev, .error x)

theorem track_eq [DecidableEq Id] : track A distance = Keyed.keyed (Event.entityId : Event Id F → Id) (trackOne A distance) := by
  funext state e
  unfold track updateBy Keyed.keyed trackOne
  cases deriveBy A distance (state e.entityId) e.lat e.lon e.alt e.time with
  | error x =>
    -- Writing an entry back over itself changes nothing.
    exact congrArg (·, Except.error x) (Function.update_eq_self ..).symm
  | ok r =>
    apply congrArg (·, Except.ok r.2)
    funext id
    rw [Function.update_apply]

/-! ## Speeds -/

/-- From 0 to `MAX_PLAUSIBLE_SPEED_MPS`. -/
def Plausible (speed : F) : Prop :=
  A.le (A.lit 0) speed = true ∧ A.le speed (A.lit maxPlausibleSpeedMps) = true

/-- The speed that a call returns. -/
def Returned (call : Except Exn (Motion F)) : Prop := ∀ motion, call = .ok motion → Plausible A motion.speedMps

/-- The speed that an entry stores. -/
def Kept (prev : Option (Entry F)) : Prop := ∀ entry ∈ prev, ∀ speed ∈ entry.speed, Plausible A speed

theorem kept_none : Kept A none := fun _ h => absurd h (Option.not_mem_none _)

theorem kept_some {entry : Entry F} : Kept A (some entry) ↔ ∀ speed ∈ entry.speed, Plausible A speed := by
  simp [Kept]

section
variable {A} {distance} (hA : A.Ordered)
include hA

theorem plausible_zero : Plausible A (A.lit 0) :=
  ⟨hA.lit_le 0 0 le_rfl, hA.lit_le 0 maxPlausibleSpeedMps (by decide)⟩

theorem elapsed_pos (prev : Entry F) (time : Aware) :
    A.lt (A.lit 0) (elapsed A prev time) = true ∧ A.infinite (elapsed A prev time) = false := by
  unfold elapsed
  dsimp only
  split
  · exact ⟨hA.lit_pos 0.001 (by norm_num), hA.lit_finite 0.001 (by norm_num) (by norm_num)⟩
  · rename_i hle
    exact ⟨hA.seconds_pos _ (Bool.eq_false_iff.2 hle), hA.seconds_finite _⟩

variable (hdistance : ∀ lat1 lon1 lat2 lon2 d, distance lat1 lon1 lat2 lon2 = .ok d → A.le (A.lit 0) d = true)
include hdistance

theorem deriveBy_keeps {prev : Option (Entry F)} {lat lon alt : F} {time : Aware} {entry : Entry F}
    {motion : Motion F} (hprev : Kept A prev) (h : deriveBy A distance prev lat lon alt time = .ok (entry, motion)) :
    Kept A (some entry) ∧ Plausible A motion.speedMps := by
  cases prev with
  | none =>
    cases h
    exact ⟨(kept_some A).2 fun _ h => absurd h (Option.not_mem_none _), plausible_zero hA⟩
  | some prev =>
    obtain ⟨d, hd, h⟩ := bind_eq_ok.1 h
    obtain ⟨ratio, hratio, h⟩ := bind_eq_ok.1 h
    obtain ⟨heading, -, h⟩ := bind_eq_ok.1 h
    obtain ⟨hpos, hfinite⟩ := elapsed_pos hA prev time
    have hnonneg : A.le (A.lit 0) ratio = true :=
      hA.div_nonneg d _ ratio (hdistance _ _ _ _ d hd) hpos hfinite hratio
    have hspeed : Plausible A
        (if A.lt (A.lit maxPlausibleSpeedMps) ratio then prev.speed.getD (A.lit 0) else ratio) := by
      split
      · -- A glitch: the speed before stands.
        cases hp : prev.speed with
        | none => exact plausible_zero hA
        | some speed => exact (kept_some A).1 hprev speed hp
      · -- Not above the limit, and a number, since it is not negative.
        rename_i hlt
        exact ⟨hnonneg, hA.le_of_not_lt ratio _ hnonneg (Bool.eq_false_iff.2 hlt)⟩
    cases h
    exact ⟨(kept_some A).2 (by simpa using hspeed), hspeed⟩

theorem trackOne_keeps (prev : Option (Entry F)) (e : Event Id F) (hprev : Kept A prev) :
    Kept A (trackOne A distance prev e).1 ∧ Returned A (trackOne A distance prev e).2 := by
  unfold trackOne
  cases h : deriveBy A distance prev e.lat e.lon e.alt e.time with
  | error x =>
    refine ⟨hprev, ?_⟩
    intro motion hm
    cases hm
  | ok r =>
    obtain ⟨hentry, hmotion⟩ := deriveBy_keeps hA hdistance hprev h
    refine ⟨hentry, ?_⟩
    intro motion hm
    cases hm
    exact hmotion

end

/-! ## Each asset by itself -/

variable [DecidableEq Id]

/-- The events of an asset. -/
def own (id : Id) (events : List (Event Id F)) : List (Event Id F) := events.filter (·.entityId = id)

structure Isolated (events : List (Event Id F)) : Prop where
  calls_own : ∀ id, (calls A distance events).filter (·.1.entityId = id) = calls A distance (own id events)
  state_own : ∀ id, state A distance events id = state A distance (own id events) id
  returned : ∀ call ∈ calls A distance events, Returned A call.2
  stored : ∀ id, Kept A (state A distance events id)
  /-- The call for an asset's first event. -/
  first : ∀ before e after, events = before ++ e :: after → (∀ b ∈ before, b.entityId ≠ e.entityId) →
    (calls A distance events)[before.length]? =
      some (e, .ok ⟨A.lit 0, A.lit 0, A.lt (A.lit flyingAltitudeThresholdM) e.alt⟩)

theorem first_call {before : List (Event Id F)} {e : Event Id F} (after : List (Event Id F))
    (h : ∀ b ∈ before, b.entityId ≠ e.entityId) : (calls A distance (before ++ e :: after))[before.length]? =
      some (e, .ok ⟨A.lit 0, A.lit 0, A.lt (A.lit flyingAltitudeThresholdM) e.alt⟩) := by
  have hlen : (Keyed.run (track A distance) (fun _ => none) before).2.length = before.length := by
    conv_rhs => rw [← Keyed.run_inputs (track A distance) (fun _ => none) before, List.length_map]
  have hnone : (Keyed.run (track A distance) (fun _ => none) before).1 e.entityId = none := by
    rw [track_eq]
    exact Keyed.cell_untouched Event.entityId _ _ _ _ h
  rw [calls, Keyed.run_append, List.getElem?_append_right hlen.le, hlen, Nat.sub_self]
  rw [Keyed.run, List.getElem?_cons_zero, track, updateBy, hnone]
  rfl

theorem assets_isolated {A} {distance} (hA : A.Ordered)
    (hdistance : ∀ lat1 lon1 lat2 lon2 d, distance lat1 lon1 lat2 lon2 = .ok d → A.le (A.lit 0) d = true)
    (events : List (Event Id F)) : Isolated A distance events := by
  have hinv := Keyed.keyed_inv (Q := Returned A) Event.entityId (trackOne_keeps hA hdistance)
    (fun _ : Id => kept_none A) events
  rw [← track_eq] at hinv
  refine ⟨?_, ?_, hinv.2, hinv.1, ?_⟩
  · intro id
    rw [calls, calls, track_eq]
    exact Keyed.outputs_own Event.entityId _ _ id events
  · intro id
    rw [state, state, track_eq]
    exact Keyed.cell_own Event.entityId _ _ id events
  · rintro before e after rfl h
    exact first_call A distance after h

/-! ## The distance it has -/

/-- On real numbers `haversine_distance_m` is a distance as above. -/
theorem haversine_nonneg (lat1 lon1 lat2 lon2 d : ℝ) (h : haversineDistanceM reals lat1 lon1 lat2 lon2 = .ok d) :
    reals.le (reals.lit 0) d = true := by
  obtain ⟨a, -, h⟩ := bind_eq_ok.1 h
  obtain ⟨root, hroot, h⟩ := bind_eq_ok.1 h
  obtain ⟨angle, hangle, h⟩ := bind_eq_ok.1 h
  cases h
  have hpos : 0 ≤ root := by simpa using reals_lawful.sqrt_nonneg a root hroot
  have hmin : 0 ≤ reals.min (reals.lit 1) root := by
    unfold Arith.min
    split
    · exact hpos
    · simp
  have harc : 0 ≤ angle := by
    rw [reals_asin] at hangle
    split at hangle
    · cases hangle
    · cases hangle
      exact Real.arcsin_nonneg.2 hmin
  simp only [reals_lit, Rat.cast_zero, reals_mul, reals_le, decide_eq_true_eq]
  exact mul_nonneg (Rat.cast_nonneg.2 (by norm_num [earthRadiusM])) harc

theorem firstOfJune : (1 ≤ 2026 ∧ 2026 ≤ 9999) ∧ (1 ≤ 6 ∧ 6 ≤ 12) ∧ 1 ≤ 1 ∧ 1 ≤ Calendar.daysInMonth 2026 6 := by
  decide

/-- Some minutes past eight. -/
def morning (minute : Nat) (h : 8 < 24 ∧ minute < 60 ∧ 0 < 60 ∧ 0 < 1000000) : Aware :=
  ⟨Calendar.datetime 2026 6 1 8 minute 0 0 firstOfJune h, 0, Calendar.utc_offset⟩

/-- Two assets, the first of which goes back in time. -/
noncomputable def flights : List (Event Nat ℝ) :=
  [⟨1, 52.5, 13.4, 80, morning 7 (by decide)⟩, ⟨2, 52.4, 13.3, 0, morning 6 (by decide)⟩,
    ⟨1, 52.6, 13.5, 90, morning 5 (by decide)⟩]

theorem assets_isolated_flights : Isolated reals (haversineDistanceM reals) flights :=
  assets_isolated reals_ordered haversine_nonneg flights

end HtapStack.TrackerRuns
