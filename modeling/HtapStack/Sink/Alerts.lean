import HtapStack.Lib.Cooldown
import HtapStack.Sink.Proximity
/-!
# Alerts of the sink

`check_proximity` of `ingress/consumer/consumer.py` as a whole: besides scoring a
position, it writes an alert for each zone whose risk is high, unless one was
written for the same asset and zone less than `ALERT_COOLDOWN_S` before.

- `checkProximity_score`: the alerts have no part in the score.
- `attempts_run`: the alerts of a run are those that a cooldown grants.

A reading of `time.monotonic()` is a rational number. What the database makes of
an alert is left out: a write that fails is not repeated.
-/

namespace HtapStack.Alerts
open Py
open Proximity (Zone ZoneRisk Score zoneRisk addZone distanceToPolygonM warningDistanceM)

variable {F D : Type}

/-- A zone of the cache, with its name. -/
structure CachedZone (F : Type) extends Zone F where
  zoneName : String

inductive AlertType where
  | zoneBreach
  | zoneProximity

inductive Severity where
  | critical
  | high
  | warning

/-- What `_write_alert` is called with. -/
structure Alert (F D : Type) where
  entityId : String
  alertTime : D
  alertType : AlertType
  severity : Severity
  zoneId : String
  lat : F
  lon : F
  alt : F
  message : String
  riskScore : F

/-- The arguments of `check_proximity`. -/
structure Position (F D : Type) where
  entityId : String
  lat : F
  lon : F
  alt : F
  alertTime : D

/-- A call of `check_proximity`: the zones in the cache then, each with what the
clock reads when it is reached. -/
structure Event (F D : Type) extends Position F D where
  zones : List (CachedZone F × ℚ)

/-- `_last_alert`, and the alerts attempted so far, each with its moment. -/
structure AlertGenerator (F D : Type) where
  lastAlert : String × String → Option ℚ
  attempts : List (ℚ × Alert F D)

def AlertGenerator.init : AlertGenerator F D := ⟨fun _ => none, []⟩

def alertRiskThreshold : ℚ := 0.5

def alertCooldownS : ℚ := 60

/-- A zone that is near, with its distance. -/
structure Near (F : Type) extends ZoneRisk F where
  distance : F

section
variable (A : Arith F)

/-- `zoneRisk`, with the distance. -/
def measure (lat lon : F) (ring : List (F × F)) : Except Exn (Option (Near F)) := do
  match ← distanceToPolygonM A lat lon ring with
  | none => return none
  | some distance =>
    if A.le (A.lit warningDistanceM) distance then return none
    else
      let inside := A.eq distance (A.lit 0)
      let risk ← if inside then pure (A.lit 0.95)
        else do
          let share ← A.div distance (A.lit warningDistanceM)
          pure (A.sub (A.lit 1) share)
      return some ⟨⟨inside, risk⟩, distance⟩

/-- Whether the cooldown has elapsed, and if so it starts again. -/
def cooldownElapsed (lastAlert : String × String → Option ℚ) (key : String × String) (now : ℚ) :
    Bool × (String × String → Option ℚ) :=
  if (lastAlert key).any fun t => decide (now - t < alertCooldownS) then (false, lastAlert)
  else (true, Function.update lastAlert key (some now))

/-- The alert for a zone. `format` is `f"{x:.0f}"`. -/
def alert (format : F → String) (position : Position F D) (zone : CachedZone F) (near : Near F) : Alert F D where
  entityId := position.entityId
  alertTime := position.alertTime
  alertType := if near.inside then .zoneBreach else .zoneProximity
  severity := if near.inside then .critical else if A.lt (A.lit 0.8) near.risk then .high else .warning
  zoneId := zone.zoneId
  lat := position.lat
  lon := position.lon
  alt := position.alt
  message :=
    if near.inside then position.entityId ++ " is inside restricted zone " ++ zone.zoneName
    else position.entityId ++ " is " ++ format near.distance ++ "m from restricted zone " ++ zone.zoneName
  riskScore := near.risk

variable (format : F → String)

/-- One zone that is near: the alert for it, if one is due. -/
def alertZone (position : Position F D) (g : AlertGenerator F D) (zone : CachedZone F) (near : Near F) (now : ℚ) :
    AlertGenerator F D :=
  if A.le (A.lit alertRiskThreshold) near.risk then
    let (elapsed, lastAlert) := cooldownElapsed g.lastAlert (position.entityId, zone.zoneId) now
    ⟨lastAlert, if elapsed then g.attempts ++ [(now, alert A format position zone near)] else g.attempts⟩
  else g

/-- `check_proximity` from one zone on. What was attempted stays so when it raises. -/
def checkZones (position : Position F D) :
    List (CachedZone F × ℚ) → Score F → AlertGenerator F D → Except Exn (Score F) × AlertGenerator F D
  | [], p, g => (.ok p, g)
  | (zone, now) :: zones, p, g =>
    match measure A position.lat position.lon zone.ring with
    | .error e => (.error e, g)
    | .ok none => checkZones position zones p g
    | .ok (some near) =>
      let worse := A.lt p.riskScore near.risk
      checkZones position zones {
        nearZone := true
        riskScore := if worse then near.risk else p.riskScore
        nearestZoneId := if worse then some zone.zoneId else p.nearestZoneId
        predictedBreach := p.predictedBreach || near.inside || A.lt (A.lit Proximity.breachRiskThreshold) near.risk }
        (alertZone A format position g zone near now)

def checkProximity (event : Event F D) (g : AlertGenerator F D) : Except Exn (Score F) × AlertGenerator F D :=
  checkZones A format event.toPosition event.zones ⟨false, false, A.lit 0, none⟩ g

/-- What is left of the generator after some events. -/
def run (events : List (Event F D)) : AlertGenerator F D :=
  events.foldl (fun g event => (checkProximity A format event g).2) .init

end

/-! ## The score -/

theorem zoneRisk_eq (A : Arith F) (lat lon : F) (ring : List (F × F)) :
    zoneRisk A lat lon ring = (measure A lat lon ring).map (·.map Near.toZoneRisk) := by
  unfold zoneRisk measure
  cases distanceToPolygonM A lat lon ring with
  | error e => rfl
  | ok distance =>
    cases distance with
    | none => rfl
    | some distance =>
      simp only [ok_bind]
      split
      · rfl
      · cases A.eq distance (A.lit 0) with
        | true => rfl
        | false =>
          simp only [Bool.false_eq_true, if_false]
          cases A.div distance (A.lit warningDistanceM) <;> rfl

/-- The alerts have no part in the score. -/
theorem checkProximity_score (A : Arith F) (format : F → String) (event : Event F D) (g : AlertGenerator F D) :
    (checkProximity A format event g).1 =
      Proximity.checkProximity A (event.zones.map (·.1.toZone)) event.lat event.lon := by
  unfold checkProximity Proximity.checkProximity
  generalize Score.mk false false (A.lit 0) none = p
  generalize event.zones = zones
  induction zones generalizing p g with
  | nil => rfl
  | cons zone zones ih =>
    obtain ⟨zone, now⟩ := zone
    rw [checkZones, List.map_cons, List.foldlM_cons, addZone, zoneRisk_eq]
    cases measure A event.lat event.lon zone.ring with
    | error e => rfl
    | ok near =>
      cases near with
      | none => exact ih g p
      | some near => exact ih _ _

/-! ## The cooldown -/

/-- A zone that is near at an event, and all that its alert depends on. -/
structure Check (F D : Type) where
  position : Position F D
  zone : CachedZone F
  near : Near F
  now : ℚ

namespace Check

/-- The asset and the zone. -/
def pair (c : Check F D) : String × String := (c.position.entityId, c.zone.zoneId)

/-- Its risk is high enough for an alert. -/
def due (A : Arith F) (c : Check F D) : Bool := A.le (A.lit alertRiskThreshold) c.near.risk

def attempt (A : Arith F) (format : F → String) (c : Check F D) : ℚ × Alert F D :=
  (c.now, alert A format c.position c.zone c.near)

end Check

section
variable (A : Arith F) (format : F → String)

/-- The zones that are near, up to the first that raises. -/
def checksFrom (position : Position F D) : List (CachedZone F × ℚ) → List (Check F D)
  | [] => []
  | (zone, now) :: zones =>
    match measure A position.lat position.lon zone.ring with
    | .error _ => []
    | .ok none => checksFrom position zones
    | .ok (some near) => ⟨position, zone, near, now⟩ :: checksFrom position zones

def checks (event : Event F D) : List (Check F D) := checksFrom A event.toPosition event.zones

def alertCheck (g : AlertGenerator F D) (c : Check F D) : AlertGenerator F D :=
  alertZone A format c.position g c.zone c.near c.now

theorem checkZones_snd (position : Position F D) (zones : List (CachedZone F × ℚ)) (p : Score F)
    (g : AlertGenerator F D) : (checkZones A format position zones p g).2 =
      (checksFrom A position zones).foldl (alertCheck A format) g := by
  induction zones generalizing p g with
  | nil => rfl
  | cons zone zones ih =>
    obtain ⟨zone, now⟩ := zone
    rw [checkZones, checksFrom]
    cases measure A position.lat position.lon zone.ring with
    | error e => rfl
    | ok near =>
      cases near with
      | none => exact ih p g
      | some near => exact ih _ _

theorem run_eq (events : List (Event F D)) :
    run A format events = (events.flatMap (checks A)).foldl (alertCheck A format) .init := by
  rw [List.foldl_flatMap]
  exact congrArg (fun step => events.foldl step .init)
    (funext fun g => funext fun event => checkZones_snd A format _ _ _ g)

theorem cooldownElapsed_eq (lastAlert : String × String → Option ℚ) (key : String × String) (now : ℚ) :
    cooldownElapsed lastAlert key now =
      if Cooldown.elapsed alertCooldownS (lastAlert key) now then (true, Function.update lastAlert key (some now))
      else (false, lastAlert) := by
  unfold cooldownElapsed Cooldown.elapsed
  cases lastAlert key with
  | none => rfl
  | some t => by_cases h : now - t < alertCooldownS <;> simp [h]

theorem alertCheck_of_due {c : Check F D} (hdue : c.due A = true) (g : AlertGenerator F D) :
    alertCheck A format g c =
      if Cooldown.elapsed alertCooldownS (g.lastAlert c.pair) c.now then
        ⟨Function.update g.lastAlert c.pair (some c.now), g.attempts ++ [c.attempt A format]⟩
      else g := by
  unfold Check.due at hdue
  rw [alertCheck, alertZone, if_pos hdue, cooldownElapsed_eq, show (c.position.entityId, c.zone.zoneId) = c.pair from rfl]
  cases Cooldown.elapsed alertCooldownS (g.lastAlert c.pair) c.now <;> rfl

/-- What is attempted is what the cooldown grants of what is due. -/
theorem attempts_foldl (g : AlertGenerator F D) (cs : List (Check F D)) :
    (cs.foldl (alertCheck A format) g).attempts = g.attempts ++
      (Cooldown.grant alertCooldownS Check.pair Check.now g.lastAlert (cs.filter (Check.due A))).map
        (Check.attempt A format) := by
  induction cs generalizing g with
  | nil => simp [Cooldown.grant]
  | cons c cs ih =>
    rw [List.foldl_cons, ih]
    by_cases hdue : c.due A = true
    · rw [List.filter_cons_of_pos hdue, Cooldown.grant, alertCheck_of_due A format hdue]
      split
      · rw [List.map_cons, List.append_assoc, List.singleton_append]
      · rfl
    · rw [List.filter_cons_of_neg hdue]
      unfold Check.due at hdue
      rw [alertCheck, alertZone, if_neg hdue]

theorem attempts_run (events : List (Event F D)) : (run A format events).attempts =
    (Cooldown.grant alertCooldownS Check.pair Check.now (fun _ => none)
      ((events.flatMap (checks A)).filter (Check.due A))).map (Check.attempt A format) := by
  rw [run_eq, attempts_foldl]
  rfl

/-! ## Not too often, and never missed -/

/-- The event is checked against the zone, which is near: nothing before it raises. -/
def Reached (event : Event F D) (zone : CachedZone F) (now : ℚ) (z : ZoneRisk F) : Prop :=
  ∃ before after, event.zones = before ++ (zone, now) :: after ∧
    (∀ b ∈ before, Returns (zoneRisk A event.lat event.lon b.1.ring)) ∧
    zoneRisk A event.lat event.lon zone.ring = .ok (some z)

theorem checksFrom_now (position : Position F D) (zones : List (CachedZone F × ℚ)) :
    ((checksFrom A position zones).map Check.now).Sublist (zones.map (·.2)) := by
  induction zones with
  | nil => exact .slnil
  | cons zone zones ih =>
    obtain ⟨zone, now⟩ := zone
    rw [checksFrom]
    cases measure A position.lat position.lon zone.ring with
    | error e => exact List.nil_sublist _
    | ok near =>
      cases near with
      | none => exact ih.cons now
      | some near => exact ih.cons_cons now

theorem checks_sorted {events : List (Event F D)}
    (hclock : (events.flatMap fun event => event.zones.map (·.2)).Pairwise (· ≤ ·)) :
    ((events.flatMap (checks A)).filter (Check.due A)).Pairwise (·.now ≤ ·.now) := by
  refine .filter _ ?_
  rw [← List.pairwise_map (f := Check.now) (R := (· ≤ ·)), List.map_flatMap]
  refine hclock.sublist ?_
  induction events with
  | nil => exact .slnil
  | cons event events ih =>
    rw [List.flatMap_cons, List.flatMap_cons]
    rw [List.flatMap_cons] at hclock
    exact (checksFrom_now A _ _).append (ih (List.pairwise_append.1 hclock).2.1)

theorem mem_checks {event : Event F D} {zone : CachedZone F} {now : ℚ} {z : ZoneRisk F}
    (h : Reached A event zone now z) :
    ∃ c ∈ checks A event, c.pair = (event.entityId, zone.zoneId) ∧ c.now = now ∧ c.near.risk = z.risk := by
  obtain ⟨before, after, hzones, hbefore, hz⟩ := h
  rw [checks, hzones]
  clear hzones
  induction before with
  | nil =>
    rw [zoneRisk_eq] at hz
    rw [List.nil_append, checksFrom]
    cases hm : measure A event.lat event.lon zone.ring with
    | error e =>
      rw [hm] at hz
      cases hz
    | ok near =>
      cases near with
      | none =>
        rw [hm] at hz
        cases hz
      | some near =>
        rw [hm] at hz
        cases hz
        exact ⟨_, List.mem_cons_self, rfl, rfl, rfl⟩
  | cons b before ih =>
    obtain ⟨zone', now'⟩ := b
    obtain ⟨⟨r, hr⟩, hbefore⟩ := List.forall_mem_cons.1 hbefore
    rw [zoneRisk_eq] at hr
    rw [List.cons_append, checksFrom]
    cases hm : measure A event.lat event.lon zone'.ring with
    | error e =>
      rw [hm] at hr
      cases hr
    | ok near =>
      cases near with
      | none => exact ih hbefore
      | some near =>
        obtain ⟨c, hc, hspec⟩ := ih hbefore
        exact ⟨c, List.mem_cons_of_mem _ hc, hspec⟩

/-- The asset and the zone of an alert. -/
def Alert.pair (a : Alert F D) : String × String := (a.entityId, a.zoneId)

/-- What the cooldown makes of a run: alerts of an asset and a zone are a cooldown
apart or more; at each event whose risk for a zone reaches the threshold, there is an
alert of the two at that moment or less than a cooldown before; and the alerts of an
asset and a zone depend on no others' events. -/
structure KeepsCooldown (events : List (Event F D)) : Prop where
  apart : (run A format events).attempts.Pairwise fun a b => a.2.pair = b.2.pair → alertCooldownS ≤ b.1 - a.1
  never_missed : ∀ event ∈ events, ∀ zone now z, Reached A event zone now z →
    A.le (A.lit alertRiskThreshold) z.risk = true →
    ∃ a ∈ (run A format events).attempts, a.2.pair = (event.entityId, zone.zoneId) ∧
      a.1 ≤ now ∧ now - a.1 < alertCooldownS
  independent : ∀ pair (events' : List (Event F D)),
    (events.flatMap (checks A)).filter (decide <| ·.pair = pair) =
        (events'.flatMap (checks A)).filter (decide <| ·.pair = pair) →
      (run A format events).attempts.filter (decide <| ·.2.pair = pair) =
        (run A format events').attempts.filter (decide <| ·.2.pair = pair)

/-- Whatever the arithmetic, over any events. -/
theorem keepsCooldown {events : List (Event F D)}
    (hclock : (events.flatMap fun event => event.zones.map (·.2)).Pairwise (· ≤ ·)) :
    KeepsCooldown A format events := by
  refine ⟨?_, ?_, ?_⟩
  · rw [attempts_run, List.pairwise_map]
    exact Cooldown.grant_apart _ (checks_sorted A hclock)
  · intro event hevent zone now z hreached hz
    obtain ⟨c, hc, hpair, rfl, hrisk⟩ := mem_checks A hreached
    have hdue : c ∈ (events.flatMap (checks A)).filter (Check.due A) :=
      List.mem_filter.2 ⟨List.mem_flatMap.2 ⟨event, hevent, hc⟩, by rwa [Check.due, hrisk]⟩
    have hwait : 0 < alertCooldownS := by norm_num [alertCooldownS]
    obtain ⟨a, ha, hkey, hle, hlt⟩ : ∃ a ∈ Cooldown.grant alertCooldownS Check.pair Check.now (fun _ => none)
        ((events.flatMap (checks A)).filter (Check.due A)),
        a.pair = c.pair ∧ a.now ≤ c.now ∧ c.now - a.now < alertCooldownS :=
      (Cooldown.grant_covers hwait _ (checks_sorted A hclock) c hdue).resolve_left fun ⟨_, ht, _⟩ => by cases ht
    rw [attempts_run]
    exact ⟨a.attempt A format, List.mem_map_of_mem ha, hkey.trans hpair, hle, hlt⟩
  · intro pair events' h
    have hpair (events : List (Event F D)) : (run A format events).attempts.filter (decide <| ·.2.pair = pair) =
        (Cooldown.grant alertCooldownS Check.pair Check.now (fun _ => none)
          (((events.flatMap (checks A)).filter (decide <| ·.pair = pair)).filter (Check.due A))).map
            (Check.attempt A format) := by
      rw [attempts_run, List.filter_map, List.filter_comm, ← Cooldown.grant_filter rfl]
      rfl
    rw [hpair, hpair, h]

end

/-- A drone that stays in a zone for a minute. -/
def loitering : List (Event ℚ Unit) :=
  [0, 30, 60].map fun now =>
    ⟨⟨"drone", 59.5, 11, 100, ()⟩, [(⟨⟨"field", [(10, 59), (12, 59), (11, 60)]⟩, "Field"⟩, now)]⟩

theorem keepsCooldown_loitering :
    KeepsCooldown (exact (fun x y => |x| + |y|) (fun _ => 1) id) (fun _ => "0") loitering :=
  keepsCooldown _ _ (by decide +kernel)

end HtapStack.Alerts
