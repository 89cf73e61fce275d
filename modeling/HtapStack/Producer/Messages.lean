import HtapStack.Producer.FleetRuns
import HtapStack.Producer.Stamps
import HtapStack.Sink.Replay
import HtapStack.Sink.TrackerRuns
import Mathlib.Analysis.SpecialFunctions.Trigonometric.Basic
/-!
# From the producer to the sink

The messages that `main` of `ingress/producer/producer.py` sends, batch after batch,
and what the message loop of `ingress/consumer/consumer.py` makes of them, whatever
the order they come in and however often.

`messages_written`: none of them ever stops the sink. What it writes of an event is
what the event said, under the asset that it is of, with a plausible speed.

Numbers are exact. Left out: the JSON text, from which the sink reads the value that
the producer wrote.
-/

namespace HtapStack.Messages
open Py Consumer Producer Tracker

/-! ## What is sent -/

/-- `EVENT_TYPES`. -/
def eventTypes : List String :=
  ["telemetry_update", "position_report", "temperature_reading", "status_check", "health_monitor", "sensor_data",
    "diagnostic_report", "performance_metric", "environmental_scan", "system_heartbeat", "operational_status",
    "maintenance_alert", "calibration_check", "power_status", "connectivity_test", "data_sync", "threshold_check",
    "routine_inspection", "compliance_report", "activity_log"]

/-- `f"{i:0{width}d}"`. -/
def zeroPadded (width i : Nat) : Text := ((Nat.toDigits 10 i).leftpad width '0').map Char.toNat

/-- `entity_ids`. -/
def entityId (index : Nat) : Text := py "asset-" ++ zeroPadded 6 index

/-- `observer_ids` of a fleet of `n`: one for every hundred assets. -/
def observerId (n index : Nat) : Text :=
  let nObservers := max 1 (n / 100)
  py "observer-" ++ zeroPadded 4 (min (index / 100) (nObservers - 1))

def eventType (index : Nat) : Text := py ((eventTypes[index % eventTypes.length]?).getD "")

/-- An event as it is sent: its id as text, the time that the id is made of, and its asset. -/
structure Sent (R : Type) where
  eventId : Text
  time : ℚ
  index : Nat
  telemetry : Fleet.Reading R

/-- The value of its message, for a fleet of `n`. -/
def message {R : Type} (n : Nat) (e : Sent R) : Json R :=
  .dict [
    (py "event_id", .str e.eventId),
    (py "entity_id", .str (entityId e.index)),
    (py "observer_id", .str (observerId n e.index)),
    (py "event_type", .str (eventType e.index)),
    (py "position", .dict [(py "lat", .float e.telemetry.lat), (py "lon", .float e.telemetry.lon)]),
    (py "z_m", .float e.telemetry.zM),
    (py "temp_external_c", .float e.telemetry.tempExtC),
    (py "temp_internal_c", .float e.telemetry.tempIntC),
    (py "text", .str (e.telemetry.text.map Char.toNat))]

/-! ## Turn after turn -/

section
variable {R : Type} [Field R] [LinearOrder R]

/-- What a turn draws: the numbers of `fleet.step`, by place, and a text for each event's id. -/
structure Draws (R : Type) [Field R] [LinearOrder R] where
  textSampler : Option (Nat → List Char)
  textRefreshRangeS : R × R
  normalX : Nat → R
  normalY : Nat → R
  normalAlt : Nat → R
  weather : Nat → R
  sensor : Nat → R
  start : Nat → Fleet.Portion R
  duration : Nat → Fleet.Portion R
  delta : Nat → Fleet.Portion R
  internal : Nat → R
  refresh : Nat → Fleet.Portion R
  eventId : Nat → Text

/-- What `main` keeps: its own variables and the fleet. -/
structure Main (R : Type) where
  loop : Loop
  fleet : Fleet.FleetState R

/-- What `fleet.step` is called with. -/
def stepped (c : Producer.Config) (s : Main R) (t : Turn) (d : Draws R) : Fleet.Batch R (sentBy c s.loop t).length where
  ids k := ((sentBy c s.loop t).get k).asset.toNat
  now := t.loopStart
  textSampler := d.textSampler
  textRefreshRangeS := d.textRefreshRangeS
  outlierFraction := Fleet.lit (t.live.outlierPercent / 100)
  normalX := d.normalX
  normalY := d.normalY
  normalAlt := d.normalAlt
  weather := d.weather
  sensor := d.sensor
  start := d.start
  duration := d.duration
  delta := d.delta
  internal := d.internal
  refresh := d.refresh

variable [FloorRing R] (m : Fleet.Maths R) (cfg : Fleet.FleetConfig R) (c : Producer.Config)

/-- A turn. One that sends nothing leaves the fleet alone. -/
def nextMain (s : Main R) (t : Turn) (d : Draws R) : Main R where
  loop := next c s.loop t
  fleet := if sentBy c s.loop t = [] then s.fleet else (Fleet.step m cfg s.fleet (stepped c s t d)).1

/-- Its events, by place. -/
def sentIn (s : Main R) (t : Turn) (d : Draws R) : List (Sent R) :=
  (List.finRange (sentBy c s.loop t).length).map fun (k : Fin _) => {
    eventId := d.eventId k
    time := ((sentBy c s.loop t).get k).time
    index := ((sentBy c s.loop t).get k).asset.toNat
    telemetry := (Fleet.step m cfg s.fleet (stepped c s t d)).2.reading k }

/-- All that is sent in some turns. -/
def sent (s : Main R) : List (Turn × Draws R) → List (Sent R)
  | [] => []
  | (t, d) :: rest => sentIn m cfg c s t d ++ sent (nextMain m cfg c s t d) rest

end

/-! ## Its range -/

section
variable {R : Type} [Field R] [LinearOrder R]

/-- Where an asset can be: no nearer to a pole than 5 degrees, and 5 to 600 meters up. -/
structure InRange (r : Fleet.Reading R) : Prop where
  lat : -85 ≤ r.lat ∧ r.lat ≤ 85
  lon : -180 ≤ r.lon ∧ r.lon < 180
  zM : 5 ≤ r.zM ∧ r.zM ≤ 600

omit [Field R] in
theorem clip_mem {lo hi : R} (h : lo ≤ hi) (x : R) : lo ≤ Fleet.clip lo hi x ∧ Fleet.clip lo hi x ≤ hi :=
  ⟨le_min (le_max_right _ _) h, min_le_right _ _⟩

variable [IsStrictOrderedRing R] [FloorRing R]

theorem pyMod_mem {y : R} (hy : 0 < y) (x : R) : 0 ≤ Fleet.pyMod x y ∧ Fleet.pyMod x y < y := by
  have hfract : Fleet.pyMod x y = y * Int.fract (x / y) := by
    rw [Fleet.pyMod, Int.fract, mul_sub, mul_div_cancel₀ x hy.ne']
  rw [hfract]
  refine ⟨mul_nonneg hy.le (Int.fract_nonneg _), ?_⟩
  calc y * Int.fract (x / y) < y * 1 := mul_lt_mul_of_pos_left (Int.fract_lt_one _) hy
    _ = y := mul_one y

theorem longitude_mem (p : Fleet.Path R) (x : R) : -180 ≤ Fleet.longitude p x ∧ Fleet.longitude p x < 180 := by
  have hcircle : (Fleet.lit 360 : R) = 360 := by norm_num
  have hhalf : (Fleet.lit 180 : R) = 180 := by norm_num
  obtain ⟨hlo, hhi⟩ := pyMod_mem (y := 360) (by norm_num) (p.lon0 + x * p.invMPerDegLon + 180)
  rw [Fleet.longitude, hcircle, hhalf]
  constructor <;> linarith

omit [FloorRing R] in
theorem latitude_mem (p : Fleet.Path R) (y : R) : -85 ≤ Fleet.latitude p y ∧ Fleet.latitude p y ≤ 85 := by
  have hsouth : (Fleet.lit (-85) : R) = -85 := by norm_num
  have hnorth : (Fleet.lit 85 : R) = 85 := by norm_num
  rw [Fleet.latitude, hsouth, hnorth]
  exact clip_mem (by norm_num) _

omit [FloorRing R] in
theorem altitude_mem (m : Fleet.Maths R) (p : Fleet.Path R) (t noise : R) :
    5 ≤ Fleet.altitude m p t noise ∧ Fleet.altitude m p t noise ≤ 600 := by
  have hlow : (Fleet.lit 5 : R) = 5 := by norm_num
  have hhigh : (Fleet.lit 600 : R) = 600 := by norm_num
  rw [Fleet.altitude, hlow, hhigh]
  exact clip_mem (by norm_num) _

variable {m : Fleet.Maths R} {cfg : Fleet.FleetConfig R} {c : Producer.Config}

theorem step_inRange {n : Nat} (f : Fleet.FleetState R) (b : Fleet.Batch R n) (k : Fin n) :
    InRange ((Fleet.step m cfg f b).2.reading k) where
  lat := latitude_mem _ _
  lon := longitude_mem _ _
  zM := altitude_mem _ _ _ _

/-- Whatever the settings, the clock and the draws are, every event is in range. -/
theorem sent_inRange (s : Main R) (turns : List (Turn × Draws R)) {e : Sent R} (he : e ∈ sent m cfg c s turns) :
    InRange e.telemetry := by
  induction turns generalizing s with
  | nil => cases he
  | cons td rest ih =>
    rcases List.mem_append.1 he with he | he
    · obtain ⟨k, -, rfl⟩ := List.mem_map.1 he
      exact step_inRange _ _ k
    · exact ih _ he

end

/-! ## Texts -/

theorem encodable_chars (l : List Char) : encodable (l.map Char.toNat) = true := by
  apply List.all_eq_true.2
  intro x hx
  obtain ⟨ch, -, rfl⟩ := List.mem_map.1 hx
  -- No character is a surrogate.
  have hvalid : ch.toNat < 0xD800 ∨ 0xDFFF < ch.toNat ∧ ch.toNat < 0x110000 := ch.valid
  simp only [Bool.not_eq_true', Bool.and_eq_false_iff, decide_eq_false_iff_not, not_le]
  omega

theorem encodable_append {s t : Text} (hs : encodable s = true) (ht : encodable t = true) :
    encodable (s ++ t) = true := by
  rw [encodable, List.all_append, Bool.and_eq_true]
  exact ⟨hs, ht⟩

theorem encodable_entityId (index : Nat) : encodable (entityId index) = true :=
  encodable_append (encodable_chars _) (encodable_chars _)

theorem encodable_observerId (n index : Nat) : encodable (observerId n index) = true :=
  encodable_append (encodable_chars _) (encodable_chars _)

theorem toNat_injective : Function.Injective Char.toNat := fun _ _ h => Char.ext (UInt32.toNat_inj.1 h)

theorem zeroPadded_inj {width i j : Nat} (h : zeroPadded width i = zeroPadded width j) : i = j := by
  have hdigits := List.map_injective_iff.2 toNat_injective h
  have hread (k : Nat) : Nat.ofDigitChars 10 ((Nat.toDigits 10 k).leftpad width '0') 0 = k := by
    rw [List.leftpad, Nat.ofDigitChars_append, Nat.ofDigitChars_replicate_zero, Nat.mul_zero,
      Nat.ofDigitChars_ten_toDigits]
  rw [← hread i, hdigits, hread j]

theorem entityId_inj {i j : Nat} : entityId i = entityId j ↔ i = j :=
  ⟨fun h => zeroPadded_inj (List.append_cancel_left h), congrArg entityId⟩

/-! ## What is written -/

/-- What an event says, as all its rows have it. -/
structure Said (Uuid : Type) where
  eventId : Uuid
  eventTime : Int
  entityId : Text
  eventType : Text
  observerId : Text
  latitude : ℝ
  longitude : ℝ
  altitudeM : ℝ
  tempExternalC : ℝ
  tempInternalC : ℝ
  textPayload : Text

section
variable {Uuid : Type}

def rawSaid (row : RawRow ℝ Uuid) : Said Uuid :=
  ⟨row.eventId, row.eventTime, row.entityId, row.eventType, row.observerId, row.latitude, row.longitude,
    row.altitudeM, row.tempExternalC, row.tempInternalC, row.textPayload⟩

def historySaid (row : HistoryRow ℝ Uuid) : Said Uuid :=
  ⟨row.eventId, row.eventTime, row.entityId, row.eventType, row.observerId, row.latitude, row.longitude,
    row.altitudeM, row.tempExternalC, row.tempInternalC, row.textPayload⟩

def latestSaid (row : LatestRow ℝ Uuid) : Said Uuid :=
  ⟨row.eventId, row.eventTime, row.entityId, row.eventType, row.observerId, row.latitude, row.longitude,
    row.altitudeM, row.tempExternalC, row.tempInternalC, row.textPayload⟩

/-- What was sent, under an id with its time. -/
def saidOf (n : Nat) (e : Sent ℝ) (id : Uuid) (timestamp : Int) : Said Uuid :=
  ⟨id, timestamp, Messages.entityId e.index, Messages.eventType e.index, Messages.observerId n e.index,
    e.telemetry.lat, e.telemetry.lon, e.telemetry.zM, e.telemetry.tempExtC, e.telemetry.tempIntC,
    e.telemetry.text.map Char.toNat⟩

/-- The driver reads an event's id, and the time that it was made of, to the microsecond. -/
def Identified (I : Interp ℝ Uuid) (e : Sent ℝ) (id : Uuid) (time : Calendar.Naive) : Prop :=
  I.uuid e.eventId = .ok id ∧ I.datetimeFromUuid1 id = .ok (.naive time) ∧
    (Moment.naive time).orUtc.instant = ⌊e.time * 10 ^ 6⌋

/-- The rows of an event: they say what was sent, of that asset and no other, and nothing implausible is derived. -/
structure Written (I : Interp ℝ Uuid) (n : Nat) (e : Sent ℝ) (w : Writes ℝ Uuid) : Prop where
  said : ∃ id time, Identified I e id time ∧
    let what := saidOf n e id (I.timestamp (Moment.naive time).orUtc)
    rawSaid w.raw = what ∧ historySaid w.history = what ∧ latestSaid w.latest = what
  asset : ∀ i, w.latest.entityId = entityId i ↔ e.index = i
  inRange : InRange e.telemetry
  speed : 0 ≤ w.history.speedMps ∧ w.history.speedMps ≤ 100 ∧ w.latest.speedMps = w.history.speedMps
  heading : 0 ≤ w.history.headingDeg ∧ w.history.headingDeg < 360 ∧ w.latest.headingDeg = w.history.headingDeg

/-! ## Processing a message -/

/-- The assets in the tracker are on the earth, with plausible speeds. -/
structure Flown (s : Sink ℝ) : Prop where
  onEarth : ∀ id, ∀ p ∈ s.tracker id, -90 ≤ p.lat ∧ p.lat ≤ 90
  speeds : ∀ id, TrackerRuns.Kept reals (s.tracker id)

theorem flown_init : Flown Consumer.Sink.init where
  onEarth _ _ h := absurd h (Option.not_mem_none _)
  speeds _ := TrackerRuns.kept_none reals

/-- The cosine of a latitude is not negative. -/
theorem cos_radians_nonneg {lat : ℝ} (h : -90 ≤ lat ∧ lat ≤ 90) : 0 ≤ Real.cos (lat * (Real.pi / 180)) := by
  have hpi := Real.pi_pos
  apply Real.cos_nonneg_of_neg_pi_div_two_le_of_le
  · calc -(Real.pi / 2) = -90 * (Real.pi / 180) := by ring
      _ ≤ lat * (Real.pi / 180) := by gcongr; exact h.1
  · calc lat * (Real.pi / 180) ≤ 90 * (Real.pi / 180) := by gcongr; exact h.2
      _ = Real.pi / 2 := by ring

/-- Between two positions on the earth a distance and a bearing can be had. -/
theorem movable_onEarth {p : Entry ℝ} {lat lon : ℝ} (hp : -90 ≤ p.lat ∧ p.lat ≤ 90) (h : -90 ≤ lat ∧ lat ≤ 90) :
    Movable reals p lat lon := by
  refine ⟨rfl, rfl, rfl, fun a ha => ?_⟩
  simp only [haversine, reals_half, reals_sin, reals_cos, ok_bind, reals_radians] at ha
  cases ha
  have hcos := mul_nonneg (cos_radians_nonneg hp) (cos_radians_nonneg h)
  simp only [reals_square, reals_mul, reals_add, reals_lt, reals_lit, Rat.cast_zero, decide_eq_false_iff_not, not_lt]
  positivity

/-- A heading is from 0 to 360, 0 for an asset's first event. -/
theorem heading_mem {prev : Option (Entry ℝ)} {lat lon alt : ℝ} {time : Calendar.Aware} {entry : Entry ℝ}
    {motion : Motion ℝ} (h : derive reals prev lat lon alt time = .ok (entry, motion)) :
    0 ≤ motion.headingDeg ∧ motion.headingDeg < 360 := by
  cases prev with
  | none =>
    cases h
    simp
  | some p =>
    have hheading := derive_heading h
    simp only [computeBearingDeg, reals_sin, reals_cos, ok_bind] at hheading
    rw [← Except.ok.inj hheading, reals_mod360]
    exact pyMod_mem (by norm_num) _

theorem identified_id {I : Interp ℝ Uuid} {n : Nat} {e : Sent ℝ} {id : Uuid} {time : Calendar.Naive}
    (h : Identified I e id time) : eventIdOf I (message n e) = .ok (id, (Moment.naive time).orUtc) := by
  obtain ⟨huuid, htime, -⟩ := h
  have hitem : (message n e).item (py "event_id") = .ok (.str e.eventId) := rfl
  unfold eventIdOf
  rw [hitem, ok_bind]
  dsimp only
  rw [huuid, ok_bind, htime]
  rfl

/-- What is read of a message is what was sent. -/
theorem read_message {I : Interp ℝ Uuid} {n : Nat} {e : Sent ℝ} {id : Uuid} {time : Calendar.Naive}
    (h : Identified I e id time) (env : Env ℝ Uuid) : Consumer.read I (message n e) env =
      .ok ⟨id, (Moment.naive time).orUtc, entityId e.index, e.telemetry.lat, e.telemetry.lon, e.telemetry.zM,
        eventType e.index, observerId n e.index, e.telemetry.tempExtC, e.telemetry.tempIntC,
        e.telemetry.text.map Char.toNat⟩ := by
  unfold Consumer.read identify
  rw [identified_id h]
  rfl

/-! The rows of a statement, if it can be bound. -/

theorem bindText_eq_ok {s t : Text} (h : bindText s = .ok t) : t = s := by
  unfold bindText at h
  split at h
  · exact (Except.ok.inj h).symm
  · cases h

section
variable {I : Interp ℝ Uuid} (hI : I.floats = reals) {cfg : Consumer.Config} {r : Consumer.Reading ℝ Uuid}
include hI

theorem single_eq_ok {x y : ℝ} (h : I.floats.single x = .ok y) : y = x := by
  rw [hI] at h
  exact (Except.ok.inj h).symm

/-- What a reading says. -/
def readSaid (I : Interp ℝ Uuid) (r : Consumer.Reading ℝ Uuid) : Said Uuid :=
  ⟨r.eventId, I.timestamp r.eventTime, r.entityId, r.eventType, r.observerId, r.latitude, r.longitude, r.altitudeM,
    r.tempExternalC, r.tempInternalC, r.textPayload⟩

theorem bindRaw_said {row : RawRow ℝ Uuid} (h : bindRaw I cfg r = .ok row) : rawSaid row = readSaid I r := by
  obtain ⟨bucket, -, h⟩ := bind_eq_ok.1 h
  obtain ⟨shard, -, h⟩ := bind_eq_ok.1 h
  obtain ⟨shard, -, h⟩ := bind_eq_ok.1 h
  obtain ⟨entityId, hentity, h⟩ := bind_eq_ok.1 h
  obtain ⟨eventType, htype, h⟩ := bind_eq_ok.1 h
  obtain ⟨observerId, hobserver, h⟩ := bind_eq_ok.1 h
  obtain ⟨altitudeM, haltitude, h⟩ := bind_eq_ok.1 h
  obtain ⟨tempExternalC, hexternal, h⟩ := bind_eq_ok.1 h
  obtain ⟨tempInternalC, hinternal, h⟩ := bind_eq_ok.1 h
  obtain ⟨textPayload, htext, h⟩ := bind_eq_ok.1 h
  cases h
  rw [bindText_eq_ok hentity, bindText_eq_ok htype, bindText_eq_ok hobserver, bindText_eq_ok htext,
    single_eq_ok hI haltitude, single_eq_ok hI hexternal, single_eq_ok hI hinternal]
  rfl

theorem bindHistory_said {motion : Motion ℝ} {score : Proximity.Score ℝ} {row : HistoryRow ℝ Uuid}
    (h : bindHistory I r motion score = .ok row) : historySaid row = readSaid I r ∧
      row.speedMps = motion.speedMps ∧ row.headingDeg = motion.headingDeg := by
  obtain ⟨entityId, hentity, h⟩ := bind_eq_ok.1 h
  obtain ⟨eventType, htype, h⟩ := bind_eq_ok.1 h
  obtain ⟨observerId, hobserver, h⟩ := bind_eq_ok.1 h
  obtain ⟨altitudeM, haltitude, h⟩ := bind_eq_ok.1 h
  obtain ⟨tempExternalC, hexternal, h⟩ := bind_eq_ok.1 h
  obtain ⟨tempInternalC, hinternal, h⟩ := bind_eq_ok.1 h
  obtain ⟨textPayload, htext, h⟩ := bind_eq_ok.1 h
  cases h
  rw [bindText_eq_ok hentity, bindText_eq_ok htype, bindText_eq_ok hobserver, bindText_eq_ok htext,
    single_eq_ok hI haltitude, single_eq_ok hI hexternal, single_eq_ok hI hinternal]
  exact ⟨rfl, rfl, rfl⟩

theorem bindLatest_said {motion : Motion ℝ} {score : Proximity.Score ℝ} {env : Env ℝ Uuid} {row : LatestRow ℝ Uuid}
    (h : bindLatest I r motion score env = .ok row) : latestSaid row = readSaid I r ∧
      row.speedMps = motion.speedMps ∧ row.headingDeg = motion.headingDeg := by
  obtain ⟨eventType, htype, h⟩ := bind_eq_ok.1 h
  obtain ⟨observerId, hobserver, h⟩ := bind_eq_ok.1 h
  obtain ⟨altitudeM, haltitude, h⟩ := bind_eq_ok.1 h
  obtain ⟨tempExternalC, hexternal, h⟩ := bind_eq_ok.1 h
  obtain ⟨tempInternalC, hinternal, h⟩ := bind_eq_ok.1 h
  obtain ⟨age, -, h⟩ := bind_eq_ok.1 h
  obtain ⟨textPayload, htext, h⟩ := bind_eq_ok.1 h
  obtain ⟨entityId, hentity, h⟩ := bind_eq_ok.1 h
  cases h
  rw [bindText_eq_ok hentity, bindText_eq_ok htype, bindText_eq_ok hobserver, bindText_eq_ok htext,
    single_eq_ok hI haltitude, single_eq_ok hI hexternal, single_eq_ok hI hinternal]
  exact ⟨rfl, rfl, rfl⟩

end

/-! One message. -/

/-- A time in UTC has a bucket. -/
theorem hasBucket_utc {minutes : Int} (h : 0 < minutes) (time : Calendar.Naive) :
    Buckets.HasBucket minutes (Moment.naive time).orUtc := by
  refine ⟨?_, h.ne', ?_⟩
  · have hyears := time.inYears
    simpa [Calendar.Aware.HasUtc, Calendar.Aware.instant, Moment.orUtc] using hyears
  · rw [Int.fdiv_eq_ediv_of_nonneg _ h.le]
    have hle := Int.ediv_mul_le ((Moment.naive time).orUtc.instant % Window.hour / Window.minute) h.ne'
    have hminute : (Moment.naive time).orUtc.instant % Window.hour / Window.minute < 60 := by
      unfold Window.hour Window.minute
      omega
    exact hle.trans_lt hminute

/-- An event is written less than 2^31 seconds after its time. -/
theorem telemetryAge_lt {r : Consumer.Reading ℝ Uuid} {env : Env ℝ Uuid}
    (h : env.nowUtc.instant - r.eventTime.instant < 2147483648 * 1000000) : telemetryAge r env < 2147483648 := by
  refine max_lt (by norm_num) ?_
  rcases le_total 0 (env.nowUtc.instant - r.eventTime.instant) with hsign | hsign
  · rw [Int.tdiv_eq_ediv_of_nonneg hsign]
    omega
  · -- An event from the future: the quotient is rounded towards 0.
    have hneg := Int.tdiv_nonneg (Int.neg_nonneg_of_nonpos hsign) (by norm_num : (0 : Int) ≤ 1000000)
    rw [Int.neg_tdiv] at hneg
    omega

/-- What a message that gets through leaves behind, with all its rows. -/
theorem process_rows {I : Interp ℝ Uuid} {cfg : Consumer.Config} {s s' : Sink ℝ} {v : Json ℝ} {env : Env ℝ Uuid}
    {w : Writes ℝ Uuid} (h : process I cfg s v env = .ok (s', w)) :
    ∃ r entry motion score, Consumer.read I v env = .ok r ∧
      derive I.floats (s.tracker r.entityId) r.latitude r.longitude r.altitudeM r.eventTime = .ok (entry, motion) ∧
      bindRaw I cfg r = .ok w.raw ∧ bindHistory I r motion score = .ok w.history ∧
      bindLatest I r motion score env = .ok w.latest ∧
      s' = ⟨fun id => if id = r.entityId then some entry else s.tracker id, s.cache env, true⟩ := by
  obtain ⟨r, hr, h⟩ := bind_eq_ok.1 h
  obtain ⟨⟨tracker, motion⟩, hupdate, h⟩ := bind_eq_ok.1 h
  obtain ⟨⟨entry, motion⟩, hderive, hupdate⟩ := bind_eq_ok.1 hupdate
  obtain ⟨score, -, h⟩ := bind_eq_ok.1 h
  obtain ⟨raw, hraw, h⟩ := bind_eq_ok.1 h
  obtain ⟨history, hhistory, h⟩ := bind_eq_ok.1 h
  obtain ⟨latest, hlatest, h⟩ := bind_eq_ok.1 h
  cases hupdate
  cases h
  exact ⟨r, entry, motion, score, hr, hderive, hraw, hhistory, hlatest, rfl⟩

section
variable {I : Interp ℝ Uuid} (hI : I.floats = reals) {cfg : Consumer.Config} {s s' : Sink ℝ} {n : Nat} {e : Sent ℝ}
  {env : Env ℝ Uuid} {w : Writes ℝ Uuid} {id : Uuid} {time : Calendar.Naive} (hid : Identified I e id time)
  (hrange : InRange e.telemetry) (hflown : Flown s)
include hI hid hrange hflown

/-- It gets through. -/
theorem returns_message (hbucket : 0 < cfg.eventBucketMinutes)
    (hshards : 0 < cfg.eventShards ∧ cfg.eventShards ≤ 2147483648)
    (hage : env.nowUtc.instant - ⌊e.time * 10 ^ 6⌋ < 2147483648 * 1000000) :
    Returns (process I cfg s (message n e) env) := by
  have hread := read_message (n := n) hid env
  have hlat : -90 ≤ e.telemetry.lat ∧ e.telemetry.lat ≤ 90 := by
    obtain ⟨hlo, hhi⟩ := hrange.lat
    constructor <;> linarith
  refine (returns_process (hI ▸ reals_lawful)).2 ⟨(returns_read env).1 ⟨_, hread⟩, fun r hr => ?_⟩
  cases hread.symm.trans hr
  refine ⟨?_, ?_, ?_, ?_, ?_, hasBucket_utc hbucket time, hshards.1.ne', shard_fits hshards.1 hshards.2⟩
  · intro prev hprev
    rw [hI]
    exact movable_onEarth (hflown.onEarth _ prev hprev) hlat
  · intro zone _ hinfinite
    rw [hI, reals_infinite] at hinfinite
    cases hinfinite
  · simp only [List.forall_mem_cons, encodable_entityId, encodable_observerId, encodable_chars]
    exact ⟨trivial, encodable_chars _, trivial, trivial, nofun⟩
  · intro x _
    rw [hI]
    exact returns_ok x
  · obtain ⟨-, -, htime⟩ := hid
    exact telemetryAge_lt (by rw [htime]; exact hage)

/-- And what is written for it is what was sent. -/
theorem written_of_process (h : process I cfg s (message n e) env = .ok (s', w)) : Flown s' ∧ Written I n e w := by
  obtain ⟨r, entry, motion, score, hread, hderive, hraw, hhistory, hlatest, rfl⟩ := process_rows h
  rw [hI] at hderive
  have hsaid := bindRaw_said hI hraw
  obtain ⟨hhistorySaid, hspeed, hheading⟩ := bindHistory_said hI hhistory
  obtain ⟨hlatestSaid, hlatestSpeed, hlatestHeading⟩ := bindLatest_said hI hlatest
  have hentry := derive_entry hderive
  obtain ⟨hkept, hplausible⟩ := TrackerRuns.deriveBy_keeps reals_ordered TrackerRuns.haversine_nonneg
    (hflown.speeds r.entityId) hderive
  have hmem := heading_mem hderive
  cases (read_message hid env).symm.trans hread
  constructor
  · constructor
    · intro i p hp
      dsimp only at hp
      split at hp
      · cases hp
        rw [hentry.1]
        obtain ⟨hlo, hhi⟩ := hrange.lat
        constructor <;> linarith
      · exact hflown.onEarth i p hp
    · intro i
      dsimp only
      split
      · exact hkept
      · exact hflown.speeds i
  · constructor
    · exact ⟨id, time, hid, hsaid, hhistorySaid, hlatestSaid⟩
    · intro i
      have hentity : w.latest.entityId = entityId e.index := congrArg Said.entityId hlatestSaid
      rw [hentity, entityId_inj]
    · exact hrange
    · obtain ⟨hlo, hhi⟩ := hplausible
      rw [hspeed, hlatestSpeed]
      refine ⟨by simpa using hlo, ?_, rfl⟩
      simpa [maxPlausibleSpeedMps] using hhi
    · rw [hheading, hlatestHeading]
      exact ⟨hmem.1, hmem.2, rfl⟩

end

/-! ## All of them -/

/-- Messages that each were sent get through in any order, and as often as they come. -/
theorem processAll_messages {I : Interp ℝ Uuid} (hI : I.floats = reals) {cfg : Consumer.Config} {n : Nat}
    (hbucket : 0 < cfg.eventBucketMinutes) (hshards : 0 < cfg.eventShards ∧ cfg.eventShards ≤ 2147483648)
    {s : Sink ℝ} (hflown : Flown s) (deliveries : List (Sent ℝ × Env ℝ Uuid))
    (hids : ∀ d ∈ deliveries, ∃ id time, Identified I d.1 id time) (hrange : ∀ d ∈ deliveries, InRange d.1.telemetry)
    (hage : ∀ d ∈ deliveries, d.2.nowUtc.instant - ⌊d.1.time * 10 ^ 6⌋ < 2147483648 * 1000000) :
    ∃ s' writes, processAll I cfg s (deliveries.map fun d => (message n d.1, d.2)) = .ok (s', writes) ∧
      List.Forall₂ (fun d w => Written I n d.1 w) deliveries writes := by
  induction deliveries generalizing s with
  | nil => exact ⟨s, [], rfl, .nil⟩
  | cons d rest ih =>
    obtain ⟨e, env⟩ := d
    obtain ⟨⟨id, time, hid⟩, hids⟩ := List.forall_mem_cons.1 hids
    obtain ⟨hr, hrange⟩ := List.forall_mem_cons.1 hrange
    obtain ⟨ha, hage⟩ := List.forall_mem_cons.1 hage
    obtain ⟨⟨s₁, w⟩, hfirst⟩ := returns_message (n := n) hI hid hr hflown hbucket hshards ha
    obtain ⟨hflown₁, hwritten⟩ := written_of_process hI hid hr hflown hfirst
    obtain ⟨s', writes, hrest, hall⟩ := ih hflown₁ hids hrange hage
    exact ⟨s', w :: writes, processAll_cons.2 ⟨s₁, w, writes, hfirst, hrest, rfl⟩, .cons hwritten hall⟩

/-- Whatever the fleet, the settings and the turns are, what the producer sends gets through the sink in any order
and as often as it comes, and what is written of it is what was sent. -/
theorem messages_written (m : Fleet.Maths ℝ) (fleetCfg : Fleet.FleetConfig ℝ) (c : Producer.Config) (s : Main ℝ)
    (turns : List (Turn × Draws ℝ)) (I : Interp ℝ Uuid) (hI : I.floats = reals) (cfg : Consumer.Config)
    (hbucket : 0 < cfg.eventBucketMinutes) (hshards : 0 < cfg.eventShards ∧ cfg.eventShards ≤ 2147483648)
    (hids : ∀ e ∈ sent m fleetCfg c s turns, ∃ id time, Identified I e id time)
    (deliveries : List (Sent ℝ × Env ℝ Uuid)) (hsent : ∀ d ∈ deliveries, d.1 ∈ sent m fleetCfg c s turns)
    (hage : ∀ d ∈ deliveries, d.2.nowUtc.instant - ⌊d.1.time * 10 ^ 6⌋ < 2147483648 * 1000000) :
    ∃ s' writes, processAll I cfg .init
        (deliveries.map fun d => (message c.maxEntities.toNat d.1, d.2)) = .ok (s', writes) ∧
      List.Forall₂ (fun d w => Written I c.maxEntities.toNat d.1 w) deliveries writes := by
  refine processAll_messages hI hbucket hshards flown_init deliveries ?_ ?_ hage
  · intro d hd
    exact hids d.1 (hsent d hd)
  · intro d hd
    exact sent_inRange s turns (hsent d hd)

end

/-- Twenty seconds to noon, in seconds since the epoch. -/
def beforeNoon : ℚ := 1782907180

theorem one_le_two_assets : (1 : Int) ≤ 2 := by decide

/-- A turn of one event, at that time. -/
def oneTurn : Turn := ⟨⟨1, 2, 5, false, le_rfl, one_le_two_assets⟩, beforeNoon, beforeNoon, beforeNoon + 1⟩

/-- All draws are 0, and the id is of that time. -/
noncomputable def zeros : Draws ℝ :=
  ⟨none, (Fleet.lit 5, Fleet.lit 30), 0, 0, 0, 0, 0, fun _ => ⟨0, Fleet.zero_portion⟩, fun _ => ⟨0, Fleet.zero_portion⟩,
    fun _ => ⟨0, Fleet.zero_portion⟩, 0, fun _ => ⟨0, Fleet.zero_portion⟩, fun _ => Replay.firstId⟩

noncomputable def maths : Fleet.Maths ℝ :=
  ⟨Real.sin, Real.cos, Real.exp, Real.sqrt, Real.pi, fun _ => Fleet.lit 182, fun _ => Fleet.lit 12⟩

noncomputable def oneSent : List (Sent ℝ) :=
  sent maths .asItComes duo ⟨.init 0, .init 0 fun _ => Fleet.tryPath⟩ [(oneTurn, zeros)]

theorem oneTurn_events : ∀ e ∈ sentBy duo (.init 0) oneTurn, e = ⟨0, beforeNoon⟩ := by
  decide +kernel

theorem oneSent_event {e : Sent ℝ} (he : e ∈ oneSent) : e.eventId = Replay.firstId ∧ e.time = beforeNoon := by
  rcases List.mem_append.1 he with he | he
  · obtain ⟨k, -, rfl⟩ := List.mem_map.1 he
    have hevent := oneTurn_events _ ((sentBy duo (.init 0) oneTurn).get_mem k)
    exact ⟨rfl, congrArg Producer.Event.time hevent⟩
  · cases he

theorem identified_first {e : Sent ℝ} (hid : e.eventId = Replay.firstId) (htime : e.time = beforeNoon) :
    ∃ id time, Identified onReals e id time := by
  refine ⟨0x56d19e00754411f1800000163e000001, (Replay.beforeNoon 40 (by decide)).naive, ?_, rfl, ?_⟩
  · rw [hid]
    rfl
  · rw [htime]
    decide +kernel

/-- The one event comes twice. -/
theorem messages_written_twice : ∃ s' writes, processAll onReals ⟨15, 16⟩ .init
    ((oneSent ++ oneSent).map fun e => (message 2 e, noon)) = .ok (s', writes) ∧
      List.Forall₂ (fun e w => Written onReals 2 e w) (oneSent ++ oneSent) writes := by
  have hids : ∀ e ∈ oneSent, ∃ id time, Identified onReals e id time := by
    intro e he
    obtain ⟨hid, htime⟩ := oneSent_event he
    exact identified_first hid htime
  obtain ⟨s', writes, hall, hwritten⟩ := messages_written maths .asItComes duo ⟨.init 0, .init 0 fun _ => Fleet.tryPath⟩
    [(oneTurn, zeros)] onReals rfl ⟨15, 16⟩ (by decide) (by decide) hids ((oneSent ++ oneSent).map fun e => (e, noon))
    (fun d hd => by
      obtain ⟨e, he, rfl⟩ := List.mem_map.1 hd
      exact (List.mem_append.1 he).elim id id)
    (fun d hd => by
      obtain ⟨e, he, rfl⟩ := List.mem_map.1 hd
      have htime := (oneSent_event ((List.mem_append.1 he).elim id id)).2
      have hage : noon.nowUtc.instant - ⌊beforeNoon * 10 ^ 6⌋ < 2147483648 * 1000000 := by decide +kernel
      rw [htime]
      exact hage)
  rw [List.map_map] at hall
  rw [List.forall₂_map_left_iff] at hwritten
  exact ⟨s', writes, hall, hwritten⟩

end HtapStack.Messages
