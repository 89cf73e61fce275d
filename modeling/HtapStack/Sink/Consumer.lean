import HtapStack.Compare.Buckets
import HtapStack.Lib.PyReal
import HtapStack.Sink.Tracker
/-!
# What the sink does to one message

The body of the message loop of `main` in `ingress/consumer/consumer.py`: the
value that the deserializer yields is read, the tracker and the zones derive what
is not in it, and three statements are bound. Only the two lines that read
`event_id` are under a `try`.

`process_iff`: a message gets through, and a batch with it, exactly when its value
can be read (`Readable`), its position can be scored after the one before, and what
it says fits the columns it is bound to (`Writable`). A message that is `null`
stops the sink: `null_stops`.

Floats, `repr`, the parsing of text and the driver's clock functions are
parameters. Left out: the alerts, which raise nothing, and the acknowledgements,
which `PollLoop` is about.
-/

namespace HtapStack.Consumer
open Py Proximity Tracker
open Calendar (Naive Aware)

/-! ## JSON values -/

/-- A `str` by its code points, lone surrogates included. -/
abbrev Text := List Nat

def py (s : String) : Text := s.toList.map Char.toNat

/-- What `json.loads` yields. -/
inductive Json (F : Type) where
  | null
  | bool (b : Bool)
  | int (n : Int)
  | float (x : F)
  | str (s : Text)
  | list (xs : List (Json F))
  | dict (es : List (Text × Json F))

/-- What the driver makes of a version 1 UUID's time. -/
inductive Moment where
  | naive (t : Naive)
  | aware (t : Aware)

/-- `t.replace(tzinfo=timezone.utc)` if it has none. -/
def Moment.orUtc : Moment → Aware
  | .naive t => ⟨t, 0, Calendar.utc_offset⟩
  | .aware t => t

/-- The interpreter and the driver. -/
structure Interp (F Uuid : Type) where
  floats : Floats F
  /-- `float(s)`. -/
  parse : Text → Except Exn F
  /-- `str(v)` of anything but a `str`. -/
  repr : Json F → Text
  /-- `uuid.UUID(s)`. -/
  uuid : Text → Except Exn Uuid
  datetimeFromUuid1 : Uuid → Except Exn Moment
  /-- `zlib.crc32(id.bytes)`. -/
  crc32 : Uuid → Int
  /-- A CQL `timestamp`, in milliseconds. -/
  timestamp : Aware → Int

variable {F Uuid : Type} (I : Interp F Uuid)

def Json.get (v : Json F) (key : Text) (default : Json F) : Except Exn (Json F) :=
  match v with
  | .dict es => .ok ((es.lookup key).getD default)
  | _ => .error .attribute

/-- `v[key]`. -/
def Json.item (v : Json F) (key : Text) : Except Exn (Json F) :=
  match v with
  | .dict es => match es.lookup key with
    | some x => .ok x
    | none => .error .key
  | _ => .error .type

def Json.truthy : Json F → Bool
  | .null => false
  | .bool b => b
  | .int n => n != 0
  | .float x => !I.floats.eq x (I.floats.lit 0)
  | .str s => !s.isEmpty
  | .list xs => !xs.isEmpty
  | .dict es => !es.isEmpty

/-- `str(v)`. -/
def Json.text : Json F → Text
  | .str s => s
  | v => I.repr v

/-- `float(v)`. -/
def Json.toFloat : Json F → Except Exn F
  | .bool b => .ok (I.floats.lit (if b then 1 else 0))
  | .int n => I.floats.ofInt n
  | .float x => .ok x
  | .str s => I.parse s
  | .null | .list _ | .dict _ => .error .type

/-- `float(v.get(key, 0.0))`. -/
def Json.number (key : String) (v : Json F) : Except Exn F := do
  let x ← v.get (py key) (.float (I.floats.lit 0))
  x.toFloat I

/-- `str(v.get(key, ""))`. -/
def Json.field (key : String) (v : Json F) : Except Exn Text := do
  let x ← v.get (py key) (.str [])
  return x.text I

/-- `v or {}`. -/
def Json.orEmpty (v : Json F) : Json F := if v.truthy I then v else .dict []

/-! ## Reading a message -/

/-- What the loop finds out for itself while it is at one message: a new UUID with
the time, the time at which it writes, and the zones if it comes to load them. -/
structure Env (F Uuid : Type) where
  uuid1 : Uuid
  now : Aware
  nowUtc : Aware
  zones : Option (List (Zone F))

structure Reading (F Uuid : Type) where
  eventId : Uuid
  eventTime : Aware
  entityId : Text
  latitude : F
  longitude : F
  altitudeM : F
  eventType : Text
  observerId : Text
  tempExternalC : F
  tempInternalC : F
  textPayload : Text

/-- The protected part: the event's id and time, if the message has a UUID. -/
def eventIdOf (v : Json F) : Except Exn (Uuid × Aware) := do
  let x ← v.item (py "event_id")
  let id ← match x with
    | .str s => I.uuid s
    | _ => .error .attribute
  let time ← I.datetimeFromUuid1 id
  return (id, time.orUtc)

/-- A message without one is given a new id and the time. -/
def identify (v : Json F) (env : Env F Uuid) : Uuid × Aware :=
  match eventIdOf I v with
  | .ok identity => identity
  | .error _ => (env.uuid1, env.now)

def read (v : Json F) (env : Env F Uuid) : Except Exn (Reading F Uuid) := do
  let (eventId, eventTime) := identify I v env
  let entityId ← v.field I "entity_id"
  let position := (← v.get (py "position") .null).orEmpty I
  let latitude ← position.number I "lat"
  let longitude ← position.number I "lon"
  let altitudeM ← v.number I "z_m"
  let eventType ← v.field I "event_type"
  let observerId ← v.field I "observer_id"
  let tempExternalC ← v.number I "temp_external_c"
  let tempInternalC ← v.number I "temp_internal_c"
  let textPayload ← v.field I "text"
  return ⟨eventId, eventTime, entityId, latitude, longitude, altitudeM, eventType, observerId, tempExternalC,
    tempInternalC, textPayload⟩

/-! ## Binding a statement -/

/-- A column of CQL text takes what UTF-8 can encode. -/
def encodable (s : Text) : Bool := s.all fun c => !(0xD800 ≤ c && c ≤ 0xDFFF)

def bindText (s : Text) : Except Exn Text := if encodable s then .ok s else .error .unicodeEncode

def bindInt (n : Int) : Except Exn Int := if -2147483648 ≤ n ∧ n < 2147483648 then .ok n else .error .type

structure Config where
  eventBucketMinutes : Int
  eventShards : Int

def ofCalendar : Calendar.Exn → Exn
  | .overflow => .overflow
  | .value => .value
  | .zeroDivision => .zeroDivision

def eventBucket (cfg : Config) (t : Aware) : Except Exn (List Char) :=
  (Buckets.eventBucket cfg.eventBucketMinutes t).mapError ofCalendar

def eventShard (cfg : Config) (id : Uuid) : Except Exn Int :=
  if cfg.eventShards = 0 then .error .zeroDivision else .ok ((I.crc32 id).fmod cfg.eventShards)

/-- A row of the raw table; the first three columns are its key. -/
structure RawRow (F Uuid : Type) where
  eventBucket : List Char
  shard : Int
  eventId : Uuid
  entityId : Text
  eventDay : Calendar.Date
  eventTime : Int
  eventType : Text
  observerId : Text
  latitude : F
  longitude : F
  altitudeM : F
  tempExternalC : F
  tempInternalC : F
  textPayload : Text

/-- A row of `drone_events_by_entity`; the first three columns are its key. -/
structure HistoryRow (F Uuid : Type) where
  entityId : Text
  eventTime : Int
  eventId : Uuid
  eventType : Text
  observerId : Text
  latitude : F
  longitude : F
  altitudeM : F
  tempExternalC : F
  tempInternalC : F
  speedMps : F
  headingDeg : F
  zoneId : Option String
  textPayload : Text

/-- A row of `drone_latest_status`, keyed by the asset. -/
structure LatestRow (F Uuid : Type) where
  entityId : Text
  eventId : Uuid
  eventTime : Int
  eventType : Text
  observerId : Text
  latitude : F
  longitude : F
  altitudeM : F
  tempExternalC : F
  tempInternalC : F
  speedMps : F
  headingDeg : F
  isFlying : Bool
  telemetryAgeS : Int
  nearRestrictedZone : Bool
  predictedZoneBreach : Bool
  riskScore : F
  textPayload : Text
  updatedAt : Int

def bindRaw (cfg : Config) (r : Reading F Uuid) : Except Exn (RawRow F Uuid) := do
  let bucket ← eventBucket cfg r.eventTime
  let shard ← bindInt (← eventShard I cfg r.eventId)
  let entityId ← bindText r.entityId
  let eventType ← bindText r.eventType
  let observerId ← bindText r.observerId
  let altitudeM ← I.floats.single r.altitudeM
  let tempExternalC ← I.floats.single r.tempExternalC
  let tempInternalC ← I.floats.single r.tempInternalC
  let textPayload ← bindText r.textPayload
  return ⟨bucket, shard, r.eventId, entityId, r.eventTime.naive.date, I.timestamp r.eventTime, eventType, observerId,
    r.latitude, r.longitude, altitudeM, tempExternalC, tempInternalC, textPayload⟩

def bindHistory (r : Reading F Uuid) (motion : Motion F) (score : Score F) : Except Exn (HistoryRow F Uuid) := do
  let entityId ← bindText r.entityId
  let eventType ← bindText r.eventType
  let observerId ← bindText r.observerId
  let altitudeM ← I.floats.single r.altitudeM
  let tempExternalC ← I.floats.single r.tempExternalC
  let tempInternalC ← I.floats.single r.tempInternalC
  let textPayload ← bindText r.textPayload
  return ⟨entityId, I.timestamp r.eventTime, r.eventId, eventType, observerId, r.latitude, r.longitude, altitudeM,
    tempExternalC, tempInternalC, motion.speedMps, motion.headingDeg, score.nearestZoneId, textPayload⟩

/-- The age of the event when it is written, in seconds. -/
def telemetryAge (r : Reading F Uuid) (env : Env F Uuid) : Int :=
  max 0 ((env.nowUtc.instant - r.eventTime.instant).tdiv 1000000)

def bindLatest (r : Reading F Uuid) (motion : Motion F) (score : Score F) (env : Env F Uuid) :
    Except Exn (LatestRow F Uuid) := do
  let eventType ← bindText r.eventType
  let observerId ← bindText r.observerId
  let altitudeM ← I.floats.single r.altitudeM
  let tempExternalC ← I.floats.single r.tempExternalC
  let tempInternalC ← I.floats.single r.tempInternalC
  let age ← bindInt (telemetryAge r env)
  let textPayload ← bindText r.textPayload
  let entityId ← bindText r.entityId
  return ⟨entityId, r.eventId, I.timestamp r.eventTime, eventType, observerId, r.latitude, r.longitude, altitudeM,
    tempExternalC, tempInternalC, motion.speedMps, motion.headingDeg, motion.isFlying, age, score.nearZone,
    score.predictedBreach, score.riskScore, textPayload, I.timestamp env.nowUtc⟩

/-! ## The loop -/

/-- What the process keeps from one message to the next. -/
structure Sink (F : Type) where
  tracker : Text → Option (Entry F)
  zones : List (Zone F)
  loaded : Bool

/-- What it starts with. -/
def Sink.init : Sink F := ⟨fun _ => none, [], false⟩

/-- The zones that a position is scored against: loaded by the first one, if that works. -/
def Sink.cache (s : Sink F) (env : Env F Uuid) : List (Zone F) :=
  if s.loaded then s.zones else env.zones.getD s.zones

/-- What is sent for a message. -/
structure Writes (F Uuid : Type) where
  raw : RawRow F Uuid
  history : HistoryRow F Uuid
  latest : LatestRow F Uuid

def process (cfg : Config) (s : Sink F) (v : Json F) (env : Env F Uuid) : Except Exn (Sink F × Writes F Uuid) := do
  let r ← read I v env
  let (tracker, motion) ← update I.floats s.tracker r.entityId r.latitude r.longitude r.altitudeM r.eventTime
  let score ← checkProximity I.floats.toArith (s.cache env) r.latitude r.longitude
  let raw ← bindRaw I cfg r
  let history ← bindHistory I r motion score
  let latest ← bindLatest I r motion score env
  return (⟨tracker, s.cache env, true⟩, ⟨raw, history, latest⟩)

/-- The messages of a batch, one after the other. -/
def processAll (cfg : Config) (s : Sink F) : List (Json F × Env F Uuid) → Except Exn (Sink F × List (Writes F Uuid))
  | [] => return (s, [])
  | (v, env) :: rest => do
    let (s, writes) ← process I cfg s v env
    let (s, more) ← processAll cfg s rest
    return (s, writes :: more)

section
variable {I} {cfg : Config} {s s' : Sink F} {v : Json F} {env : Env F Uuid} {writes : Writes F Uuid}

/-- A message with a usable event id is read the same every time. -/
theorem read_congr (h : Returns (eventIdOf I v)) (env env' : Env F Uuid) : read I v env = read I v env' := by
  obtain ⟨identity, hid⟩ := h
  unfold read identify
  rw [hid]

theorem read_entityId {r : Reading F Uuid} (h : read I v env = .ok r) : v.field I "entity_id" = .ok r.entityId := by
  obtain ⟨entityId, hentity, h⟩ := bind_eq_ok.1 h
  obtain ⟨position, -, h⟩ := bind_eq_ok.1 h
  obtain ⟨latitude, -, h⟩ := bind_eq_ok.1 h
  obtain ⟨longitude, -, h⟩ := bind_eq_ok.1 h
  obtain ⟨altitudeM, -, h⟩ := bind_eq_ok.1 h
  obtain ⟨eventType, -, h⟩ := bind_eq_ok.1 h
  obtain ⟨observerId, -, h⟩ := bind_eq_ok.1 h
  obtain ⟨tempExternalC, -, h⟩ := bind_eq_ok.1 h
  obtain ⟨tempInternalC, -, h⟩ := bind_eq_ok.1 h
  obtain ⟨textPayload, -, h⟩ := bind_eq_ok.1 h
  cases h
  exact hentity

/-- What a message that gets through leaves behind. -/
theorem process_eq_ok (h : process I cfg s v env = .ok (s', writes)) :
    ∃ r entry motion score, read I v env = .ok r ∧
      derive I.floats (s.tracker r.entityId) r.latitude r.longitude r.altitudeM r.eventTime = .ok (entry, motion) ∧
      checkProximity I.floats.toArith (s.cache env) r.latitude r.longitude = .ok score ∧
      bindRaw I cfg r = .ok writes.raw ∧ bindHistory I r motion score = .ok writes.history ∧
      s' = ⟨fun id => if id = r.entityId then some entry else s.tracker id, s.cache env, true⟩ := by
  obtain ⟨r, hr, h⟩ := bind_eq_ok.1 h
  obtain ⟨⟨tracker, motion⟩, hupdate, h⟩ := bind_eq_ok.1 h
  obtain ⟨⟨entry, motion⟩, hderive, hupdate⟩ := bind_eq_ok.1 hupdate
  obtain ⟨score, hscore, h⟩ := bind_eq_ok.1 h
  obtain ⟨raw, hraw, h⟩ := bind_eq_ok.1 h
  obtain ⟨history, hhistory, h⟩ := bind_eq_ok.1 h
  obtain ⟨latest, -, h⟩ := bind_eq_ok.1 h
  cases hupdate
  cases h
  exact ⟨r, entry, motion, score, hr, hderive, hscore, hraw, hhistory, rfl⟩

theorem processAll_cons {batch : List (Json F × Env F Uuid)} {all : List (Writes F Uuid)} :
    processAll I cfg s ((v, env) :: batch) = .ok (s', all) ↔
      ∃ t w ws, process I cfg s v env = .ok (t, w) ∧ processAll I cfg t batch = .ok (s', ws) ∧ all = w :: ws := by
  rw [processAll, bind_eq_ok]
  constructor
  · rintro ⟨⟨t, w⟩, hv, h⟩
    obtain ⟨⟨u, ws⟩, hbatch, h⟩ := bind_eq_ok.1 h
    cases h
    exact ⟨t, w, ws, hv, hbatch, rfl⟩
  · rintro ⟨t, w, ws, hv, hbatch, rfl⟩
    exact ⟨(t, w), hv, bind_eq_ok.2 ⟨(s', ws), hbatch, rfl⟩⟩

theorem processAll_append {xs ys : List (Json F × Env F Uuid)} {all : List (Writes F Uuid)} :
    processAll I cfg s (xs ++ ys) = .ok (s', all) ↔
      ∃ t ws ws', processAll I cfg s xs = .ok (t, ws) ∧ processAll I cfg t ys = .ok (s', ws') ∧ all = ws ++ ws' := by
  induction xs generalizing s all with
  | nil =>
    constructor
    · intro h
      exact ⟨s, [], all, rfl, h, rfl⟩
    · rintro ⟨t, ws, ws', ⟨⟩, h, rfl⟩
      exact h
  | cons x xs ih =>
    obtain ⟨v, env⟩ := x
    rw [List.cons_append, processAll_cons]
    constructor
    · rintro ⟨t, w, ws, hv, h, rfl⟩
      obtain ⟨u, ws, ws', hxs, hys, rfl⟩ := ih.1 h
      exact ⟨u, w :: ws, ws', processAll_cons.2 ⟨t, w, ws, hv, hxs, rfl⟩, hys, rfl⟩
    · rintro ⟨u, _, ws', h, hys, rfl⟩
      obtain ⟨t, w, ws, hv, hxs, rfl⟩ := processAll_cons.1 h
      exact ⟨t, w, ws ++ ws', hv, ih.2 ⟨u, ws, ws', hxs, hys, rfl⟩, rfl⟩

end

/-! ## What gets through -/

/-- The field is missing, or `float()` takes it. -/
def Numeric (fields : List (Text × Json F)) (key : String) : Prop :=
  ∀ x ∈ fields.lookup (py key), Returns (x.toFloat I)

/-- An object, with an object or something false for its position, and numbers
where numbers are read. -/
structure ReadableFields (fields position : List (Text × Json F)) : Prop where
  object : ((fields.lookup (py "position")).getD .null).orEmpty I = .dict position
  lat : Numeric I position "lat"
  lon : Numeric I position "lon"
  altitude : Numeric I fields "z_m"
  tempExternal : Numeric I fields "temp_external_c"
  tempInternal : Numeric I fields "temp_internal_c"

def Readable (v : Json F) : Prop := ∃ fields position, v = .dict fields ∧ ReadableFields I fields position

/-- What a message says can be put into the three tables: its position after the one
before, no infinite latitude outside a zone, text that UTF-8 can encode, numbers
for the 32-bit columns, and an age in seconds for another. -/
structure Writable (cfg : Config) (s : Sink F) (r : Reading F Uuid) (env : Env F Uuid) : Prop where
  moves : ∀ prev ∈ s.tracker r.entityId, Movable I.floats prev r.latitude r.longitude
  zones : ∀ zone ∈ s.cache env, I.floats.infinite r.latitude = true →
    zone.ring.length < 3 ∨ pointInPolygon I.floats.toArith r.latitude r.longitude zone.ring = .ok true
  texts : ∀ t ∈ [r.entityId, r.eventType, r.observerId, r.textPayload], encodable t = true
  singles : ∀ x ∈ [r.altitudeM, r.tempExternalC, r.tempInternalC], Returns (I.floats.single x)
  age : telemetryAge r env < 2147483648
  bucket : Buckets.HasBucket cfg.eventBucketMinutes r.eventTime
  shards : cfg.eventShards ≠ 0
  shard : -2147483648 ≤ (I.crc32 r.eventId).fmod cfg.eventShards ∧ (I.crc32 r.eventId).fmod cfg.eventShards < 2147483648

def Processable (cfg : Config) (s : Sink F) (v : Json F) (env : Env F Uuid) : Prop :=
  Readable I v ∧ ∀ r, read I v env = .ok r → Writable I cfg s r env

/-- Every message, in its turn, gets through. -/
def AllProcessable (cfg : Config) : Sink F → List (Json F × Env F Uuid) → Prop
  | _, [] => True
  | s, (v, env) :: rest => Processable I cfg s v env ∧
      ∀ s' writes, process I cfg s v env = .ok (s', writes) → AllProcessable cfg s' rest

variable {I}

theorem returns_field {fields : List (Text × Json F)} {key : String} : Returns ((Json.dict fields).field I key) :=
  ⟨_, rfl⟩

theorem returns_number {v : Json F} {key : String} :
    Returns (v.number I key) ↔ ∃ fields, v = .dict fields ∧ Numeric I fields key := by
  cases v with
  | dict fields =>
    unfold Json.number Numeric Json.get
    rw [ok_bind]
    cases hx : fields.lookup (py key) with
    | none => simp [hx, Json.toFloat]
    | some x => simp [hx]
  | _ => simp [Json.number, Json.get, returns_bind]

/-- Line by line. -/
theorem returns_read_dict {fields : List (Text × Json F)} {env : Env F Uuid} : Returns (read I (.dict fields) env) ↔
    (∃ position, ((fields.lookup (py "position")).getD .null).orEmpty I = .dict position ∧
      Numeric I position "lat" ∧ Numeric I position "lon") ∧
      Numeric I fields "z_m" ∧ Numeric I fields "temp_external_c" ∧ Numeric I fields "temp_internal_c" := by
  have hnum (key : String) : Returns ((Json.dict fields).number I key) ↔ Numeric I fields key := by
    simp [returns_number]
  have htext (key : String) : Returns ((Json.dict fields).field I key) := returns_field
  set object := ((fields.lookup (py "position")).getD .null).orEmpty I with hobject
  have hlines : Returns (read I (.dict fields) env) ↔ Returns (object.number I "lat") ∧
      Returns (object.number I "lon") ∧ Numeric I fields "z_m" ∧ Numeric I fields "temp_external_c" ∧
      Numeric I fields "temp_internal_c" := by
    simp only [← hnum]
    refine returns_bind_iff (htext _) fun entityId _ => ?_
    refine returns_bind_iff ⟨_, rfl⟩ fun position hposition => ?_
    cases hposition
    refine returns_bind_and fun latitude _ => returns_bind_and fun longitude _ => returns_bind_and fun altitudeM _ => ?_
    refine returns_bind_iff (htext _) fun eventType _ => returns_bind_iff (htext _) fun observerId _ => ?_
    refine returns_bind_and fun tempExternalC _ => ?_
    refine (returns_bind_and fun tempInternalC _ => iff_true_intro ?_).trans (and_iff_left trivial)
    exact (htext _).bind fun textPayload => returns_pure _
  rw [hlines, returns_number, returns_number]
  constructor
  · rintro ⟨⟨position, hdict, hlat⟩, ⟨_, hdict', hlon⟩, h⟩
    cases hdict.symm.trans hdict'
    exact ⟨⟨position, hdict, hlat, hlon⟩, h⟩
  · rintro ⟨⟨position, hdict, hlat, hlon⟩, h⟩
    exact ⟨⟨position, hdict, hlat⟩, ⟨position, hdict, hlon⟩, h⟩

theorem returns_read {v : Json F} (env : Env F Uuid) : Returns (read I v env) ↔ Readable I v := by
  cases v with
  | dict fields =>
    rw [returns_read_dict]
    constructor
    · rintro ⟨⟨position, hobject, hlat, hlon⟩, hz, hexternal, hinternal⟩
      exact ⟨fields, position, rfl, hobject, hlat, hlon, hz, hexternal, hinternal⟩
    · rintro ⟨_, position, ⟨⟩, hobject, hlat, hlon, hz, hexternal, hinternal⟩
      exact ⟨⟨position, hobject, hlat, hlon⟩, hz, hexternal, hinternal⟩
  | _ =>
    refine iff_of_false ?_ ?_
    · simp [read, Json.field, Json.get, returns_bind]
    · rintro ⟨_, _, ⟨⟩, -⟩

theorem returns_bindText {s : Text} : Returns (bindText s) ↔ encodable s = true := by
  unfold bindText
  split <;> simp_all

theorem returns_bindInt {n : Int} : Returns (bindInt n) ↔ -2147483648 ≤ n ∧ n < 2147483648 := by
  unfold bindInt
  split <;> simp_all

section
variable {cfg : Config} {s : Sink F} {r : Reading F Uuid} {env : Env F Uuid} {motion : Motion F} {score : Score F}

theorem returns_eventBucket {t : Aware} : Returns (eventBucket cfg t) ↔ Buckets.HasBucket cfg.eventBucketMinutes t := by
  rw [← Buckets.returns_eventBucket, eventBucket]
  cases Buckets.eventBucket cfg.eventBucketMinutes t <;> simp [Except.mapError]

/-- With one shard or more, but no more than 2^31, every shard is an `int`. -/
theorem shard_fits {id : Uuid} (hpos : 0 < cfg.eventShards) (hle : cfg.eventShards ≤ 2147483648) :
    -2147483648 ≤ (I.crc32 id).fmod cfg.eventShards ∧ (I.crc32 id).fmod cfg.eventShards < 2147483648 := by
  have hlo := Int.fmod_nonneg_of_pos (I.crc32 id) hpos
  have hhi := Int.fmod_lt_of_pos (I.crc32 id) hpos
  omega

variable (r env) in
theorem telemetryAge_nonneg : 0 ≤ telemetryAge r env := le_max_left _ _

theorem returns_bindRaw : Returns (bindRaw I cfg r) ↔ Buckets.HasBucket cfg.eventBucketMinutes r.eventTime ∧
    (cfg.eventShards ≠ 0 ∧ -2147483648 ≤ (I.crc32 r.eventId).fmod cfg.eventShards ∧
      (I.crc32 r.eventId).fmod cfg.eventShards < 2147483648) ∧
      (∀ t ∈ [r.entityId, r.eventType, r.observerId, r.textPayload], encodable t = true) ∧
        ∀ x ∈ [r.altitudeM, r.tempExternalC, r.tempInternalC], Returns (I.floats.single x) := by
  have hlines : Returns (bindRaw I cfg r) ↔ Returns (eventBucket cfg r.eventTime) ∧
      (∃ n, eventShard I cfg r.eventId = .ok n ∧ Returns (bindInt n) ∧ Returns (bindText r.entityId) ∧
        Returns (bindText r.eventType) ∧ Returns (bindText r.observerId) ∧ Returns (I.floats.single r.altitudeM) ∧
        Returns (I.floats.single r.tempExternalC) ∧ Returns (I.floats.single r.tempInternalC) ∧
        Returns (bindText r.textPayload)) := by
    refine returns_bind_and fun bucket _ => returns_bind.trans (exists_congr fun n => and_congr_right fun _ => ?_)
    refine returns_bind_and fun shard _ => ?_
    refine returns_bind_and fun entityId _ => returns_bind_and fun eventType _ => returns_bind_and fun observerId _ => ?_
    refine returns_bind_and fun altitudeM _ => returns_bind_and fun external _ => returns_bind_and fun internal _ => ?_
    exact (returns_bind_and fun text _ => iff_true_intro (returns_pure _)).trans (and_iff_left trivial)
  rw [hlines, returns_eventBucket, eventShard]
  simp only [returns_bindText, returns_bindInt, List.forall_mem_cons]
  by_cases hshards : cfg.eventShards = 0
  · simp [hshards]
  · rw [if_neg hshards]
    simp only [Except.ok.injEq, exists_eq_left']
    tauto

theorem returns_bindHistory : Returns (bindHistory I r motion score) ↔
    (∀ t ∈ [r.entityId, r.eventType, r.observerId, r.textPayload], encodable t = true) ∧
      ∀ x ∈ [r.altitudeM, r.tempExternalC, r.tempInternalC], Returns (I.floats.single x) := by
  have hlines : Returns (bindHistory I r motion score) ↔ Returns (bindText r.entityId) ∧ Returns (bindText r.eventType) ∧
      Returns (bindText r.observerId) ∧ Returns (I.floats.single r.altitudeM) ∧
      Returns (I.floats.single r.tempExternalC) ∧ Returns (I.floats.single r.tempInternalC) ∧
      Returns (bindText r.textPayload) := by
    refine returns_bind_and fun entityId _ => returns_bind_and fun eventType _ => returns_bind_and fun observerId _ => ?_
    refine returns_bind_and fun altitudeM _ => returns_bind_and fun external _ => returns_bind_and fun internal _ => ?_
    exact (returns_bind_and fun text _ => iff_true_intro (returns_pure _)).trans (and_iff_left trivial)
  rw [hlines]
  simp only [returns_bindText, List.forall_mem_cons]
  tauto

theorem returns_bindLatest : Returns (bindLatest I r motion score env) ↔
    (∀ t ∈ [r.entityId, r.eventType, r.observerId, r.textPayload], encodable t = true) ∧
      (∀ x ∈ [r.altitudeM, r.tempExternalC, r.tempInternalC], Returns (I.floats.single x)) ∧
        telemetryAge r env < 2147483648 := by
  have hlines : Returns (bindLatest I r motion score env) ↔ Returns (bindText r.eventType) ∧
      Returns (bindText r.observerId) ∧ Returns (I.floats.single r.altitudeM) ∧
      Returns (I.floats.single r.tempExternalC) ∧ Returns (I.floats.single r.tempInternalC) ∧
      Returns (bindInt (telemetryAge r env)) ∧ Returns (bindText r.textPayload) ∧ Returns (bindText r.entityId) := by
    refine returns_bind_and fun eventType _ => returns_bind_and fun observerId _ => ?_
    refine returns_bind_and fun altitudeM _ => returns_bind_and fun external _ => returns_bind_and fun internal _ => ?_
    refine returns_bind_and fun age _ => returns_bind_and fun text _ => ?_
    exact (returns_bind_and fun entityId _ => iff_true_intro (returns_pure _)).trans (and_iff_left trivial)
  have hage : -2147483648 ≤ telemetryAge r env := by
    have := telemetryAge_nonneg r env
    omega
  rw [hlines]
  simp only [returns_bindText, returns_bindInt, List.forall_mem_cons, hage, true_and]
  tauto

/-- What is left to do with a message that can be read. -/
theorem returns_written (hA : I.floats.Lawful) :
    Returns (do
      let (tracker, motion) ← update I.floats s.tracker r.entityId r.latitude r.longitude r.altitudeM r.eventTime
      let score ← checkProximity I.floats.toArith (s.cache env) r.latitude r.longitude
      let raw ← bindRaw I cfg r
      let history ← bindHistory I r motion score
      let latest ← bindLatest I r motion score env
      return ((⟨tracker, s.cache env, true⟩ : Sink F), (⟨raw, history, latest⟩ : Writes F Uuid))) ↔
      Writable I cfg s r env := by
  have hbinds (tracker : Text → Option (Entry F)) (motion : Motion F) (score : Score F) : Returns (do
      let raw ← bindRaw I cfg r
      let history ← bindHistory I r motion score
      let latest ← bindLatest I r motion score env
      return ((⟨tracker, s.cache env, true⟩ : Sink F), (⟨raw, history, latest⟩ : Writes F Uuid))) ↔
      Returns (bindRaw I cfg r) ∧ telemetryAge r env < 2147483648 := by
    rw [returns_bind_and fun raw _ => returns_bind_and fun history _ => returns_bind_and fun latest _ =>
      iff_true_intro (returns_pure _), returns_bindRaw, returns_bindHistory, returns_bindLatest]
    tauto
  rw [returns_bind_and fun moved _ => returns_bind_and fun score _ => hbinds _ _ _, returns_update hA,
    returns_checkProximity hA, returns_bindRaw]
  constructor
  · rintro ⟨hmoves, hzones, ⟨hbucket, ⟨hshards, hshard⟩, htexts, hsingles⟩, hage⟩
    exact ⟨hmoves, hzones, htexts, hsingles, hage, hbucket, hshards, hshard⟩
  · rintro ⟨hmoves, hzones, htexts, hsingles, hage, hbucket, hshards, hshard⟩
    exact ⟨hmoves, hzones, ⟨hbucket, ⟨hshards, hshard⟩, htexts, hsingles⟩, hage⟩

/-- One message gets through exactly when it can be read and written. -/
theorem returns_process (hA : I.floats.Lawful) {v : Json F} :
    Returns (process I cfg s v env) ↔ Processable I cfg s v env := by
  unfold process Processable
  rw [← returns_read env, returns_bind]
  constructor
  · rintro ⟨r, hr, h⟩
    refine ⟨⟨r, hr⟩, fun r' hr' => ?_⟩
    cases hr.symm.trans hr'
    exact (returns_written hA).1 h
  · rintro ⟨⟨r, hr⟩, h⟩
    exact ⟨r, hr, (returns_written hA).2 (h r hr)⟩

theorem returns_processAll (hA : I.floats.Lawful) {batch : List (Json F × Env F Uuid)} :
    Returns (processAll I cfg s batch) ↔ AllProcessable I cfg s batch := by
  induction batch generalizing s with
  | nil => simp [processAll, AllProcessable]
  | cons message rest ih =>
    obtain ⟨v, env⟩ := message
    rw [AllProcessable, ← returns_process hA, processAll, returns_bind]
    have hrest (s' : Sink F) (writes : Writes F Uuid) :
        Returns (do let (s, more) ← processAll I cfg s' rest; return (s, writes :: more)) ↔
          AllProcessable I cfg s' rest :=
      ((returns_bind_and fun _ _ => iff_true_intro (returns_pure _)).trans (and_iff_left trivial)).trans ih
    constructor
    · rintro ⟨⟨s', writes⟩, hs', h⟩
      refine ⟨⟨_, hs'⟩, fun s'' writes' hs'' => ?_⟩
      cases hs'.symm.trans hs''
      exact (hrest s' writes).1 h
    · rintro ⟨⟨⟨s', writes⟩, hs'⟩, h⟩
      exact ⟨_, hs', (hrest s' writes).2 (h s' writes hs')⟩

end

/-- A message gets through, and a batch, exactly when it is `Processable`. -/
theorem process_iff (hA : I.floats.Lawful) :
    (∀ cfg s v env, Returns (process I cfg s v env) ↔ Processable I cfg s v env) ∧
      ∀ cfg s batch, Returns (processAll I cfg s batch) ↔ AllProcessable I cfg s batch :=
  ⟨fun _ _ _ _ => returns_process hA, fun _ _ _ => returns_processAll hA⟩

/-! ## On real numbers -/

def hexDigit (c : Nat) : Option Nat :=
  if 48 ≤ c ∧ c < 58 then some (c - 48) else if 97 ≤ c ∧ c < 103 then some (c - 87) else none

/-- `uuid.UUID(s)`, of small digits and hyphens. -/
def uuidOf (s : Text) : Except Exn Nat :=
  match (s.filter (· != 45)).mapM hexDigit with
  | some digits => if digits.length = 32 then .ok (digits.foldl (16 * · + ·) 0) else .error .value
  | none => .error .value

/-- The version 1 time, in units of 100 ns from 1582-10-15 on. -/
def uuidTime (id : Nat) : Nat := id / 2 ^ 64 % 2 ^ 12 * 2 ^ 48 + id / 2 ^ 80 % 2 ^ 16 * 2 ^ 32 + id / 2 ^ 96

def uuidMoment (id : Nat) : Except Exn Moment :=
  ((Calendar.ofMicros (577736 * Calendar.dayMicros + (uuidTime id / 10 : Nat))).map .naive).mapError ofCalendar

/-- The 16 bytes of an id. -/
def uuidBytes (id : Nat) : List Nat := (List.range 16).map fun i => id / 256 ^ (15 - i) % 256

def crcStep (crc : Nat) : Nat := if crc % 2 = 1 then crc / 2 ^^^ 0xEDB88320 else crc / 2

/-- `zlib.crc32`. -/
def crc32 (bytes : List Nat) : Nat :=
  bytes.foldl (fun crc byte => crcStep^[8] (crc ^^^ byte)) 0xFFFFFFFF ^^^ 0xFFFFFFFF

example : crc32 (py "123456789") = 0xCBF43926 := by decide +kernel

/-- An interpreter whose floats are exact. What it makes of text and of lists is not asked here. -/
noncomputable def onReals : Interp ℝ Nat where
  floats := reals
  parse _ := .error .value
  repr _ := []
  uuid := uuidOf
  datetimeFromUuid1 := uuidMoment
  crc32 id := crc32 (uuidBytes id)
  timestamp t := t.instant / 1000

theorem firstOfJuly : (1 ≤ 2026 ∧ 2026 ≤ 9999) ∧ (1 ≤ 7 ∧ 7 ≤ 12) ∧ 1 ≤ 1 ∧ 1 ≤ Calendar.daysInMonth 2026 7 := by
  decide

/-- Noon of that day, with no zones. -/
def noon : Env ℝ Nat :=
  let now : Aware := ⟨Calendar.datetime 2026 7 1 12 0 0 0 firstOfJuly (by decide), 0, Calendar.utc_offset⟩
  ⟨0x4d8ae000754411f1800000163e000001, now, now, none⟩

/-- A message with every field that is read. -/
noncomputable def fullMessage : Json ℝ :=
  .dict [(py "event_id", .str (py "56d19e00-7544-11f1-8000-00163e000001")), (py "entity_id", .str (py "drone-1")),
    (py "position", .dict [(py "lat", .float 0), (py "lon", .float 0.5)]), (py "z_m", .int 120),
    (py "event_type", .str (py "telemetry")), (py "observer_id", .str (py "observer-7")),
    (py "temp_external_c", .float (-4)), (py "temp_internal_c", .float 21), (py "text", .str (py "all clear"))]

def fullTime : Aware := ⟨Calendar.datetime 2026 7 1 11 59 40 0 firstOfJuly (by decide), 0, Calendar.utc_offset⟩

noncomputable def fullReading : Reading ℝ Nat :=
  ⟨0x56d19e00754411f1800000163e000001, fullTime, py "drone-1", 0, 0.5, ((120 : Int) : ℝ), py "telemetry",
    py "observer-7", -4, 21, py "all clear"⟩

/-- The asset has been seen before, and there is a zone about it. -/
noncomputable def busySink : Sink ℝ :=
  ⟨fun _ => some ⟨0, 0.4, 0, fullTime, none, none⟩, [⟨"square", [(-1, -1), (-1, 1), (1, 1), (1, -1)]⟩], true⟩

theorem eventIdOf_full : eventIdOf onReals fullMessage = .ok (0x56d19e00754411f1800000163e000001, fullTime) := rfl

theorem read_full : read onReals fullMessage noon = .ok fullReading := by
  unfold read identify
  rw [eventIdOf_full]
  rfl

theorem movable_equator {prev : Entry ℝ} {lon : ℝ} (h : prev.lat = 0) : Movable reals prev 0 lon := by
  refine ⟨rfl, rfl, rfl, fun a ha => ?_⟩
  simp only [haversine, h, reals_half, reals_sin, reals_cos, ok_bind, reals_radians, zero_mul, reals_sub,
    Real.cos_zero] at ha
  cases ha
  simp only [reals_square, reals_mul, reals_add, reals_lt, reals_lit, Rat.cast_zero, decide_eq_false_iff_not, not_lt]
  positivity

theorem processable_full : Processable onReals ⟨15, 16⟩ busySink fullMessage noon := by
  refine ⟨(returns_read noon).1 ⟨_, read_full⟩, fun r hr => ?_⟩
  cases read_full.symm.trans hr
  refine ⟨?_, ?_, ?_, fun x _ => returns_ok x, by decide, by decide, by decide, shard_fits (by decide) (by decide)⟩
  · intro prev hprev
    cases hprev
    exact movable_equator rfl
  · intro zone _ hinfinite
    cases hinfinite
  · simp only [fullReading]
    decide

theorem process_iff_full : reals.Lawful ∧ Returns (process onReals ⟨15, 16⟩ busySink fullMessage noon) :=
  ⟨reals_lawful, ((process_iff (I := onReals) reals_lawful).1 ⟨15, 16⟩ busySink fullMessage noon).2 processable_full⟩

/-- The message `null` has no `get`. -/
theorem null_stops : ¬ ∀ (cfg : Config) (s : Sink ℝ) (v : Json ℝ) (env : Env ℝ Nat),
    Returns (process onReals cfg s v env) :=
  fun h => not_returns_error Exn.attribute (h ⟨15, 16⟩ Sink.init .null noon)

end HtapStack.Consumer
