import HtapStack.Lib.Gather
import Mathlib.Algebra.Order.Floor.Ring
import Mathlib.Data.Sign.Basic
import Mathlib.Tactic.FieldSimp
import Mathlib.Tactic.Linarith
import Mathlib.Tactic.Positivity
/-!
# The simulated fleet

`FleetState.step` of `ingress/producer/producer.py`, on exact numbers: it advances
the assets of a batch, all at once, and reads their telemetry off. Every random
number that it draws is in the `Batch`.

`step_alone`: without repeats in the batch, an asset is advanced as if it were
alone, by its own numbers, and every other asset stays as it is: `step_other`.

Left out: how `__init__` draws the paths, which nothing changes afterwards, and the
rounding to 32 bits.
-/

namespace HtapStack.Fleet
open Gather

/-- The functions of `math`, and of the calendar in UTC. -/
structure Maths (R : Type) where
  sin : R → R
  cos : R → R
  exp : R → R
  sqrt : R → R
  pi : R
  /-- `tm_yday` of a time. -/
  dayOfYear : R → R
  /-- `hour + minute / 60` of a time. -/
  hour : R → R

variable {R : Type} [Field R] [LinearOrder R] {n : Nat}

/-- A number that is written in the code. -/
def lit (q : ℚ) : R := q

omit [LinearOrder R] in
@[simp] theorem lit_eq (q : ℚ) : (lit q : R) = q := rfl

/-- What `step` reads of the configuration. -/
structure FleetConfig (R : Type) [Field R] [LinearOrder R] where
  posNoiseTauS : R := lit 10
  posNoiseSigmaM : R := lit (3 / 2)
  altNoiseTauS : R := lit 25
  altNoiseSigmaM : R := lit (3 / 5)
  isaLapseCPerKm : R := lit (13 / 2)
  internalTauS : R := lit 45
  internalBaseDeltaC : R := lit 8
  internalLoadDeltaC : R := lit 12
  internalNoiseSigmaC : R := lit (1 / 20)
  anomalyDurMinS : R := lit 10
  anomalyDurMaxS : R := lit 60
  anomalyDeltaMinC : R := lit 15
  anomalyDeltaMaxC : R := lit 40
  durations_pos : 0 < anomalyDurMinS
  durations_le : anomalyDurMinS ≤ anomalyDurMaxS
  deltas_le : anomalyDeltaMinC ≤ anomalyDeltaMaxC

/-- What an asset is born with. -/
structure Path (R : Type) where
  lat0 : R
  lon0 : R
  invMPerDegLon : R
  scale : R
  speedRef : R
  w1 : R
  w2 : R
  phi1 : R
  phi2 : R
  phi3 : R
  phi4 : R
  driftX : R
  driftY : R
  tOffset : R
  altBase : R
  altAmp : R
  wAlt : R
  phiAlt : R

/-- The arrays, by asset. -/
structure FleetState (R : Type) where
  t0 : R
  path : Nat → Path R
  noiseX : Nat → R
  noiseY : Nat → R
  noiseAlt : Nat → R
  lastT : Nat → R
  xPrev : Nat → R
  yPrev : Nat → R
  altPrev : Nat → R
  tempIn : Nat → R
  anomEnd : Nat → R
  anomDelta : Nat → R
  textCache : Nat → List Char
  nextTextT : Nat → R
  textRevision : Nat → Nat

/-- What `__init__` leaves. -/
def FleetState.init (t0 : R) (path : Nat → Path R) : FleetState R where
  t0 := t0
  path := path
  noiseX _ := 0
  noiseY _ := 0
  noiseAlt _ := 0
  lastT _ := t0
  xPrev _ := 0
  yPrev _ := 0
  altPrev i := (path i).altBase
  tempIn _ := lit 25
  anomEnd _ := 0
  anomDelta _ := 0
  textCache _ := []
  nextTextT _ := 0
  textRevision _ := 0

/-- `rng.random()`. -/
abbrev Portion (R : Type) [Field R] [LinearOrder R] := {u : R // 0 ≤ u ∧ u < 1}

/-- `rng.uniform(lo, hi)`. -/
def uniform (lo hi : R) (u : Portion R) : R := lo + (hi - lo) * u

/-- What a step is called with, and the arrays that it draws, in their order. -/
structure Batch (R : Type) [Field R] [LinearOrder R] (n : Nat) where
  ids : Fin n → Nat
  now : R
  textSampler : Option (Nat → List Char)
  textRefreshRangeS : R × R
  outlierFraction : R
  normalX : Nat → R
  normalY : Nat → R
  normalAlt : Nat → R
  weather : Nat → R
  sensor : Nat → R
  start : Nat → Portion R
  duration : Nat → Portion R
  delta : Nat → Portion R
  internal : Nat → R
  refresh : Nat → Portion R

/-- What a step returns. -/
structure Telemetry (R : Type) (n : Nat) where
  lat : Fin n → R
  lon : Fin n → R
  zM : Fin n → R
  tempExtC : Fin n → R
  tempIntC : Fin n → R
  text : Fin n → List Char

/-! ## Formulas -/

/-- `np.clip`. -/
def clip (lo hi x : R) : R := min (max x lo) hi

section
variable (m : Maths R) (cfg : FleetConfig R)

/-- `_ou_step`, of one number. -/
def ouStep (x dt tau sigma normal : R) : R :=
  let tau := max (lit (1 / 1000000)) tau
  let a := m.exp (-dt / tau)
  let innovStd := sigma * m.sqrt (1 - m.exp (lit (-2) * dt / tau))
  x * a + innovStd * normal

/-- The path without its noise. -/
def nominalX (p : Path R) (t : R) : R :=
  p.driftX * t + p.scale * (m.sin (p.w1 * t + p.phi1) + lit (1 / 2) * m.sin (p.w2 * t + p.phi2))

def nominalY (p : Path R) (t : R) : R :=
  p.driftY * t + p.scale * (m.cos (p.w1 * t + p.phi3) + lit (1 / 2) * m.cos (p.w2 * t + p.phi4))

def altitude (p : Path R) (t noise : R) : R :=
  clip (lit 5) (lit 600) (p.altBase + p.altAmp * m.sin (p.wAlt * t + p.phiAlt) + noise)

def latitude (p : Path R) (y : R) : R := clip (lit (-85)) (lit 85) (p.lat0 + y * lit (1 / 111320))

/-- `x % y` of floats. -/
def pyMod [FloorRing R] (x y : R) : R := x - y * ⌊x / y⌋

def longitude [FloorRing R] (p : Path R) (x : R) : R :=
  pyMod (p.lon0 + x * p.invMPerDegLon + lit 180) (lit 360) - lit 180

/-- `_external_temp_c`, of one asset. -/
def externalTempC (lat altM now weather sensor : R) : R :=
  let tLat := clip (lit (-35)) (lit 38) (lit 30 - lit (7 / 10) * |lat|)
  let season := m.cos (lit 2 * m.pi * (m.dayOfYear now - lit 173) / lit 365)
  let tSeason := lit 10 * season * (SignType.sign lat : R)
  let tDiurnal := lit 5 * m.sin (lit 2 * m.pi * (m.hour now - lit 14) / lit 24)
  let t0 := tLat + tSeason + tDiurnal + lit (1 / 2) * weather
  let lapse := cfg.isaLapseCPerKm * (altM / lit 1000)
  t0 - lapse + lit (3 / 10) * sensor

/-- `_anomaly_rate_per_s`. -/
def anomalyRatePerS (outlierFraction : R) : R :=
  let target := min (max outlierFraction 0) (lit (99 / 100))
  if target ≤ 0 then 0
  else
    let meanDurationS := (cfg.anomalyDurMinS + cfg.anomalyDurMaxS) / lit 2
    target / (meanDurationS * (1 - target))

end

/-! ## A step, array by array -/

section
variable (m : Maths R) (cfg : FleetConfig R) (f : FleetState R) (b : Batch R n)

/-- Seconds since the asset's last event, capped. -/
def dt (k : Fin n) : R := clip (lit (1 / 1000)) (lit 2) (b.now - f.lastT (b.ids k))

/-- Mission time. -/
def missionT (k : Fin n) : R := b.now - f.t0 + (f.path (b.ids k)).tOffset

def newNoiseX : Nat → R := put f.noiseX b.ids all fun k =>
  ouStep m (f.noiseX (b.ids k)) (dt f b k) cfg.posNoiseTauS cfg.posNoiseSigmaM (b.normalX k)

def newNoiseY : Nat → R := put f.noiseY b.ids all fun k =>
  ouStep m (f.noiseY (b.ids k)) (dt f b k) cfg.posNoiseTauS cfg.posNoiseSigmaM (b.normalY k)

def newNoiseAlt : Nat → R := put f.noiseAlt b.ids all fun k =>
  ouStep m (f.noiseAlt (b.ids k)) (dt f b k) cfg.altNoiseTauS cfg.altNoiseSigmaM (b.normalAlt k)

/-- The noise is read back from its array, here and below. -/
def x (k : Fin n) : R := nominalX m (f.path (b.ids k)) (missionT f b k) + newNoiseX m cfg f b (b.ids k)

def y (k : Fin n) : R := nominalY m (f.path (b.ids k)) (missionT f b k) + newNoiseY m cfg f b (b.ids k)

def alt (k : Fin n) : R := altitude m (f.path (b.ids k)) (missionT f b k) (newNoiseAlt m cfg f b (b.ids k))

def lat (k : Fin n) : R := latitude (f.path (b.ids k)) (y m cfg f b k)

def lon [FloorRing R] (k : Fin n) : R := longitude (f.path (b.ids k)) (x m cfg f b k)

/-- How hard the asset works. -/
def load (k : Fin n) : R :=
  let dx := x m cfg f b k - f.xPrev (b.ids k)
  let dy := y m cfg f b k - f.yPrev (b.ids k)
  let da := alt m cfg f b k - f.altPrev (b.ids k)
  let speed := m.sqrt (dx * dx + dy * dy) / dt f b k
  let climb := da / dt f b k
  clip 0 1 (lit (2 / 5) * (speed / max (f.path (b.ids k)).speedRef (lit (1 / 1000))) + lit (3 / 5) * (|climb| / lit 3))

def tempExt (k : Fin n) : R :=
  externalTempC m cfg (lat m cfg f b k) (alt m cfg f b k) b.now (b.weather k) (b.sensor k)

def startMask (k : Fin n) : Bool :=
  (b.start k).1 < 1 - m.exp (-anomalyRatePerS cfg b.outlierFraction * dt f b k) && f.anomEnd (b.ids k) ≤ b.now

/-- When an anomaly that starts here ends, and by how much it heats. -/
def endsAt (k : Fin n) : R :=
  b.now + uniform cfg.anomalyDurMinS cfg.anomalyDurMaxS (b.duration (rank (startMask m cfg f b) k))

def heatsBy (k : Fin n) : R :=
  uniform cfg.anomalyDeltaMinC cfg.anomalyDeltaMaxC (b.delta (rank (startMask m cfg f b) k))

def newAnomEnd : Nat → R := put f.anomEnd b.ids (startMask m cfg f b) (endsAt m cfg f b)

def newAnomDelta : Nat → R := put f.anomDelta b.ids (startMask m cfg f b) (heatsBy m cfg f b)

def anomExtra (k : Fin n) : R :=
  if b.now < newAnomEnd m cfg f b (b.ids k) then newAnomDelta m cfg f b (b.ids k) else 0

def newTempIn : Nat → R := put f.tempIn b.ids all fun k =>
  let alpha := 1 - m.exp (-dt f b k / cfg.internalTauS)
  let target := tempExt m cfg f b k + cfg.internalBaseDeltaC + cfg.internalLoadDeltaC * load m cfg f b k +
    anomExtra m cfg f b k
  f.tempIn (b.ids k) + alpha * (target - f.tempIn (b.ids k)) + cfg.internalNoiseSigmaC * b.internal k

/-! ### Texts -/

def refreshMask (k : Fin n) : Bool := b.textSampler.isSome && f.nextTextT (b.ids k) ≤ b.now

/-- The seed of an asset's text. -/
def textSeed (idx revision : Nat) : Nat := idx * 1000003 + revision

/-- The texts and their revisions, with one more refresh. -/
def refreshOne (sampler : Nat → List Char) (s : (Nat → List Char) × (Nat → Nat)) (idx : Nat) :
    (Nat → List Char) × (Nat → Nat) :=
  let revision := s.2 idx + 1
  (Function.update s.1 idx (sampler (textSeed idx revision)), Function.update s.2 idx revision)

/-- The assets that are due, one after the other. -/
def due : List Nat := ((List.finRange n).filter (refreshMask f b)).map b.ids

def newTexts : (Nat → List Char) × (Nat → Nat) :=
  match b.textSampler with
  | none => (f.textCache, f.textRevision)
  | some sampler => (due f b).foldl (refreshOne sampler) (f.textCache, f.textRevision)

def newNextTextT : Nat → R := put f.nextTextT b.ids (refreshMask f b) fun k =>
  b.now + uniform b.textRefreshRangeS.1 b.textRefreshRangeS.2 (b.refresh (rank (refreshMask f b) k))

/-- `FleetState.step`. -/
def step [FloorRing R] : FleetState R × Telemetry R n :=
  let fleet := { f with
    noiseX := newNoiseX m cfg f b
    noiseY := newNoiseY m cfg f b
    noiseAlt := newNoiseAlt m cfg f b
    lastT := put f.lastT b.ids all fun _ => b.now
    xPrev := put f.xPrev b.ids all (x m cfg f b)
    yPrev := put f.yPrev b.ids all (y m cfg f b)
    altPrev := put f.altPrev b.ids all (alt m cfg f b)
    tempIn := newTempIn m cfg f b
    anomEnd := newAnomEnd m cfg f b
    anomDelta := newAnomDelta m cfg f b
    textCache := (newTexts f b).1
    nextTextT := newNextTextT f b
    textRevision := (newTexts f b).2 }
  (fleet, {
    lat := lat m cfg f b
    lon := lon m cfg f b
    zM := alt m cfg f b
    tempExtC := tempExt m cfg f b
    tempIntC := fun k => newTempIn m cfg f b (b.ids k)
    text := fun k => if b.textSampler.isSome then (newTexts f b).1 (b.ids k) else [] })

end

/-! ## One asset -/

/-- What the arrays say of an asset. -/
@[ext] structure Asset (R : Type) where
  path : Path R
  noiseX : R
  noiseY : R
  noiseAlt : R
  lastT : R
  xPrev : R
  yPrev : R
  altPrev : R
  tempIn : R
  anomEnd : R
  anomDelta : R
  textCache : List Char
  nextTextT : R
  textRevision : Nat

def FleetState.asset (f : FleetState R) (i : Nat) : Asset R :=
  ⟨f.path i, f.noiseX i, f.noiseY i, f.noiseAlt i, f.lastT i, f.xPrev i, f.yPrev i, f.altPrev i, f.tempIn i,
    f.anomEnd i, f.anomDelta i, f.textCache i, f.nextTextT i, f.textRevision i⟩

/-- A fleet of assets that are all alike. -/
def Asset.fleet (t0 : R) (a : Asset R) : FleetState R where
  t0 := t0
  path _ := a.path
  noiseX _ := a.noiseX
  noiseY _ := a.noiseY
  noiseAlt _ := a.noiseAlt
  lastT _ := a.lastT
  xPrev _ := a.xPrev
  yPrev _ := a.yPrev
  altPrev _ := a.altPrev
  tempIn _ := a.tempIn
  anomEnd _ := a.anomEnd
  anomDelta _ := a.anomDelta
  textCache _ := a.textCache
  nextTextT _ := a.nextTextT
  textRevision _ := a.textRevision

/-- What a step returns of one event. -/
structure Reading (R : Type) where
  lat : R
  lon : R
  zM : R
  tempExtC : R
  tempIntC : R
  text : List Char

def Telemetry.reading (r : Telemetry R n) (k : Fin n) : Reading R :=
  ⟨r.lat k, r.lon k, r.zM k, r.tempExtC k, r.tempIntC k, r.text k⟩

section
variable (m : Maths R) (cfg : FleetConfig R) (f : FleetState R) (b : Batch R n)

/-- A batch of one event of another, with the numbers that are drawn for it there. -/
def Batch.only (k : Fin n) : Batch R 1 where
  ids _ := b.ids k
  now := b.now
  textSampler := b.textSampler
  textRefreshRangeS := b.textRefreshRangeS
  outlierFraction := b.outlierFraction
  normalX _ := b.normalX k
  normalY _ := b.normalY k
  normalAlt _ := b.normalAlt k
  weather _ := b.weather k
  sensor _ := b.sensor k
  start _ := b.start k
  duration _ := b.duration (rank (startMask m cfg f b) k)
  delta _ := b.delta (rank (startMask m cfg f b) k)
  internal _ := b.internal k
  refresh _ := b.refresh (rank (refreshMask f b) k)

end

section
variable {m : Maths R} {cfg : FleetConfig R} {f : FleetState R} {b : Batch R n} {k : Fin n} {i : Nat}

/-- The one place of a batch of one. -/
theorem injective_one (ids : Fin 1 → Nat) : Function.Injective ids := fun _ _ _ => Subsingleton.elim _ _

/-- Refreshes, one after the other: an asset that comes up gets the text of its last one. -/
theorem foldl_refreshOne (sampler : Nat → List Char) (l : List Nat) (s : (Nat → List Char) × (Nat → Nat)) (i : Nat) :
    (l.foldl (refreshOne sampler) s).2 i = s.2 i + l.count i ∧
      (l.foldl (refreshOne sampler) s).1 i =
        if l.count i = 0 then s.1 i else sampler (textSeed i (s.2 i + l.count i)) := by
  induction l generalizing s with
  | nil => exact ⟨rfl, rfl⟩
  | cons j l ih =>
    obtain ⟨hrevision, htext⟩ := ih (refreshOne sampler s j)
    rw [List.foldl_cons, hrevision, htext]
    by_cases hj : j = i
    · subst hj
      have hone : (refreshOne sampler s j).2 j = s.2 j + 1 := Function.update_self ..
      have hcache : (refreshOne sampler s j).1 j = sampler (textSeed j (s.2 j + 1)) := Function.update_self ..
      rw [List.count_cons_self, hone, hcache]
      refine ⟨by omega, ?_⟩
      rw [if_neg (Nat.succ_ne_zero _)]
      split
      · rename_i hzero
        rw [hzero]
      · rw [show s.2 j + 1 + l.count j = s.2 j + (l.count j + 1) by omega]
    · rw [List.count_cons_of_ne hj]
      have hrev : (refreshOne sampler s j).2 i = s.2 i := Function.update_of_ne (Ne.symm hj) ..
      have hcache : (refreshOne sampler s j).1 i = s.1 i := Function.update_of_ne (Ne.symm hj) ..
      rw [hrev, hcache]
      exact ⟨rfl, rfl⟩

theorem count_due (f : FleetState R) (b : Batch R n) (i : Nat) :
    (due f b).count i = (places b.ids (refreshMask f b) i).length := by
  rw [due, List.count, List.countP_map, List.countP_filter, places, ← List.countP_eq_length_filter]
  refine List.countP_congr fun k _ => ?_
  simp [and_comm]

section
variable (hinj : Function.Injective b.ids)
include hinj

theorem count_due_injective : (due f b).count (b.ids k) = if refreshMask f b k then 1 else 0 := by
  have hplaces : places b.ids (refreshMask f b) (b.ids k) =
      (List.finRange n).filter fun j => j == k && refreshMask f b k := by
    refine List.filter_congr fun j _ => ?_
    by_cases hj : j = k
    · subst hj
      rw [beq_self_eq_true, beq_self_eq_true, Bool.and_comm]
    · have hid : b.ids j ≠ b.ids k := fun h => hj (hinj h)
      rw [beq_eq_false_iff_ne.2 hid, beq_eq_false_iff_ne.2 hj, Bool.and_false, Bool.false_and]
  rw [count_due, hplaces]
  cases refreshMask f b k with
  | false => simp
  | true =>
    simp only [Bool.and_true, if_true]
    rw [← List.countP_eq_length_filter]
    exact List.count_eq_one_of_mem (List.nodup_finRange n) (List.mem_finRange k)

/-! Function by function, an event in a batch is as if its asset were alone. -/

theorem x_only : x m cfg f b k = x m cfg ((f.asset (b.ids k)).fleet f.t0) (b.only m cfg f k) 0 :=
  congrArg (nominalX m (f.path (b.ids k)) (missionT f b k) + ·) (put_congr hinj (injective_one _) rfl rfl rfl)

theorem y_only : y m cfg f b k = y m cfg ((f.asset (b.ids k)).fleet f.t0) (b.only m cfg f k) 0 :=
  congrArg (nominalY m (f.path (b.ids k)) (missionT f b k) + ·) (put_congr hinj (injective_one _) rfl rfl rfl)

theorem alt_only : alt m cfg f b k = alt m cfg ((f.asset (b.ids k)).fleet f.t0) (b.only m cfg f k) 0 :=
  congrArg (altitude m (f.path (b.ids k)) (missionT f b k)) (put_congr hinj (injective_one _) rfl rfl rfl)

theorem lat_only : lat m cfg f b k = lat m cfg ((f.asset (b.ids k)).fleet f.t0) (b.only m cfg f k) 0 :=
  congrArg (latitude (f.path (b.ids k))) (y_only hinj)

theorem load_only : load m cfg f b k = load m cfg ((f.asset (b.ids k)).fleet f.t0) (b.only m cfg f k) 0 := by
  unfold load
  rw [x_only hinj, y_only hinj, alt_only hinj]
  rfl

theorem tempExt_only : tempExt m cfg f b k = tempExt m cfg ((f.asset (b.ids k)).fleet f.t0) (b.only m cfg f k) 0 := by
  unfold tempExt
  rw [lat_only hinj, alt_only hinj]
  rfl

theorem anomExtra_only :
    anomExtra m cfg f b k = anomExtra m cfg ((f.asset (b.ids k)).fleet f.t0) (b.only m cfg f k) 0 := by
  have hend : newAnomEnd m cfg f b (b.ids k) =
      newAnomEnd m cfg ((f.asset (b.ids k)).fleet f.t0) (b.only m cfg f k) ((b.only m cfg f k).ids 0) :=
    put_congr hinj (injective_one _) rfl rfl rfl
  have hdelta : newAnomDelta m cfg f b (b.ids k) =
      newAnomDelta m cfg ((f.asset (b.ids k)).fleet f.t0) (b.only m cfg f k) ((b.only m cfg f k).ids 0) :=
    put_congr hinj (injective_one _) rfl rfl rfl
  unfold anomExtra
  rw [hend, hdelta]
  rfl

theorem newTempIn_only : newTempIn m cfg f b (b.ids k) =
    newTempIn m cfg ((f.asset (b.ids k)).fleet f.t0) (b.only m cfg f k) ((b.only m cfg f k).ids 0) := by
  refine put_congr hinj (injective_one _) rfl ?_ rfl
  dsimp only
  rw [anomExtra_only hinj, tempExt_only hinj, load_only hinj]
  rfl

theorem newTexts_only (m : Maths R) (cfg : FleetConfig R) (f : FleetState R) (k : Fin n) :
    (newTexts f b).1 (b.ids k) =
        (newTexts ((f.asset (b.ids k)).fleet f.t0) (b.only m cfg f k)).1 (b.ids k) ∧
      (newTexts f b).2 (b.ids k) =
        (newTexts ((f.asset (b.ids k)).fleet f.t0) (b.only m cfg f k)).2 (b.ids k) := by
  have hcount : (due f b).count (b.ids k) =
      (due ((f.asset (b.ids k)).fleet f.t0) (b.only m cfg f k)).count (b.ids k) := by
    rw [count_due_injective hinj]
    exact (count_due_injective (injective_one (b.only m cfg f k).ids) (k := 0)).symm
  have hsampler : (b.only m cfg f k).textSampler = b.textSampler := rfl
  unfold newTexts
  rw [hsampler]
  cases b.textSampler with
  | none => exact ⟨rfl, rfl⟩
  | some sampler =>
    obtain ⟨hrevision, htext⟩ := foldl_refreshOne sampler (due f b) (f.textCache, f.textRevision) (b.ids k)
    obtain ⟨hrevision', htext'⟩ := foldl_refreshOne sampler (due ((f.asset (b.ids k)).fleet f.t0) (b.only m cfg f k))
      (((f.asset (b.ids k)).fleet f.t0).textCache, ((f.asset (b.ids k)).fleet f.t0).textRevision) (b.ids k)
    dsimp only
    rw [htext, htext', hrevision, hrevision', hcount]
    exact ⟨rfl, rfl⟩

end

theorem not_taken (hi : i ∉ Set.range b.ids) {α : Type} {a : Nat → α} {mask : Fin n → Bool} {vals : Fin n → α} :
    put a b.ids mask vals i = a i :=
  put_of_none fun k _ hk => hi ⟨k, hk⟩

theorem newTexts_other (hi : i ∉ Set.range b.ids) :
    (newTexts f b).1 i = f.textCache i ∧ (newTexts f b).2 i = f.textRevision i := by
  have hcount : (due f b).count i = 0 := by
    apply List.count_eq_zero.2
    intro hmem
    obtain ⟨k, -, hk⟩ := List.mem_map.1 hmem
    exact hi ⟨k, hk⟩
  unfold newTexts
  cases b.textSampler with
  | none => exact ⟨rfl, rfl⟩
  | some sampler =>
    obtain ⟨hrevision, htext⟩ := foldl_refreshOne sampler (due f b) (f.textCache, f.textRevision) i
    rw [hcount] at hrevision htext
    exact ⟨htext, hrevision⟩

variable [FloorRing R]

/-- A step leaves the assets alone that are not in its batch. -/
theorem step_other (hi : i ∉ Set.range b.ids) : (step m cfg f b).1.asset i = f.asset i := by
  obtain ⟨htext, hrevision⟩ := newTexts_other (f := f) hi
  apply Asset.ext
  · rfl
  all_goals first
    | exact not_taken hi
    | exact htext
    | exact hrevision

/-- In a batch without repeats an asset is advanced as if it were alone. -/
theorem step_alone (m : Maths R) (cfg : FleetConfig R) (f : FleetState R) (hinj : Function.Injective b.ids) (k : Fin n) :
    let alone := step m cfg ((f.asset (b.ids k)).fleet f.t0) (b.only m cfg f k)
    (step m cfg f b).1.asset (b.ids k) = alone.1.asset (b.ids k) ∧
      (step m cfg f b).2.reading k = alone.2.reading 0 := by
  obtain ⟨htext, hrevision⟩ := newTexts_only hinj m cfg f k
  have hone := injective_one (b.only m cfg f k).ids
  constructor
  · apply Asset.ext
    · rfl
    · exact put_congr (j := 0) hinj hone rfl rfl rfl
    · exact put_congr (j := 0) hinj hone rfl rfl rfl
    · exact put_congr (j := 0) hinj hone rfl rfl rfl
    · exact put_congr (j := 0) hinj hone rfl rfl rfl
    · exact put_congr (j := 0) hinj hone rfl (x_only hinj) rfl
    · exact put_congr (j := 0) hinj hone rfl (y_only hinj) rfl
    · exact put_congr (j := 0) hinj hone rfl (alt_only hinj) rfl
    · exact newTempIn_only hinj
    · exact put_congr (j := 0) hinj hone rfl rfl rfl
    · exact put_congr (j := 0) hinj hone rfl rfl rfl
    · exact htext
    · exact put_congr (j := 0) hinj hone rfl rfl rfl
    · exact hrevision
  · simp only [Telemetry.reading, Reading.mk.injEq]
    refine ⟨lat_only hinj, ?_, alt_only hinj, tempExt_only hinj, newTempIn_only hinj, ?_⟩
    · exact congrArg (longitude (f.path (b.ids k))) (x_only hinj)
    · show (if b.textSampler.isSome then _ else _) = if b.textSampler.isSome then _ else _
      rw [htext]
      rfl

end

end HtapStack.Fleet
