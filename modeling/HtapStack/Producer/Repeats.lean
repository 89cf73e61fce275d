import HtapStack.Producer.Messages
/-!
# An asset that is in a turn twice

A turn of `main` in `ingress/producer/producer.py` may send more events than its fleet
has assets. The places of the batch then repeat, and `FleetState.step` reads what it
returns back from the arrays, after all of the batch is written there.

`repeats_stand_still`: so a turn's events of one asset differ in their external
temperature only, and the sink writes the later ones with the speed 0 and the heading 0,
whatever it processed before and whatever comes in between of other assets.
-/

namespace HtapStack.Messages
open Py Consumer Producer Tracker

/-! ## One position -/

/-- Places of the same asset differ in the external temperature only, which is drawn for each. -/
theorem step_repeats {R : Type} [Field R] [LinearOrder R] [FloorRing R] (m : Fleet.Maths R)
    (cfg : Fleet.FleetConfig R) (f : Fleet.FleetState R) {n : Nat} (b : Fleet.Batch R n) {j k : Fin n}
    (h : b.ids j = b.ids k) :
    let r := (Fleet.step m cfg f b).2
    r.reading j = { r.reading k with tempExtC := r.tempExtC j } := by
  simp only [Fleet.Telemetry.reading, Fleet.step, Fleet.lat, Fleet.lon, Fleet.alt, Fleet.x, Fleet.y, Fleet.missionT,
    h]

theorem sentIn_repeats (m : Fleet.Maths ℝ) (fleetCfg : Fleet.FleetConfig ℝ) (c : Producer.Config) (main : Main ℝ)
    (t : Turn) (d : Draws ℝ) {e e' : Sent ℝ} (he : e ∈ sentIn m fleetCfg c main t d)
    (he' : e' ∈ sentIn m fleetCfg c main t d) (hindex : e'.index = e.index) :
    e'.telemetry = { e.telemetry with tempExtC := e'.telemetry.tempExtC } := by
  obtain ⟨k, -, rfl⟩ := List.mem_map.1 he
  obtain ⟨k', -, rfl⟩ := List.mem_map.1 he'
  exact step_repeats m fleetCfg main.fleet (stepped c main t d) hindex

/-! ## Other times -/

theorem sentBy_time {c : Producer.Config} {s : Loop} {t : Turn} {k : Nat} {event : Producer.Event}
    (h : (sentBy c s t)[k]? = some event) :
    0 < batchN c s t ∧ event.time = t.loopStart + k * (c.periodS / batchN c s t) := by
  unfold sentBy at h
  split at h
  · cases h
  · rw [batch, List.getElem?_map] at h
    obtain ⟨j, hj, rfl⟩ := Option.map_eq_some_iff.1 h
    obtain ⟨hk, rfl⟩ := List.getElem?_eq_some_iff.1 hj
    rw [List.length_range] at hk
    rw [List.getElem_range]
    exact ⟨by omega, rfl⟩

/-- No two places of a batch have the same time. -/
theorem sentBy_times_ne {c : Producer.Config} {s : Loop} {t : Turn} {k k' : Nat} {event event' : Producer.Event}
    (h : (sentBy c s t)[k]? = some event) (h' : (sentBy c s t)[k']? = some event') (hne : k ≠ k') :
    event'.time ≠ event.time := by
  obtain ⟨hpos, htime⟩ := sentBy_time h
  obtain ⟨-, htime'⟩ := sentBy_time h'
  have hstep : c.periodS / batchN c s t ≠ 0 := (div_pos c.periodS_pos (Int.cast_pos.2 hpos)).ne'
  intro hsame
  rw [htime, htime', add_right_inj, mul_left_inj' hstep, Nat.cast_inj] at hsame
  exact hne hsame.symm

theorem sentIn_event {m : Fleet.Maths ℝ} {fleetCfg : Fleet.FleetConfig ℝ} {c : Producer.Config} {main : Main ℝ}
    {t : Turn} {d : Draws ℝ} {k : Nat} {e : Sent ℝ} (h : (sentIn m fleetCfg c main t d)[k]? = some e) :
    ∃ event, (sentBy c main.loop t)[k]? = some event ∧ e.time = event.time := by
  rw [sentIn, List.getElem?_map] at h
  obtain ⟨j, hj, rfl⟩ := Option.map_eq_some_iff.1 h
  obtain ⟨hk, rfl⟩ := List.getElem?_eq_some_iff.1 hj
  rw [List.getElem_finRange]
  exact ⟨_, List.getElem?_eq_getElem _, rfl⟩

/-! ## No motion -/

theorem distance_same (lat lon : ℝ) : haversineDistanceM reals lat lon lat lon = .ok 0 := by
  have hmin : reals.min 1 0 = 0 := by simp [reals]
  -- Both differences are zero, so what is under the root is too.
  have ha : haversine reals lat lon lat lon = .ok 0 := by
    simp only [haversine, reals_half, reals_sin, reals_cos, ok_bind, reals_radians, reals_sub, sub_self, zero_mul,
      zero_div, Real.sin_zero, reals_square, reals_mul, reals_add]
    exact congrArg Except.ok (by ring)
  rw [haversineDistanceM, ha, ok_bind, reals_sqrt, if_neg (lt_irrefl 0), ok_bind, Real.sqrt_zero, reals_lit,
    Rat.cast_one, hmin, reals_asin, if_neg (by norm_num), ok_bind, Real.arcsin_zero, reals_mul, mul_zero]
  rfl

theorem bearing_same (lat lon : ℝ) : computeBearingDeg reals lat lon lat lon = .ok 0 := by
  simp only [computeBearingDeg, reals_sin, reals_cos, ok_bind, reals_radians, reals_sub, sub_self, zero_mul,
    Real.sin_zero, Real.cos_zero, reals_mul, mul_one]
  rw [mul_comm (Real.sin _), sub_self]
  refine congrArg Except.ok ?_
  -- `atan2` of two zeros is zero, as in C.
  have harg : Complex.arg ⟨0, 0⟩ = 0 := Complex.arg_zero
  rw [reals_atan2, harg, reals_degrees, reals_lit, reals_add, reals_mod360]
  norm_num

/-- From a position to itself there is no speed and no heading. -/
theorem derive_same {p entry : Entry ℝ} {alt : ℝ} {time : Calendar.Aware} {motion : Motion ℝ}
    (h : derive reals (some p) p.lat p.lon alt time = .ok (entry, motion)) :
    motion.speedMps = 0 ∧ motion.headingDeg = 0 := by
  have hheading := derive_heading h
  rw [bearing_same] at hheading
  obtain ⟨distM, hdist, h⟩ := bind_eq_ok.1 h
  obtain ⟨ratio, hratio, h⟩ := bind_eq_ok.1 h
  obtain ⟨heading, -, h⟩ := bind_eq_ok.1 h
  rw [distance_same] at hdist
  cases hdist
  have helapsed := elapsed_ne_zero reals_lawful p time
  rw [reals_eq, decide_eq_false_iff_not, reals_lit, Rat.cast_zero] at helapsed
  rw [reals_div _ helapsed, zero_div] at hratio
  cases hratio
  cases h
  refine ⟨?_, (Except.ok.inj hheading).symm⟩
  simp [maxPlausibleSpeedMps]

/-! ## Between two events of an asset -/

/-- The rows say that the asset stands still. -/
structure Still (w : Writes ℝ Uuid) : Prop where
  speed : w.history.speedMps = 0 ∧ w.latest.speedMps = 0
  heading : w.history.headingDeg = 0 ∧ w.latest.headingDeg = 0

section
variable {I : Interp ℝ Uuid} {cfg : Consumer.Config} {s s' : Sink ℝ} {n : Nat} {e : Sent ℝ} {env : Env ℝ Uuid}
  {w : Writes ℝ Uuid} (hid : ∃ id time, Identified I e id time)
  (h : process I cfg s (message n e) env = .ok (s', w))
include hid h

/-- The tracker has the asset at the event's position, and every other asset where it was. -/
theorem tracker_of_process : (∃ p, s'.tracker (entityId e.index) = some p ∧ p.lat = e.telemetry.lat ∧
    p.lon = e.telemetry.lon) ∧ ∀ i, e.index ≠ i → s'.tracker (entityId i) = s.tracker (entityId i) := by
  obtain ⟨id, time, hid⟩ := hid
  obtain ⟨r, entry, motion, score, hread, hderive, -, -, -, rfl⟩ := process_rows h
  cases (read_message hid env).symm.trans hread
  obtain ⟨hlat, hlon, -⟩ := derive_entry hderive
  refine ⟨⟨entry, if_pos rfl, hlat, hlon⟩, fun i hi => if_neg fun hentity => hi ?_⟩
  exact (entityId_inj.1 hentity).symm

/-- An event at the position that the tracker has of its asset. -/
theorem still_of_process (hI : I.floats = reals) {p : Entry ℝ} (hp : s.tracker (entityId e.index) = some p)
    (hlat : p.lat = e.telemetry.lat) (hlon : p.lon = e.telemetry.lon) : Still w := by
  obtain ⟨id, time, hid⟩ := hid
  obtain ⟨r, entry, motion, score, hread, hderive, -, hhistory, hlatest, -⟩ := process_rows h
  cases (read_message hid env).symm.trans hread
  rw [hI, hp, ← hlat, ← hlon] at hderive
  obtain ⟨hspeed, hheading⟩ := derive_same hderive
  obtain ⟨-, hhistorySpeed, hhistoryHeading⟩ := bindHistory_said hI hhistory
  obtain ⟨-, hlatestSpeed, hlatestHeading⟩ := bindLatest_said hI hlatest
  exact ⟨⟨hhistorySpeed.trans hspeed, hlatestSpeed.trans hspeed⟩,
    hhistoryHeading.trans hheading, hlatestHeading.trans hheading⟩

end

/-- Events of other assets leave an asset in the tracker as it was. -/
theorem tracker_of_others {I : Interp ℝ Uuid} {cfg : Consumer.Config} {s s' : Sink ℝ} {n i : Nat}
    (others : List (Sent ℝ × Env ℝ Uuid)) {writes : List (Writes ℝ Uuid)} (hothers : ∀ x ∈ others, x.1.index ≠ i)
    (hids : ∀ x ∈ others, ∃ id time, Identified I x.1 id time)
    (h : processAll I cfg s (others.map fun x => (message n x.1, x.2)) = .ok (s', writes)) :
    s'.tracker (entityId i) = s.tracker (entityId i) := by
  induction others generalizing s writes with
  | nil =>
    cases h
    rfl
  | cons x rest ih =>
    obtain ⟨hx, hrest⟩ := List.forall_mem_cons.1 hothers
    obtain ⟨hid, hids⟩ := List.forall_mem_cons.1 hids
    obtain ⟨t, w, ws, hfirst, hafter, -⟩ := processAll_cons.1 h
    exact (ih hrest hids hafter).trans ((tracker_of_process hid hfirst).2 i hx)

/-- Whatever the sink has processed before and whatever comes in between of other assets: an event of the
same turn and the same asset has another time if it has another place, but the same position, and is written
without speed and heading. -/
theorem repeats_stand_still (m : Fleet.Maths ℝ) (fleetCfg : Fleet.FleetConfig ℝ) (c : Producer.Config)
    (main : Main ℝ) (t : Turn) (d : Draws ℝ) (k k' : Nat) (e e' : Sent ℝ)
    (he : (sentIn m fleetCfg c main t d)[k]? = some e) (he' : (sentIn m fleetCfg c main t d)[k']? = some e')
    (hindex : e'.index = e.index) (I : Interp ℝ Uuid)
    (hI : I.floats = reals) (cfg : Consumer.Config) (n : Nat) (s s' : Sink ℝ) (env env' : Env ℝ Uuid)
    (others : List (Sent ℝ × Env ℝ Uuid)) (hothers : ∀ x ∈ others, x.1.index ≠ e.index)
    (hids : ∀ x ∈ (e, env) :: (others ++ [(e', env')]), ∃ id time, Identified I x.1 id time)
    (writes : List (Writes ℝ Uuid))
    (h : processAll I cfg s (((e, env) :: (others ++ [(e', env')])).map fun x => (message n x.1, x.2)) =
      .ok (s', writes)) :
    (k ≠ k' → e'.time ≠ e.time) ∧ e'.telemetry = { e.telemetry with tempExtC := e'.telemetry.tempExtC } ∧
      ∃ w, writes.getLast? = some w ∧ Still w := by
  have hsame := sentIn_repeats m fleetCfg c main t d (List.mem_of_getElem? he) (List.mem_of_getElem? he') hindex
  obtain ⟨event, hevent, htime⟩ := sentIn_event he
  obtain ⟨event', hevent', htime'⟩ := sentIn_event he'
  refine ⟨fun hne => ?_, hsame, ?_⟩
  · rw [htime, htime']
    exact sentBy_times_ne hevent hevent' hne
  obtain ⟨hid, hrest⟩ := List.forall_mem_cons.1 hids
  obtain ⟨hothersIds, hlastId⟩ := List.forall_mem_append.1 hrest
  rw [List.map_cons, List.map_append] at h
  obtain ⟨s₁, w, ws, hfirst, hafter, rfl⟩ := processAll_cons.1 h
  obtain ⟨s₂, ws₁, ws₂, hbetween, hlast, rfl⟩ := processAll_append.1 hafter
  obtain ⟨s₃, w', ws₃, hsecond, hend, rfl⟩ := processAll_cons.1 hlast
  cases hend
  -- The first event leaves its position in the tracker, and the others do not touch it.
  obtain ⟨⟨p, hp, hlat, hlon⟩, -⟩ := tracker_of_process hid hfirst
  have htracked : s₂.tracker (entityId e'.index) = some p := by
    rw [hindex, tracker_of_others others hothers hothersIds hbetween, hp]
  refine ⟨w', ?_, still_of_process (hlastId _ List.mem_cons_self) hsecond hI htracked ?_ ?_⟩
  · rw [← List.cons_append, List.getLast?_concat]
  · exact hlat.trans (congrArg Fleet.Reading.lat hsame).symm
  · exact hlon.trans (congrArg Fleet.Reading.lon hsame).symm

theorem one_le_one_asset : (1 : Int) ≤ 1 := le_rfl

theorem twenty_pos : (0 : ℚ) < 20 := by norm_num

/-- A demo of one asset, whose turns of twenty seconds have an event a second. -/
def solo : Producer.Config := ⟨1, 20, 5, one_le_one_asset, twenty_pos⟩

def soloTurn : Turn :=
  ⟨⟨1, 1, 5, false, one_le_one_asset, one_le_one_asset⟩, beforeNoon, beforeNoon, beforeNoon + 20⟩

theorem soloTurn_events : (sentBy solo (.init 0) soloTurn)[0]? = some ⟨0, beforeNoon⟩ ∧
    (sentBy solo (.init 0) soloTurn)[10]? = some ⟨0, beforeNoon + 10⟩ := by
  decide +kernel

/-- The ids of the event that is first and of the ones after it. -/
noncomputable def soloDraws : Draws ℝ :=
  { zeros with eventId := fun k => if k = 0 then Replay.firstId else Replay.secondId }

noncomputable def soloSent : List (Sent ℝ) :=
  sentIn maths .asItComes solo ⟨.init 0, .init 0 fun _ => Fleet.tryPath⟩ soloTurn soloDraws

/-- An event of the turn, by its place. -/
theorem soloSent_event {k : Nat} {event : Producer.Event} (h : (sentBy solo (.init 0) soloTurn)[k]? = some event) :
    ∃ e, soloSent[k]? = some e ∧ e.eventId = soloDraws.eventId k ∧ e.time = event.time ∧
      e.index = event.asset.toNat := by
  obtain ⟨hk, hevent⟩ := List.getElem?_eq_some_iff.1 h
  have hplace : (List.finRange (sentBy solo (.init 0) soloTurn).length)[k]? = some ⟨k, hk⟩ := by
    rw [List.getElem?_eq_getElem (by rwa [List.length_finRange]), List.getElem_finRange]
    rfl
  refine ⟨_, List.getElem?_map.trans (congrArg (Option.map _) hplace), rfl, ?_, ?_⟩
  · exact congrArg Producer.Event.time hevent
  · exact congrArg (fun event : Producer.Event => event.asset.toNat) hevent

theorem identified_second {e : Sent ℝ} (hid : e.eventId = Replay.secondId) (htime : e.time = beforeNoon + 10) :
    ∃ id time, Identified onReals e id time := by
  refine ⟨0x5cc77f00754411f1800000163e000001, (Replay.beforeNoon 50 (by decide)).naive, ?_, rfl, ?_⟩
  · rw [hid]
    rfl
  · rw [htime]
    decide +kernel

/-- The events of the first second and of the eleventh. -/
theorem repeats_stand_still_solo : ∃ e e', soloSent[0]? = some e ∧ soloSent[10]? = some e' ∧ e'.time ≠ e.time ∧
    ∃ s' writes w, processAll onReals ⟨15, 16⟩ .init [(message 1 e, noon), (message 1 e', noon)] = .ok (s', writes) ∧
      writes.getLast? = some w ∧ w.history.speedMps = 0 := by
  obtain ⟨e, he, hid, htime, hindex⟩ := soloSent_event soloTurn_events.1
  obtain ⟨e', he', hid', htime', hindex'⟩ := soloSent_event soloTurn_events.2
  have hids : ∀ d ∈ [(e, noon), (e', noon)], ∃ id time, Identified onReals d.1 id time :=
    List.forall_mem_cons.2 ⟨identified_first hid htime, List.forall_mem_singleton.2 (identified_second hid' htime')⟩
  have hrange : ∀ x ∈ soloSent, InRange x.telemetry := fun x hx =>
    sent_inRange (m := maths) (c := solo) ⟨.init 0, .init 0 fun _ => Fleet.tryPath⟩ [(soloTurn, soloDraws)]
      (List.mem_append_left _ hx)
  have hage : noon.nowUtc.instant - ⌊e.time * 10 ^ 6⌋ < 2147483648 * 1000000 := by
    rw [htime]
    decide +kernel
  have hage' : noon.nowUtc.instant - ⌊e'.time * 10 ^ 6⌋ < 2147483648 * 1000000 := by
    rw [htime']
    decide +kernel
  have hbucket : 0 < (⟨15, 16⟩ : Consumer.Config).eventBucketMinutes := by decide
  obtain ⟨s', writes, hall, -⟩ := processAll_messages (I := onReals) (n := 1) rfl hbucket (by decide) flown_init
    [(e, noon), (e', noon)] hids (List.forall_mem_cons.2
      ⟨hrange e (List.mem_of_getElem? he), List.forall_mem_singleton.2 (hrange e' (List.mem_of_getElem? he'))⟩)
    (List.forall_mem_cons.2 ⟨hage, List.forall_mem_singleton.2 hage'⟩)
  obtain ⟨htimes, -, w, hw, hstill⟩ := repeats_stand_still maths .asItComes solo
    ⟨.init 0, .init 0 fun _ => Fleet.tryPath⟩ soloTurn soloDraws 0 10 e e' he he' (hindex'.trans hindex.symm) onReals rfl ⟨15, 16⟩ 1 .init s' noon noon []
    (List.forall_mem_nil _) hids writes hall
  exact ⟨e, e', he, he', htimes (by decide), s', writes, w, hall, hw, hstill.speed.1⟩

end HtapStack.Messages
