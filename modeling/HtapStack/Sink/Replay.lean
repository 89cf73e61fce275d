import HtapStack.Lib.Runs
import HtapStack.Lib.Upsert
import HtapStack.Sink.Consumer
/-!
# A batch that is delivered again

Messages whose offsets were not committed come again, to the same sink or to one
that has restarted. The sink relies on its writes being upserts, which they are:
what matters is whether a message is written under the same keys with the same
values.

`redelivered_unchanged`: the tables stay as one delivery left them if every message
that comes again has a usable event id, and the first of each asset derives the
speed and heading that it did before (`Replays`). A sink that has restarted in
between has lost the positions before: `restarted_changes`.
-/

namespace HtapStack.Replay
open Py Proximity Tracker Consumer Runs

variable {F Uuid : Type} (I : Interp F Uuid) (cfg : Config)

/-! ## The tables -/

def rawKey (row : RawRow F Uuid) : List Char × Int × Uuid := (row.eventBucket, row.shard, row.eventId)

def historyKey (row : HistoryRow F Uuid) : Text × Int × Uuid := (row.entityId, row.eventTime, row.eventId)

/-- The events table and `drone_events_by_entity`. -/
structure Tables (F Uuid : Type) where
  events : List Char × Int × Uuid → Option (RawRow F Uuid)
  history : Text × Int × Uuid → Option (HistoryRow F Uuid)

section
variable [DecidableEq Uuid]

def Tables.store (t : Tables F Uuid) (writes : List (Writes F Uuid)) : Tables F Uuid where
  events := upserts rawKey t.events (writes.map (·.raw))
  history := upserts historyKey t.history (writes.map (·.history))

/-- The last writes, with the same rows in both tables, change nothing. -/
theorem Tables.store_again {t : Tables F Uuid} {xs ys zs : List (Writes F Uuid)}
    (hraw : ys.map (·.raw) = zs.map (·.raw)) (hhistory : ys.map (·.history) = zs.map (·.history)) :
    (t.store (xs ++ ys)).store zs = t.store (xs ++ ys) := by
  unfold Tables.store
  rw [← hraw, ← hhistory, List.map_append, List.map_append, upserts_suffix, upserts_suffix]

end

/-! ## Delivering again -/

/-- Messages that come again, each with what the loop finds out for itself this time. -/
structure Redelivery (F Uuid : Type) where
  restarted : Bool
  messages : List (Json F × Env F Uuid)

/-- The sink that they come to. -/
def Redelivery.sink (d : Redelivery F Uuid) (s : Sink F) : Sink F := if d.restarted then .init else s

/-- The sink and the tables after a redelivery that is processed without raising. -/
def redeliver [DecidableEq Uuid] (st : Sink F × Tables F Uuid) (d : Redelivery F Uuid) : Option (Sink F × Tables F Uuid) :=
  match processAll I cfg (d.sink st.1) d.messages with
  | .ok (s, writes) => some (s, st.2.store writes)
  | .error _ => none

section
variable (s₀ : Sink F) (batch : List (Json F × Env F Uuid))

/-- Of a batch that `s₀` was delivered, the part that comes again. -/
def Redelivery.part (d : Redelivery F Uuid) : List (Json F × Env F Uuid) :=
  batch.drop (batch.length - d.messages.length)

/-- The sink `s` had come to that part when the batch was first delivered. -/
def Redelivery.Met (d : Redelivery F Uuid) (s : Sink F) : Prop :=
  ∃ writes, processAll I cfg s₀ (batch.take (batch.length - d.messages.length)) = .ok (s, writes)

/-- The last messages of the batch, scored against the same zones as before. -/
structure Redelivers (st : Sink F × Tables F Uuid) (d : Redelivery F Uuid) : Prop where
  suffix : d.messages.map (·.1) <:+ batch.map (·.1)
  zones : ∀ s, d.Met I cfg s₀ batch s → ∀ m ∈ (d.part batch).head?, ∀ m' ∈ d.messages.head?,
    s.cache m.2 = (d.sink st.1).cache m'.2

/-- The same speed and heading come out of both entries. -/
def SameMotion (prev prev' : Option (Entry F)) (r : Reading F Uuid) : Prop :=
  ∀ entry motion entry' motion',
    derive I.floats prev r.latitude r.longitude r.altitudeM r.eventTime = .ok (entry, motion) →
      derive I.floats prev' r.latitude r.longitude r.altitudeM r.eventTime = .ok (entry', motion') → motion = motion'

/-- The first message of each asset derives the same from the entries of the two sinks. -/
def SameStart (s s' : Sink F) (messages : List (Json F × Env F Uuid)) : Prop :=
  ∀ before v env after, messages = before ++ (v, env) :: after → ∀ r, Consumer.read I v env = .ok r →
    (∀ m ∈ before, m.1.field I "entity_id" ≠ .ok r.entityId) →
      SameMotion I (s.tracker r.entityId) (s'.tracker r.entityId) r

/-- Every message has a usable event id, and the first of each asset meets an entry
that it derives the same from as when it was first delivered. -/
structure Replays (st : Sink F × Tables F Uuid) (d : Redelivery F Uuid) : Prop where
  ids : ∀ m ∈ d.messages, Returns (eventIdOf I m.1)
  motion : ∀ s, d.Met I cfg s₀ batch s → SameStart I s (d.sink st.1) d.messages

end

/-! ## One message -/

variable {I cfg}

theorem SameMotion.refl (prev : Option (Entry F)) (r : Reading F Uuid) : SameMotion I prev prev r := by
  intro entry motion entry' motion' h h'
  cases h.symm.trans h'
  rfl

theorem SameMotion.of_alike {prev prev' : Option (Entry F)} (h : Alike I.floats prev prev') (r : Reading F Uuid) :
    SameMotion I prev prev' r := by
  intro entry motion entry' motion' hm hm'
  rw [derive_congr h] at hm
  exact SameMotion.refl prev' r entry motion entry' motion' hm hm'

/-- One message in both deliveries. -/
theorem process_again {s s' t t' : Sink F} {v : Json F} {env env' : Env F Uuid} {writes writes' : Writes F Uuid}
    (hid : Returns (eventIdOf I v)) (hzones : s.cache env = s'.cache env')
    (hmotion : ∀ r, Consumer.read I v env' = .ok r → SameMotion I (s.tracker r.entityId) (s'.tracker r.entityId) r)
    (h : process I cfg s v env = .ok (t, writes)) (h' : process I cfg s' v env' = .ok (t', writes')) :
    writes.raw = writes'.raw ∧ writes.history = writes'.history ∧ (∀ e e' : Env F Uuid, t.cache e = t'.cache e') ∧
      ∃ r, Consumer.read I v env' = .ok r ∧ Alike I.floats (t.tracker r.entityId) (t'.tracker r.entityId) ∧
        ∀ id ≠ r.entityId, t.tracker id = s.tracker id ∧ t'.tracker id = s'.tracker id := by
  obtain ⟨r, entry, motion, score, hr, hderive, hscore, hraw, hhistory, rfl⟩ := process_eq_ok h
  obtain ⟨r', entry', motion', score', hr', hderive', hscore', hraw', hhistory', rfl⟩ := process_eq_ok h'
  obtain rfl : r = r' := Except.ok.inj (hr.symm.trans ((read_congr hid env env').trans hr'))
  obtain rfl : motion = motion' := hmotion r hr' _ _ _ _ hderive hderive'
  obtain rfl : score = score' := Except.ok.inj (hscore.symm.trans (hzones ▸ hscore'))
  refine ⟨Except.ok.inj (hraw.symm.trans hraw'), Except.ok.inj (hhistory.symm.trans hhistory'), fun _ _ => hzones,
    r, hr', ?_, fun id hne => ⟨if_neg hne, if_neg hne⟩⟩
  simpa using alike_of_speed hderive hderive' rfl

/-! ## A part of the batch -/

theorem SameStart.next {s s' t t' : Sink F} {v : Json F} {env : Env F Uuid} {rest : List (Json F × Env F Uuid)}
    {r : Reading F Uuid} (h : SameStart I s s' ((v, env) :: rest)) (hr : Consumer.read I v env = .ok r)
    (halike : Alike I.floats (t.tracker r.entityId) (t'.tracker r.entityId))
    (hother : ∀ id ≠ r.entityId, t.tracker id = s.tracker id ∧ t'.tracker id = s'.tracker id) :
    SameStart I t t' rest := by
  intro before w env' after hrest q hq hbefore
  by_cases heq : q.entityId = r.entityId
  · rw [heq]
    exact .of_alike halike q
  · rw [(hother _ heq).1, (hother _ heq).2]
    refine h ((v, env) :: before) w env' after (congrArg _ hrest) q hq ?_
    rw [List.forall_mem_cons]
    refine ⟨?_, hbefore⟩
    rw [read_entityId hr]
    exact fun he => heq (Except.ok.inj he).symm

/-- The same rows are written, message by message. -/
theorem processAll_again {s s' t t' : Sink F} {first again : List (Json F × Env F Uuid)}
    {writes writes' : List (Writes F Uuid)} (hsame : first.map (·.1) = again.map (·.1))
    (hids : ∀ m ∈ again, Returns (eventIdOf I m.1))
    (hzones : ∀ m ∈ first.head?, ∀ m' ∈ again.head?, s.cache m.2 = s'.cache m'.2) (hstart : SameStart I s s' again)
    (h : processAll I cfg s first = .ok (t, writes)) (h' : processAll I cfg s' again = .ok (t', writes')) :
    writes.map (·.raw) = writes'.map (·.raw) ∧ writes.map (·.history) = writes'.map (·.history) := by
  induction again generalizing first s s' writes writes' with
  | nil =>
    cases List.map_eq_nil_iff.1 hsame
    cases h
    cases h'
    exact ⟨rfl, rfl⟩
  | cons m' again ih =>
    obtain ⟨v', env'⟩ := m'
    obtain ⟨⟨v, env⟩, first, rfl, rfl, hrests⟩ := List.map_eq_cons_iff.1 hsame
    obtain ⟨u, w, ws, hv, hrest, rfl⟩ := processAll_cons.1 h
    obtain ⟨u', w', ws', hv', hrest', rfl⟩ := processAll_cons.1 h'
    obtain ⟨hid, hids⟩ := List.forall_mem_cons.1 hids
    have hmotion (r : Reading F Uuid) (hr : Consumer.read I v env' = .ok r) :=
      hstart [] v env' again rfl r hr (by simp)
    obtain ⟨hraw, hhistory, hcache, r, hr, halike, hother⟩ := process_again hid (hzones _ rfl _ rfl) hmotion hv hv'
    obtain ⟨hraws, hhistories⟩ := ih hrests hids (fun _ _ _ _ => hcache _ _) (hstart.next hr halike hother) hrest hrest'
    exact ⟨by rw [List.map_cons, List.map_cons, hraw, hraws], by rw [List.map_cons, List.map_cons, hhistory, hhistories]⟩

section
variable [DecidableEq Uuid] {s₀ : Sink F} {batch : List (Json F × Env F Uuid)} {t₀ : Tables F Uuid}
  {writes : List (Writes F Uuid)}

/-- One redelivery. -/
theorem redeliver_unchanged {s₁ : Sink F} (hfirst : processAll I cfg s₀ batch = .ok (s₁, writes))
    {st st' : Sink F × Tables F Uuid} {d : Redelivery F Uuid} (htables : st.2 = t₀.store writes)
    (hagain : Redelivers I cfg s₀ batch st d) (hreplays : Replays I cfg s₀ batch st d)
    (h : redeliver I cfg st d = some st') : st'.2 = t₀.store writes := by
  have hpart : (d.part batch).map (·.1) = d.messages.map (·.1) := by
    have hdrop := List.suffix_iff_eq_drop.1 hagain.suffix
    rw [List.length_map, List.length_map, ← List.map_drop] at hdrop
    exact hdrop.symm
  rw [← List.take_append_drop (batch.length - d.messages.length) batch] at hfirst
  obtain ⟨s, xs, ys, htake, hdrop, rfl⟩ := processAll_append.1 hfirst
  have hmet : d.Met I cfg s₀ batch s := ⟨xs, htake⟩
  unfold redeliver at h
  split at h
  · rename_i s' zs hall
    cases h
    obtain ⟨hraw, hhistory⟩ :=
      processAll_again hpart hreplays.ids (hagain.zones s hmet) (hreplays.motion s hmet) hdrop hall
    rw [htables]
    exact Tables.store_again hraw hhistory
  · cases h

end

/-- While messages come again as they were, the tables stay as one delivery left them. -/
theorem redelivered_unchanged [DecidableEq Uuid] (I : Interp F Uuid) (cfg : Config) (s₀ s₁ : Sink F)
    (t₀ : Tables F Uuid) (batch : List (Json F × Env F Uuid)) (writes : List (Writes F Uuid))
    (hfirst : processAll I cfg s₀ batch = .ok (s₁, writes)) (ds : List (Redelivery F Uuid))
    (hagain : Each (redeliver I cfg) (Redelivers I cfg s₀ batch) (s₁, t₀.store writes) ds)
    (hreplays : Each (redeliver I cfg) (Replays I cfg s₀ batch) (s₁, t₀.store writes) ds) :
    Always (redeliver I cfg) (fun st => st.2 = t₀.store writes) (s₁, t₀.store writes) ds :=
  always_of_each (fun _ _ _ htables hd h => redeliver_unchanged hfirst htables hd.1 hd.2 h) (fun _ h => h) rfl
    (hagain.and hreplays)

/-! ## Two fixes on the equator -/

def config : Config := ⟨15, 16⟩

def fixMessage (id : Text) (lon : ℝ) : Json ℝ :=
  .dict [(py "event_id", .str id), (py "entity_id", .str (py "drone-1")),
    (py "position", .dict [(py "lat", .float 0), (py "lon", .float lon)])]

noncomputable def fixReading (id : Nat) (t : Calendar.Aware) (lon : ℝ) : Reading ℝ Nat :=
  ⟨id, t, py "drone-1", 0, lon, reals.lit 0, [], [], reals.lit 0, reals.lit 0, []⟩

theorem read_fix {id : Text} {n : Nat} {t : Calendar.Aware} {lon : ℝ} {env : Env ℝ Nat}
    (h : eventIdOf onReals (fixMessage id lon) = .ok (n, t)) :
    Consumer.read onReals (fixMessage id lon) env = .ok (fixReading n t lon) := by
  unfold Consumer.read identify
  rw [h]
  rfl

/-- East is at 90 degrees. -/
theorem bearing_east {lon : ℝ} (h0 : 0 < lon) (h1 : lon < 180) : computeBearingDeg reals 0 0 0 lon = .ok 90 := by
  have hpi := Real.pi_pos
  have hsin : 0 < Real.sin (lon * (Real.pi / 180)) := by
    refine Real.sin_pos_of_pos_of_lt_pi (by positivity) ?_
    calc lon * (Real.pi / 180) < 180 * (Real.pi / 180) := by gcongr
      _ = Real.pi := by ring
  have harg : Complex.arg ⟨0, Real.sin (lon * (Real.pi / 180))⟩ = Real.pi / 2 :=
    Complex.arg_eq_pi_div_two_iff.2 ⟨rfl, hsin⟩
  have hdeg : Real.pi / 2 * (180 / Real.pi) = 90 := by
    field_simp
    norm_num
  have hfloor : ⌊((90 + 360) / 360 : ℝ)⌋ = 1 := by norm_num
  simp only [computeBearingDeg, reals_radians, reals_mul, reals_sub, reals_sin, reals_cos, ok_bind, zero_mul, sub_zero,
    Real.cos_zero, Real.sin_zero, mul_one, mul_zero, reals_atan2, harg, reals_degrees, hdeg, reals_add, reals_lit,
    Rat.cast_ofNat, reals_mod360, hfloor]
  show Except.ok _ = Except.ok _
  norm_num

theorem processable_fix {id : Text} {n : Nat} {t : Calendar.Aware} {lon : ℝ} {s : Sink ℝ} {env : Env ℝ Nat}
    (hid : eventIdOf onReals (fixMessage id lon) = .ok (n, t)) (hzones : s.cache env = [])
    (htracker : ∀ prev ∈ s.tracker (py "drone-1"), prev.lat = 0) (hbucket : Buckets.HasBucket 15 t)
    (hage : telemetryAge (fixReading n t lon) env < 2147483648) :
    Processable onReals config s (fixMessage id lon) env := by
  have hread : Consumer.read onReals (fixMessage id lon) env = .ok (fixReading n t lon) := read_fix hid
  refine ⟨(returns_read env).1 ⟨_, hread⟩, fun r hr => ?_⟩
  cases hread.symm.trans hr
  refine ⟨fun prev hprev => movable_equator (htracker prev hprev), ?_, ?_, ?_, hage, hbucket, by decide,
    shard_fits (by decide) (by decide)⟩
  · simp [hzones]
  · simp only [fixReading]
    decide
  · exact fun x _ => returns_ok x

def firstId : Text := py "56d19e00-7544-11f1-8000-00163e000001"

def secondId : Text := py "5cc77f00-7544-11f1-8000-00163e000001"

/-- A second of the minute before noon. -/
def beforeNoon (second : Nat) (h : 11 < 24 ∧ 59 < 60 ∧ second < 60 ∧ 0 < 1000000) : Calendar.Aware :=
  ⟨Calendar.datetime 2026 7 1 11 59 second 0 firstOfJuly h, 0, Calendar.utc_offset⟩

theorem eventIdOf_firstId (lon : ℝ) : eventIdOf onReals (fixMessage firstId lon) =
    .ok (0x56d19e00754411f1800000163e000001, beforeNoon 40 (by decide)) := rfl

theorem eventIdOf_secondId (lon : ℝ) : eventIdOf onReals (fixMessage secondId lon) =
    .ok (0x5cc77f00754411f1800000163e000001, beforeNoon 50 (by decide)) := rfl

noncomputable def fixes : List (Json ℝ × Env ℝ Nat) := [(fixMessage firstId 0, noon), (fixMessage secondId 0.001, noon)]

/-- What the first fix leaves in the tracker. -/
theorem tracker_fix {s s' : Sink ℝ} {id : Text} {n : Nat} {t : Calendar.Aware} {lon : ℝ} {w : Writes ℝ Nat}
    (hid : eventIdOf onReals (fixMessage id lon) = .ok (n, t))
    (h : process onReals config s (fixMessage id lon) noon = .ok (s', w)) :
    ∃ entry, s'.tracker (py "drone-1") = some entry ∧ entry.lat = 0 ∧ entry.lon = lon := by
  obtain ⟨r, entry, motion, score, hr, hderive, -, -, -, rfl⟩ := process_eq_ok h
  cases (read_fix hid).symm.trans hr
  exact ⟨entry, by simp [fixReading], (derive_entry hderive).1, (derive_entry hderive).2.1⟩

/-- The row of a fix in `drone_events_by_entity`. -/
theorem history_fix {s s' : Sink ℝ} {id : Text} {n : Nat} {t : Calendar.Aware} {lon : ℝ} {w : Writes ℝ Nat}
    (hid : eventIdOf onReals (fixMessage id lon) = .ok (n, t))
    (h : process onReals config s (fixMessage id lon) noon = .ok (s', w)) :
    historyKey w.history = (py "drone-1", t.instant / 1000, n) ∧
      ∃ entry motion, derive reals (s.tracker (py "drone-1")) 0 lon (reals.lit 0) t = .ok (entry, motion) ∧
        w.history.headingDeg = motion.headingDeg := by
  obtain ⟨r, entry, motion, score, hr, hderive, -, -, hhistory, rfl⟩ := process_eq_ok h
  cases (read_fix hid).symm.trans hr
  have hrow := Except.ok.inj hhistory
  rw [← hrow]
  exact ⟨rfl, entry, motion, hderive, rfl⟩

theorem fixes_processed : ∃ s writes, processAll onReals config .init fixes = .ok (s, writes) := by
  have hfirst : Processable onReals config .init (fixMessage firstId 0) noon :=
    processable_fix (eventIdOf_firstId 0) rfl (fun _ h => nomatch h) (by decide) (by decide)
  have hall : AllProcessable onReals config .init fixes := by
    refine ⟨hfirst, fun s w hs => ⟨processable_fix (eventIdOf_secondId _) ?_ ?_ (by decide) (by decide), fun _ _ _ => trivial⟩⟩
    · obtain ⟨r, entry, motion, score, -, -, -, -, -, rfl⟩ := process_eq_ok hs
      rfl
    · obtain ⟨entry, hentry, hlat, -⟩ := tracker_fix (eventIdOf_firstId 0) hs
      intro prev hprev
      cases hentry.symm.trans hprev
      exact hlat
  obtain ⟨⟨s, writes⟩, h⟩ := (returns_processAll (I := onReals) reals_lawful).2 hall
  exact ⟨s, writes, h⟩

def noRows : Tables ℝ Nat := ⟨fun _ => none, fun _ => none⟩

/-- Both fixes come again, twice, to a sink that has restarted each time. -/
theorem redelivered_unchanged_fixes : ∃ s₁ writes, processAll onReals config .init fixes = .ok (s₁, writes) ∧
    Always (redeliver onReals config) (fun st => st.2 = noRows.store writes) (s₁, noRows.store writes)
      [⟨true, fixes⟩, ⟨true, fixes⟩] := by
  obtain ⟨s₁, writes, h⟩ := fixes_processed
  have hmet {s : Sink ℝ} (hs : Redelivery.Met onReals config .init fixes ⟨true, fixes⟩ s) : s = .init := by
    obtain ⟨ws, hs⟩ := hs
    cases hs
    rfl
  have hagain (st : Sink ℝ × Tables ℝ Nat) : Redelivers onReals config .init fixes st ⟨true, fixes⟩ := by
    refine ⟨List.suffix_rfl, fun s hs m hm m' hm' => ?_⟩
    cases hmet hs
    cases hm
    cases hm'
    rfl
  have hreplays (st : Sink ℝ × Tables ℝ Nat) : Replays onReals config .init fixes st ⟨true, fixes⟩ := by
    refine ⟨?_, fun s hs before v env after _ r _ _ => ?_⟩
    · simp only [fixes, List.forall_mem_cons]
      exact ⟨⟨_, eventIdOf_firstId _⟩, ⟨_, eventIdOf_secondId _⟩, List.forall_mem_nil _⟩
    · cases hmet hs
      exact .refl none r
  exact ⟨s₁, writes, h, redelivered_unchanged onReals config .init s₁ noRows fixes writes h _
    (fun _ _ => ⟨hagain _, fun _ _ => ⟨hagain _, trivial⟩⟩) (fun _ _ => ⟨hreplays _, fun _ _ => ⟨hreplays _, trivial⟩⟩)⟩

/-- A fix that comes again to a sink that has restarted in between loses its heading. -/
theorem restarted_changes : ¬ ∀ (s₀ s₁ : Sink ℝ) (t₀ : Tables ℝ Nat) (batch : List (Json ℝ × Env ℝ Nat))
    (writes : List (Writes ℝ Nat)), processAll onReals config s₀ batch = .ok (s₁, writes) →
      ∀ ds, Each (redeliver onReals config) (Redelivers onReals config s₀ batch) (s₁, t₀.store writes) ds →
        Always (redeliver onReals config) (fun st => st.2 = t₀.store writes) (s₁, t₀.store writes) ds := by
  intro hclaim
  obtain ⟨s₁, writes, h⟩ := fixes_processed
  obtain ⟨u, w₁, ws, hone, htwo, rfl⟩ := processAll_cons.1 h
  obtain ⟨_, w₂, _, htwo', hnil, rfl⟩ := processAll_cons.1 htwo
  cases hnil
  have hzones : u.cache noon = [] := by
    obtain ⟨r, entry, motion, score, -, -, -, -, -, rfl⟩ := process_eq_ok hone
    rfl
  -- The second fix comes again to a sink without an entry of the asset.
  obtain ⟨⟨v, w₃⟩, hthree⟩ : Returns (process onReals config .init (fixMessage secondId 0.001) noon) :=
    (returns_process (I := onReals) reals_lawful).2
      (processable_fix (eventIdOf_secondId _) rfl (fun _ h => nomatch h) (by decide) (by decide))
  have hagain := hclaim .init _ noRows fixes _ h [⟨true, [(fixMessage secondId 0.001, noon)]⟩] (fun _ _ => by
    refine ⟨⟨⟨[fixMessage firstId 0], rfl⟩, fun s hs m hm m' hm' => ?_⟩, trivial⟩
    obtain ⟨_, hs⟩ := hs
    obtain ⟨_, _, _, hone', hnil, -⟩ := processAll_cons.1 hs
    cases hnil
    cases hone.symm.trans hone'
    cases hm
    cases hm'
    exact hzones)
  have hstep : redeliver onReals config (s₁, noRows.store [w₁, w₂]) ⟨true, [(fixMessage secondId 0.001, noon)]⟩ =
      some (v, (noRows.store [w₁, w₂]).store [w₃]) := by
    have hall : processAll onReals config .init [(fixMessage secondId 0.001, noon)] = .ok (v, [w₃]) :=
      processAll_cons.2 ⟨v, w₃, [], hthree, rfl, rfl⟩
    unfold redeliver Redelivery.sink
    rw [if_pos rfl, hall]
  have htables : (noRows.store [w₁, w₂]).store [w₃] = noRows.store [w₁, w₂] := hagain.2 _ hstep
  obtain ⟨hkey₂, _, motion, hderive₂, hheading₂⟩ := history_fix (eventIdOf_secondId _) htwo'
  obtain ⟨hkey₃, _, _, hderive₃, hheading₃⟩ := history_fix (eventIdOf_secondId _) hthree
  have hrow : some w₃.history = some w₂.history :=
    calc some w₃.history = ((noRows.store [w₁, w₂]).store [w₃]).history (historyKey w₃.history) :=
          (upserts_last [] w₃.history).symm
      _ = (noRows.store [w₁, w₂]).history (historyKey w₂.history) := by rw [htables, hkey₂, hkey₃]
      _ = some w₂.history := upserts_last [w₁.history] w₂.history
  have hnorth : w₃.history.headingDeg = 0 := by
    cases hderive₃
    simpa using hheading₃
  have heast : w₂.history.headingDeg = 90 := by
    obtain ⟨entry, hentry, hlat, hlon⟩ := tracker_fix (eventIdOf_firstId 0) hone
    rw [hentry] at hderive₂
    have hbearing := derive_heading hderive₂
    rw [hlat, hlon, bearing_east (by norm_num) (by norm_num)] at hbearing
    exact hheading₂.trans (Except.ok.inj hbearing).symm
  rw [Option.some.inj hrow, heast] at hnorth
  norm_num at hnorth

end HtapStack.Replay
