import HtapStack.Lib.Calendar
import HtapStack.Compare.Window
import HtapStack.Lib.Returns
/-!
# The bucket of an event

The sink writes an event under the bucket that its own `event_bucket` spells,
and the compare page asks for the one that `_bucket_for` of
`backend/app/routes/query.py` spells.

- `bucketStart_spec`: both floor the UTC minute of the hour, which is
  `Window.bucketStart` on instants. Where the instant cannot be written in UTC,
  both raise.
- `bucket_agreed`: so they name one bucket, whatever the offset and the length.
-/

namespace HtapStack.Buckets
open Calendar
open Window (Settings minute hour)

/-- The sink's `event_bucket`. -/
def eventBucket (eventBucketMinutes : Int) (eventTime : Aware) : Except Exn (List Char) := do
  let utc ← eventTime.astimezoneUtc
  let n ← floorDiv utc.naive.minute eventBucketMinutes
  let floored ← utc.replaceMinute (n * eventBucketMinutes)
  return floored.naive.isoMinute

/-- The backend's `_bucket_start`. -/
def bucketStart (s : Settings) (moment : Aware) : Except Exn Aware := do
  let utc ← moment.astimezoneUtc
  let n ← floorDiv utc.naive.minute s.minutes
  utc.replaceMinute (n * s.minutes)

/-- The backend's `_bucket_for`. -/
def bucketFor (s : Settings) (moment : Aware) : Except Exn (List Char) :=
  (bucketStart s moment).map (·.naive.isoMinute)

section
variable {s : Settings} {t u start : Aware}

/-- The sink has no `max(1, …)`, and needs none from one minute on. -/
theorem eventBucket_eq (h : 1 ≤ s.eventBucketMinutes) (t : Aware) :
    eventBucket s.eventBucketMinutes t = bucketFor s t := by
  have hm : s.minutes = s.eventBucketMinutes := max_eq_right h
  unfold eventBucket bucketFor bucketStart
  rw [hm]
  cases t.astimezoneUtc with
  | error e => rfl
  | ok utc =>
    simp only [bind, Except.bind]
    cases floorDiv utc.naive.minute s.eventBucketMinutes with
    | error e => rfl
    | ok n => cases h : utc.replaceMinute (n * s.eventBucketMinutes) <;> simp [h, Except.map, pure, Except.pure]

/-- In UTC, the minute of the instant. -/
theorem utc_minute (h : u.offset = 0) : u.instant % hour / minute = u.naive.minute := by
  have := u.naive.minute_ok
  have := u.naive.second_ok
  have := u.naive.microsecond_ok
  simp only [Aware.instant, Naive.micros, Naive.time, h, dayMicros, hour, minute]
  omega

/-- In UTC, the floored minute is the floored instant. -/
theorem floored_instant (s : Settings) (h : u.offset = 0) :
    u.instant - ((u.naive.minute * 60 + u.naive.second) * 1000000 + u.naive.microsecond) +
      (u.naive.minute : Int) / s.minutes * s.minutes * 60000000 = Window.bucketStart s u.instant := by
  have := u.naive.minute_ok
  have := u.naive.second_ok
  have := u.naive.microsecond_ok
  unfold Window.bucketStart
  rw [utc_minute h]
  generalize (u.naive.minute : Int) / s.minutes * s.minutes = floored
  simp only [Aware.instant, Naive.micros, Naive.time, h, dayMicros, hour, minute]
  omega

/-- The bucket of an instant that can be written in UTC. -/
theorem bucketStart_spec (s : Settings) (h : t.HasUtc) : ∃ start, bucketStart s t = .ok start ∧
    start.offset = 0 ∧ start.naive.second = 0 ∧ start.naive.microsecond = 0 ∧
    start.instant = Window.bucketStart s t.instant := by
  cases hutc : t.astimezoneUtc with
  | error e => exact absurd h (Aware.astimezoneUtc_eq_error.1 hutc).2
  | ok utc =>
    obtain ⟨hoff, hinst⟩ := Aware.astimezoneUtc_eq_ok.1 hutc
    have hpos := Window.minutes_pos s
    have hfloor : (utc.naive.minute : Int).fdiv s.minutes = utc.naive.minute / s.minutes :=
      Int.fdiv_eq_ediv_of_nonneg _ hpos.le
    have hle : (utc.naive.minute : Int) / s.minutes * s.minutes ≤ utc.naive.minute :=
      Int.ediv_mul_le _ hpos.ne'
    have h0 : 0 ≤ (utc.naive.minute : Int) / s.minutes * s.minutes :=
      Int.mul_nonneg (Int.ediv_nonneg (by omega) hpos.le) hpos.le
    have := utc.naive.minute_ok
    obtain ⟨start, hstart, -, -, hsec, hμ, hoff', hinst'⟩ :=
      Aware.replaceMinute_eq_ok (t := utc) ⟨h0, show utc.naive.minute / s.minutes * s.minutes < 60 by omega⟩
    refine ⟨start, ?_, hoff'.trans hoff, hsec, hμ, ?_⟩
    · simp only [bucketStart, hutc, floorDiv, if_neg hpos.ne', hfloor, bind, Except.bind, hstart]
    · rw [hinst', floored_instant s hoff, hinst]

theorem bucketStart_overflow (s : Settings) (h : ¬ t.HasUtc) : bucketStart s t = .error .overflow := by
  simp only [bucketStart, Aware.astimezoneUtc_eq_error.2 ⟨rfl, h⟩, bind, Except.bind]

/-- Buckets begin in the order of their instants. -/
theorem bucketStart_mono (s : Settings) {x y : Int} (h : x ≤ y) :
    Window.bucketStart s x ≤ Window.bucketStart s y := by
  have hpos := Window.minutes_pos s
  have hfloor (z : Int) : 0 ≤ z % hour / minute / s.minutes * s.minutes ∧
      z % hour / minute / s.minutes * s.minutes ≤ z % hour / minute := by
    have hz : 0 ≤ z % hour / minute :=
      Int.ediv_nonneg (Int.emod_nonneg _ (by decide)) (by decide)
    exact ⟨Int.mul_nonneg (Int.ediv_nonneg hz hpos.le) hpos.le, Int.ediv_mul_le _ hpos.ne'⟩
  unfold Window.bucketStart
  rcases Int.lt_or_eq_of_le (Int.ediv_le_ediv (show 0 < hour by decide) h) with hlt | heq
  · -- An earlier hour ends before the later one begins.
    have hx := (hfloor x).2
    have hy := (hfloor y).1
    generalize x % hour / minute / s.minutes * s.minutes = fx at *
    generalize y % hour / minute / s.minutes * s.minutes = fy at *
    simp only [hour, minute] at *
    omega
  · have hmin : x % hour / minute ≤ y % hour / minute := by
      simp only [hour, minute] at *
      omega
    have := Int.mul_le_mul_of_nonneg_right (Int.ediv_le_ediv hpos hmin) hpos.le
    rw [heq]
    simp only [minute] at *
    omega

/-- What the sink names an instant's bucket. -/
theorem eventBucket_spec (h : 1 ≤ s.eventBucketMinutes) {b : List Char}
    (hb : eventBucket s.eventBucketMinutes t = .ok b) : ∃ start, bucketStart s t = .ok start ∧
      start.naive.isoMinute = b ∧ start.offset = 0 ∧ start.naive.second = 0 ∧
      start.naive.microsecond = 0 ∧ start.instant = Window.bucketStart s t.instant := by
  rw [eventBucket_eq h, bucketFor] at hb
  by_cases hutc : t.HasUtc
  · obtain ⟨start, hstart, hrest⟩ := bucketStart_spec s hutc
    rw [hstart] at hb
    exact ⟨start, hstart, Except.ok.inj hb, hrest⟩
  · rw [bucketStart_overflow s hutc] at hb
    cases hb

/-- Whether a bucket has a name, and which, is a matter of the instant alone. -/
theorem eventBucket_congr (s : Settings) (hi : t.instant = u.instant) :
    eventBucket s.eventBucketMinutes t = eventBucket s.eventBucketMinutes u := by
  have hutc : t.astimezoneUtc = u.astimezoneUtc := by
    cases ht : t.astimezoneUtc with
    | ok v =>
      rw [Aware.astimezoneUtc_eq_ok, hi] at ht
      exact (Aware.astimezoneUtc_eq_ok.2 ht).symm
    | error e =>
      rw [Aware.astimezoneUtc_eq_error, Aware.HasUtc, hi] at ht
      exact (Aware.astimezoneUtc_eq_error.2 ht).symm
  unfold eventBucket
  rw [hutc]

theorem eventBucket_mono (h : 1 ≤ s.eventBucketMinutes) {b c : List Char}
    (hb : eventBucket s.eventBucketMinutes t = .ok b) (hc : eventBucket s.eventBucketMinutes u = .ok c)
    (hle : t.instant ≤ u.instant) : b ≤ c := by
  obtain ⟨x, -, rfl, hx, -, -, hxi⟩ := eventBucket_spec h hb
  obtain ⟨y, -, rfl, hy, -, -, hyi⟩ := eventBucket_spec h hc
  have hxy := bucketStart_mono s hle
  rw [← hxi, ← hyi] at hxy
  apply Naive.isoMinute_le
  unfold Aware.instant at hxy
  omega

end

/-! ## When it raises -/

/-- The event's time has a UTC datetime, and the multiple of the length to which its
minute is floored is one: a negative length floors upward. -/
def HasBucket (eventBucketMinutes : Int) (t : Aware) : Prop :=
  t.HasUtc ∧ eventBucketMinutes ≠ 0 ∧
    (t.instant % hour / minute).fdiv eventBucketMinutes * eventBucketMinutes < 60

instance (m : Int) (t : Aware) : Decidable (HasBucket m t) := inferInstanceAs (Decidable (_ ∧ _))

theorem fdiv_mul_nonneg {n m : Int} (h : 0 ≤ n) : 0 ≤ n.fdiv m * m := by
  rcases le_total 0 m with hm | hm
  · exact Int.mul_nonneg (Int.fdiv_nonneg h hm) hm
  · exact Int.mul_nonneg_of_nonpos_of_nonpos (Int.fdiv_nonpos_of_nonneg_of_nonpos h hm) hm

theorem returns_replaceMinute {u : Aware} {n : Int} : Returns (u.replaceMinute n) ↔ 0 ≤ n ∧ n < 60 := by
  unfold Aware.replaceMinute
  split
  · exact iff_of_true (returns_ok _) ‹_›
  · refine iff_of_false ?_ ‹_›
    split <;> exact not_returns_error _

theorem returns_eventBucket {m : Int} {t : Aware} : Returns (eventBucket m t) ↔ HasBucket m t := by
  unfold eventBucket HasBucket
  cases hutc : t.astimezoneUtc with
  | error e => exact iff_of_false (not_returns_error e) fun h => (Aware.astimezoneUtc_eq_error.1 hutc).2 h.1
  | ok utc =>
    have hhas : t.HasUtc := by
      by_contra h
      rw [Aware.astimezoneUtc_eq_error.2 ⟨rfl, h⟩] at hutc
      cases hutc
    obtain ⟨hoff, hinst⟩ := Aware.astimezoneUtc_eq_ok.1 hutc
    rw [ok_bind, ← hinst, utc_minute hoff, floorDiv, and_iff_right hhas]
    by_cases hm : m = 0
    · simp [hm, returns_bind]
    · rw [if_neg hm, ok_bind, returns_bind_and fun _ _ => iff_true_intro (returns_pure _), returns_replaceMinute]
      have := fdiv_mul_nonneg (m := m) (Int.natCast_nonneg utc.naive.minute)
      tauto

/-- The two services name one bucket for an instant, the one that holds it, and
name the buckets of later instants no earlier; or both raise. -/
theorem bucket_agreed (s : Settings) (h : 1 ≤ s.eventBucketMinutes) :
    (∀ t : Aware, t.HasUtc → ∃ start, bucketStart s t = .ok start ∧
      eventBucket s.eventBucketMinutes t = .ok start.naive.isoMinute ∧
      bucketFor s t = .ok start.naive.isoMinute ∧
      start.instant ≤ t.instant ∧ t.instant < start.instant + s.eventBucketMinutes * minute) ∧
    (∀ t : Aware, ¬ t.HasUtc → eventBucket s.eventBucketMinutes t = .error .overflow ∧
      bucketFor s t = .error .overflow) ∧
    (∀ t u : Aware, t.instant = u.instant →
      eventBucket s.eventBucketMinutes t = eventBucket s.eventBucketMinutes u) ∧
    ∀ (t u : Aware) (b c : List Char), t.instant ≤ u.instant →
      eventBucket s.eventBucketMinutes t = .ok b → eventBucket s.eventBucketMinutes u = .ok c → b ≤ c := by
  refine ⟨fun t ht => ?_, fun t ht => ?_, fun t u => eventBucket_congr s,
    fun t u b c hle hb hc => eventBucket_mono h hb hc hle⟩
  · obtain ⟨start, hstart, -, -, -, hinst⟩ := bucketStart_spec s ht
    have hfor : bucketFor s t = .ok start.naive.isoMinute := by rw [bucketFor, hstart]; rfl
    refine ⟨start, hstart, (eventBucket_eq h t).trans hfor, hfor, ?_, ?_⟩
    · rw [hinst]
      exact Window.bucketStart_le s t.instant
    · have := Window.lt_windowEnd s t.instant
      rwa [Window.windowEnd, ← hinst, show s.minutes = s.eventBucketMinutes from max_eq_right h] at this
  · have hfor : bucketFor s t = .error .overflow := by rw [bucketFor, bucketStart_overflow s ht]; rfl
    exact ⟨(eventBucket_eq h t).trans hfor, hfor⟩

theorem bucket_agreed_quarters : 1 ≤ (⟨15, 16⟩ : Settings).eventBucketMinutes ∧
    ∀ t u : Aware, t.instant = u.instant → eventBucket 15 t = eventBucket 15 u :=
  ⟨by decide, (bucket_agreed ⟨15, 16⟩ (by decide)).2.2.1⟩

/-- Half an hour before the end of the last year, an hour west of Greenwich. -/
def lastHour : Aware :=
  ⟨datetime 9999 12 31 23 30 0 0 (by decide) (by decide), -3600000000, by decide⟩

/-- That instant has no bucket: its UTC datetime would be in the year 10000. -/
theorem lastHour_overflows : ¬ ∀ (s : Settings) (t : Aware), 1 ≤ s.eventBucketMinutes →
    1000 ≤ t.naive.date.year → ∃ b, eventBucket s.eventBucketMinutes t = .ok b ∧ bucketFor s t = .ok b := by
  intro h
  obtain ⟨b, hb, -⟩ := h ⟨15, 16⟩ lastHour (by decide) (by decide)
  have hover : eventBucket 15 lastHour = .error .overflow := by decide
  rw [hover] at hb
  cases hb

end HtapStack.Buckets
