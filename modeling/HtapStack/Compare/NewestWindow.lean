import HtapStack.Compare.Buckets
import Mathlib.Tactic.Linarith
/-!
# The window that is named

`get_window` walks back in steps of one bucket's length from the current time.
Within an hour that is from bucket to bucket, but the last bucket of an hour is
shorter if the length does not divide the hour, and a bucket is never longer than
an hour: the walk can step over one.

- `bucketStart_eq_iff`: a bucket holds the instants from its start up to
  `bucketEnd`.
- `findsNewest_iff`: one call finds the newest closed window (`FindsNewest`)
  exactly when each bucket it missed has no events or one that it visits after it
  has. All calls do exactly when the length divides the hour.
- `short_bucket_missed`: with 25 minutes, the bucket from 9:50 is stepped over.

A bucket is given by the instant it begins at, as in `getWindow`.
-/

namespace HtapStack.Window

/-- The instants at which a bucket begins that the sink can write an event under. -/
def IsBucket (s : Settings) (x : Int) : Prop := ∃ t, bucketStart s t = x

/-- A bucket ends when its length or the hour is over. -/
def bucketEnd (s : Settings) (x : Int) : Int := min (windowEnd s x) (x / hour * hour + hour)

/-- No instant from now on falls into the bucket. -/
def Over (s : Settings) (now x : Int) : Prop := ∀ t, now ≤ t → bucketStart s t ≠ x

/-- The bucket ended within the last `WINDOW_LOOKBACK` lengths. -/
def EndedRecently (s : Settings) (now x : Int) : Prop :=
  now - windowLookback * s.minutes * minute < bucketEnd s x ∧ bucketEnd s x ≤ now

structure FindsNewest (s : Settings) (now : Int) (holdsEvents : Int → Bool)
    (consumedPast : Int → Bool × Detail) : Prop where
  newest : (getWindow s now holdsEvents consumedPast).closed = true →
    Over s now (getWindow s now holdsEvents consumedPast).bucket ∧
      ∀ x, IsBucket s x → Over s now x → holdsEvents x = true → x ≤ (getWindow s now holdsEvents consumedPast).bucket
  found : (∃ x, IsBucket s x ∧ EndedRecently s now x ∧ holdsEvents x = true) →
    (getWindow s now holdsEvents consumedPast).closed = true

/-- One of the steps back from now falls into the bucket. -/
def Visited (s : Settings) (now x : Int) : Prop :=
  ∃ k : Int, (1 ≤ k ∧ k ≤ windowLookback) ∧
    x ≤ now - s.minutes * k * minute ∧ now - s.minutes * k * minute < bucketEnd s x

variable {s : Settings} {now t x y : Int}

/-! ## Where a bucket begins and ends -/

/-- The bucket of an instant by its hour and the number of the bucket in it. -/
theorem bucketStart_split (s : Settings) (t : Int) : ∃ q, 0 ≤ q * s.minutes ∧ q * s.minutes ≤ t % hour / minute ∧
    t % hour / minute < q * s.minutes + s.minutes ∧ bucketStart s t = t / hour * hour + q * s.minutes * minute := by
  have hmod := Int.emod_nonneg t (show hour ≠ 0 by decide)
  have hq : 0 ≤ t % hour / minute / s.minutes :=
    Int.ediv_nonneg (Int.ediv_nonneg hmod (by decide)) (minutes_pos s).le
  refine ⟨t % hour / minute / s.minutes, Int.mul_nonneg hq (minutes_pos s).le, ?_, ?_, rfl⟩
  · exact Int.ediv_mul_le _ (minutes_pos s).ne'
  · exact (Int.lt_ediv_add_one_mul_self _ (minutes_pos s)).trans_eq (by ring)

/-- An instant is in the bucket with that number if its minute is. -/
theorem bucketStart_of_split {q : Int} (hlow : q * s.minutes ≤ t % hour / minute)
    (hhigh : t % hour / minute < q * s.minutes + s.minutes) :
    bucketStart s t = t / hour * hour + q * s.minutes * minute := by
  have hq : t % hour / minute / s.minutes = q := by
    refine le_antisymm (Int.lt_add_one_iff.1 (Int.ediv_lt_of_lt_mul (minutes_pos s) ?_)) ?_
    · linarith
    · exact Int.le_ediv_of_mul_le (minutes_pos s) hlow
  rw [bucketStart, hq]

theorem bucketStart_hour (s : Settings) (t : Int) : bucketStart s t / hour = t / hour := by
  obtain ⟨q, hq, hlow, -, hsplit⟩ := bucketStart_split s t
  have ht := Int.emod_lt_of_pos t (show 0 < hour by decide)
  rw [hsplit]
  generalize q * s.minutes = floored at *
  simp only [hour, minute] at *
  omega

/-- A bucket holds the instants from its start to its end. -/
theorem bucketStart_eq_iff (hx : IsBucket s x) : bucketStart s t = x ↔ x ≤ t ∧ t < bucketEnd s x := by
  obtain ⟨u, rfl⟩ := hx
  rw [bucketEnd, lt_min_iff, bucketStart_hour]
  constructor
  · intro h
    rw [← h, ← bucketStart_hour s u, ← h, bucketStart_hour s t]
    have hhour := Int.lt_ediv_add_one_mul_self t (show 0 < hour by decide)
    exact ⟨bucketStart_le s t, lt_windowEnd s t, hhour.trans_eq (by ring)⟩
  · rintro ⟨hle, hlength, hhour⟩
    obtain ⟨q, hq, hlow, hhigh, hsplit⟩ := bucketStart_split s u
    have hsame : t / hour = u / hour := by
      have hu := bucketStart_hour s u
      simp only [hour, minute] at *
      omega
    rw [hsplit, ← hsame]
    rw [hsplit, ← hsame] at hle
    rw [windowEnd, hsplit, ← hsame] at hlength
    refine bucketStart_of_split ?_ ?_
    · generalize q * s.minutes = floored at *
      simp only [hour, minute] at *
      omega
    · generalize q * s.minutes = floored at *
      simp only [hour, minute] at *
      omega

theorem isBucket_bucketStart (s : Settings) (t : Int) : IsBucket s (bucketStart s t) := ⟨t, rfl⟩

theorem IsBucket.start (hx : IsBucket s x) : bucketStart s x = x := by
  obtain ⟨t, rfl⟩ := hx
  have hmem := (bucketStart_eq_iff (isBucket_bucketStart s t)).1 rfl
  refine (bucketStart_eq_iff (isBucket_bucketStart s t)).2 ⟨le_rfl, ?_⟩
  exact (bucketStart_le s t).trans_lt hmem.2

theorem IsBucket.lt_end (hx : IsBucket s x) : x < bucketEnd s x := ((bucketStart_eq_iff hx).1 hx.start).2

theorem over_iff (hx : IsBucket s x) : Over s now x ↔ bucketEnd s x ≤ now := by
  constructor
  · intro h
    by_contra hend
    have hlast : now ≤ bucketEnd s x - 1 := by omega
    have hlt := hx.lt_end
    exact h _ hlast ((bucketStart_eq_iff hx).2 ⟨by omega, by omega⟩)
  · intro h t ht heq
    have := ((bucketStart_eq_iff hx).1 heq).2
    omega

/-! ## The walk -/

/-- The buckets that a call asks about, latest first. -/
def candidates (s : Settings) (now : Int) : List Int :=
  (List.range windowLookback).map fun (i : Nat) => bucketStart s (now - s.minutes * ((i : Int) + 1) * minute)

theorem mem_candidates : x ∈ candidates s now ↔ IsBucket s x ∧ Visited s now x := by
  constructor
  · intro h
    obtain ⟨i, hi, rfl⟩ := List.mem_map.1 h
    have hi := List.mem_range.1 hi
    have hbucket := isBucket_bucketStart s (now - s.minutes * ((i : Int) + 1) * minute)
    exact ⟨hbucket, i + 1, ⟨by omega, by omega⟩, (bucketStart_eq_iff hbucket).1 rfl⟩
  · rintro ⟨hbucket, k, ⟨hone, hmax⟩, hmem⟩
    refine List.mem_map.2 ⟨(k - 1).toNat, List.mem_range.2 (by omega), ?_⟩
    have hk : (((k - 1).toNat : Nat) : Int) + 1 = k := by omega
    rw [hk]
    exact (bucketStart_eq_iff hbucket).2 hmem

theorem candidates_sorted : (candidates s now).Pairwise (· ≥ ·) := by
  refine List.pairwise_map.2 (List.pairwise_lt_range.imp fun {i j} hij => Buckets.bucketStart_mono s ?_)
  have hminute : (0 : Int) ≤ s.minutes * minute := Int.mul_nonneg (minutes_pos s).le (by decide)
  nlinarith

/-- The first that holds events is the latest that does. -/
theorem find_latest {l : List Int} {p : Int → Bool} (hl : l.Pairwise (· ≥ ·)) (h : l.find? p = some x) :
    p x = true ∧ x ∈ l ∧ ∀ y ∈ l, p y = true → y ≤ x := by
  obtain ⟨hx, before, after, rfl, hbefore⟩ := List.find?_eq_some_iff_append.1 h
  refine ⟨hx, by simp, fun y hy hpy => ?_⟩
  rw [List.mem_append, List.mem_cons] at hy
  rcases hy with hy | rfl | hy
  · have hnot := hbefore y hy
    rw [hpy] at hnot
    cases hnot
  · exact le_rfl
  · exact List.rel_of_pairwise_cons (List.pairwise_append.1 hl).2.1 hy

theorem getWindow_eq (s : Settings) (now : Int) (holdsEvents : Int → Bool) (consumedPast : Int → Bool × Detail) :
    (∃ b, (candidates s now).find? holdsEvents = some b ∧ (getWindow s now holdsEvents consumedPast).closed = true ∧
      (getWindow s now holdsEvents consumedPast).bucket = b) ∨
    (candidates s now).find? holdsEvents = none ∧ (getWindow s now holdsEvents consumedPast).closed = false := by
  simp only [getWindow]
  rw [← candidates]
  cases (candidates s now).find? holdsEvents with
  | some b => exact .inl ⟨b, rfl, rfl, rfl⟩
  | none => exact .inr ⟨rfl, rfl⟩

/-- A bucket that a step back falls into is over. -/
theorem Visited.over (hx : IsBucket s x) (h : Visited s now x) : Over s now x := by
  obtain ⟨k, ⟨hone, -⟩, hle, -⟩ := h
  have hlength : bucketEnd s x ≤ windowEnd s x := min_le_left _ _
  have hminute : (0 : Int) ≤ s.minutes * minute := Int.mul_nonneg (minutes_pos s).le (by decide)
  rw [windowEnd] at hlength
  exact (over_iff hx).2 (by nlinarith)

/-- A bucket that is over and later than one of the steps back ended recently. -/
theorem endedRecently_of_lt (hx : IsBucket s x) (hover : Over s now x) (hy : IsBucket s y) (h : Visited s now y)
    (hlt : y < x) : EndedRecently s now x := by
  obtain ⟨k, ⟨-, hmax⟩, hmem⟩ := h
  refine ⟨?_, (over_iff hx).1 hover⟩
  -- The step that fell into the earlier bucket is before the later one.
  have hbefore : now - s.minutes * k * minute < x := by
    by_contra hle
    have hmono := Buckets.bucketStart_mono s (not_lt.1 hle)
    rw [hx.start, (bucketStart_eq_iff hy).2 hmem] at hmono
    omega
  have hminute : (0 : Int) ≤ s.minutes * minute := Int.mul_nonneg (minutes_pos s).le (by decide)
  have hend := hx.lt_end
  nlinarith

/-! ## What it finds -/

section
variable {holdsEvents : Int → Bool} {consumedPast : Int → Bool × Detail}

theorem findsNewest_call : FindsNewest s now holdsEvents consumedPast ↔
    ∀ x, IsBucket s x → EndedRecently s now x → holdsEvents x = true →
      ∃ y, IsBucket s y ∧ Visited s now y ∧ holdsEvents y = true ∧ x ≤ y := by
  constructor
  · intro h x hx hrecent hholds
    have hclosed := h.found ⟨x, hx, hrecent, hholds⟩
    rcases getWindow_eq s now holdsEvents consumedPast with ⟨b, hb, -, hbucket⟩ | ⟨-, hnot⟩
    · obtain ⟨hbholds, hmem, -⟩ := find_latest candidates_sorted hb
      obtain ⟨hbb, hvisited⟩ := mem_candidates.1 hmem
      have hle := (h.newest hclosed).2 x hx ((over_iff hx).2 hrecent.2) hholds
      exact ⟨b, hbb, hvisited, hbholds, hbucket ▸ hle⟩
    · rw [hclosed] at hnot
      cases hnot
  · intro h
    rcases getWindow_eq s now holdsEvents consumedPast with ⟨b, hb, hclosed, hbucket⟩ | ⟨hnone, hnot⟩
    · obtain ⟨hbholds, hmem, hlatest⟩ := find_latest candidates_sorted hb
      obtain ⟨hbb, hvisited⟩ := mem_candidates.1 hmem
      refine ⟨fun _ => ?_, fun _ => hclosed⟩
      rw [hbucket]
      refine ⟨hvisited.over hbb, fun x hx hover hholds => ?_⟩
      by_contra hlt
      have hrecent := endedRecently_of_lt hx hover hbb hvisited (not_le.1 hlt)
      obtain ⟨y, hy, hyvisited, hyholds, hxy⟩ := h x hx hrecent hholds
      exact hlt (hxy.trans (hlatest y (mem_candidates.2 ⟨hy, hyvisited⟩) hyholds))
    · refine ⟨fun hclosed => ?_, fun ⟨x, hx, hrecent, hholds⟩ => ?_⟩
      · rw [hnot] at hclosed
        cases hclosed
      · obtain ⟨y, hy, hvisited, hyholds, -⟩ := h x hx hrecent hholds
        exact absurd hyholds (List.find?_eq_none.1 hnone y (mem_candidates.2 ⟨hy, hvisited⟩))

/-- When the length divides the hour, no bucket is cut short. -/
theorem bucketEnd_of_dvd (hdvd : s.minutes ∣ 60) (hx : IsBucket s x) : bucketEnd s x = windowEnd s x := by
  obtain ⟨t, rfl⟩ := hx
  refine min_eq_left ?_
  obtain ⟨q, hq, hlow, -, hsplit⟩ := bucketStart_split s t
  have hmin : t % hour / minute < 60 := by
    simp only [hour, minute]
    omega
  obtain ⟨d, hd⟩ := hdvd
  have hlast : q * s.minutes + s.minutes ≤ 60 := by
    have hqd : q < d := by
      by_contra hge
      have := Int.mul_le_mul_of_nonneg_right (not_lt.1 hge) (minutes_pos s).le
      nlinarith
    nlinarith [minutes_pos s]
  rw [bucketStart_hour, windowEnd, hsplit]
  simp only [hour, minute]
  linarith

/-- Then the walk goes from bucket to bucket. -/
theorem visited_of_dvd (hdvd : s.minutes ∣ 60) (hx : IsBucket s x) (hrecent : EndedRecently s now x) :
    Visited s now x := by
  obtain ⟨hlate, hended⟩ := hrecent
  rw [bucketEnd_of_dvd hdvd hx, windowEnd] at hlate hended
  have hlength : 0 < s.minutes * minute := Int.mul_pos (minutes_pos s) (by decide)
  have hlow := Int.ediv_mul_le (now - x) hlength.ne'
  have hhigh := Int.lt_ediv_add_one_mul_self (now - x) hlength
  refine ⟨(now - x) / (s.minutes * minute), ⟨?_, ?_⟩, ?_, ?_⟩
  · exact Int.le_ediv_of_mul_le hlength (by linarith)
  · refine Int.lt_add_one_iff.1 (Int.ediv_lt_of_lt_mul hlength ?_)
    simp only [windowLookback] at hlate ⊢
    push_cast at hlate ⊢
    linarith
  · linarith
  · rw [bucketEnd_of_dvd hdvd hx, windowEnd]
    linarith

/-- Else the walk from the end of an hour steps over the last bucket of the hour. -/
theorem last_not_visited (hdvd : ¬ s.minutes ∣ 60) : ¬ Visited s hour (bucketStart s (hour - 1)) := by
  rintro ⟨k, ⟨hone, -⟩, hle, -⟩
  obtain ⟨q, -, hlow, hhigh, hsplit⟩ := bucketStart_split s (hour - 1)
  have hlast : (hour - 1) % hour / minute = 59 := by decide
  have hfirst : (hour - 1) / hour = 0 := by decide
  rw [hlast] at hlow hhigh
  rw [hsplit, hfirst] at hle
  have hne : q * s.minutes + s.minutes ≠ 60 := fun h => hdvd ⟨q + 1, by linarith⟩
  have hstep : s.minutes * 1 ≤ s.minutes * k := Int.mul_le_mul_of_nonneg_left hone (minutes_pos s).le
  generalize s.minutes * k = steps at *
  generalize q * s.minutes = floored at *
  simp only [hour, minute] at *
  omega

theorem last_endedRecently (s : Settings) : EndedRecently s hour (bucketStart s (hour - 1)) := by
  have hbucket := isBucket_bucketStart s (hour - 1)
  have hmem := ((bucketStart_eq_iff hbucket).1 rfl).2
  have hhour : bucketEnd s (bucketStart s (hour - 1)) ≤ hour := by
    refine (min_le_right _ _).trans ?_
    rw [bucketStart_hour]
    decide
  have hlength : 0 < s.minutes * minute := Int.mul_pos (minutes_pos s) (by decide)
  refine ⟨?_, hhour⟩
  simp only [windowLookback]
  push_cast
  linarith

end

/-- A call finds the newest closed window exactly when every recent bucket with events is visited, or a later one
with events is; all calls do exactly when the length of a bucket divides the hour. -/
theorem findsNewest_iff (s : Settings) :
    (∀ now holdsEvents consumedPast, FindsNewest s now holdsEvents consumedPast ↔
      ∀ x, IsBucket s x → EndedRecently s now x → holdsEvents x = true →
        ∃ y, IsBucket s y ∧ Visited s now y ∧ holdsEvents y = true ∧ x ≤ y) ∧
    ((∀ now holdsEvents consumedPast, FindsNewest s now holdsEvents consumedPast) ↔ s.minutes ∣ 60) := by
  refine ⟨fun _ _ _ => findsNewest_call, fun h => ?_, fun hdvd now holdsEvents consumedPast => ?_⟩
  · by_contra hdvd
    -- Only the last bucket before a full hour holds events.
    have hcall := findsNewest_call.1 (h hour (· == bucketStart s (hour - 1)) fun _ => (false, .filling))
    obtain ⟨y, -, hvisited, hyholds, -⟩ := hcall _ (isBucket_bucketStart s _) (last_endedRecently s) (by simp)
    rw [beq_iff_eq.1 hyholds] at hvisited
    exact last_not_visited hdvd hvisited
  · exact findsNewest_call.2 fun x hx hrecent hholds => ⟨x, hx, visited_of_dvd hdvd hx hrecent, hholds, le_rfl⟩

/-! ## A bucket that is stepped over -/

/-- At 10:10, with 25 minutes and events from 9:25 and 9:50 on, the window from 9:25 is named. -/
theorem short_bucket_missed : ¬ ∀ s now holdsEvents consumedPast, FindsNewest s now holdsEvents consumedPast := by
  intro h
  have hnewest := (h ⟨25, 16⟩ (610 * minute) [565 * minute, 590 * minute].contains fun _ => (false, .filling)).newest
    (by decide)
  have hbucket : IsBucket ⟨25, 16⟩ (590 * minute) := ⟨590 * minute, by decide⟩
  have hover : Over ⟨25, 16⟩ (610 * minute) (590 * minute) := (over_iff hbucket).2 (by decide)
  exact absurd (hnewest.2 _ hbucket hover (by decide)) (by decide)

end HtapStack.Window
