import HtapStack.Lib.Calendar
import HtapStack.Lib.Returns
/-!
# Recent alerts

The sink writes an alert into the partition of its hour (`_write_alert` of
`ingress/consumer/consumer.py`), and `get_alerts` of `CassandraClient` in
`backend/app/db/cassandra_client.py` reads the partitions one by one, from the hour
of the clock back, until it has enough rows.

`getAlerts_eq`: this is the one query for the newest alerts of those hours, the
current hour being read even if none is asked for. It raises exactly if it runs out
of years before it has enough rows.

Left out: the columns that no query here compares.
-/

namespace HtapStack.AlertHistory
open Calendar

/-- A row of `alerts_by_bucket`, its time in milliseconds since the epoch. -/
structure Row (R : Type) where
  bucket : List Char
  alertTime : Int
  rest : R
  deriving DecidableEq, Repr

variable {R : Type}

/-- Microseconds since the epoch, of a datetime in UTC. -/
def sinceEpoch (t : Naive) : Int := t.micros - epochOrdinal * dayMicros

/-- `_write_alert`: the driver stores whole milliseconds. -/
def writeAlert (alertTime : Naive) (rest : R) : Row R :=
  ⟨alertTime.isoHour, (sinceEpoch alertTime).tdiv 1000, rest⟩

/-- Whole hours since the epoch. -/
def Row.hour (row : Row R) : Int := row.alertTime / 3600000

def hours (t : Naive) : Int := sinceEpoch t / hourMicros

/-- The row is in the bucket of its hour. -/
def Row.OfHour (row : Row R) : Prop := ∃ t : Naive, row.bucket = t.isoHour ∧ row.hour = hours t

/-- The rows of all partitions, in clustering order within each: `alert_time DESC`, and equal times in
the order of the keys that follow. -/
structure Table (R : Type) where
  rows : List (Row R)
  newestFirst : rows.Pairwise fun a b => b.alertTime ≤ a.alertTime
  ofHour : ∀ row ∈ rows, row.OfHour

/-- `SELECT … FROM alerts_by_bucket WHERE bucket = %s`. -/
def Table.partition (t : Table R) (bucket : List Char) : List (Row R) := t.rows.filter (·.bucket == bucket)

/-- The loop of `get_alerts`, for so many more buckets. -/
def readBack (t : Table R) (limit : Int) : Nat → Naive → List (Row R) → Except Exn (List (Row R))
  | 0, _, alerts => .ok alerts
  | n + 1, bucketTime, alerts => do
    let remaining := limit - alerts.length
    if remaining ≤ 0 then return alerts
    let alerts := alerts ++ (t.partition bucketTime.isoHour).take remaining.toNat
    readBack t limit n (← bucketTime.add (-hourMicros)) alerts

/-- `get_alerts`. With a negative limit nothing was read. -/
def getAlerts (t : Table R) (limit hours : Int) (now : Naive) : Except Exn (List (Row R)) :=
  (·.take limit.toNat) <$> readBack t limit (max 1 hours).toNat now []

/-- The newest alerts among those of the last `n` hours. -/
def globalQuery (t : Table R) (limit : Int) (n : Nat) (now : Naive) : List (Row R) :=
  (t.rows.filter fun row => hours now - n < row.hour && row.hour ≤ hours now).take limit.toNat

/-- From the `i`-th hour to the `n`-th there are years to step back into after each read, and an hour is read as
long as rows are missing before it. -/
def StepsBack (t : Table R) (limit : Int) (i n : Nat) (now : Naive) : Prop :=
  ∀ j < n, i ≤ j → ((globalQuery t limit j now).length : Int) < limit →
    InYears (now.micros - (j + 1 : Nat) * hourMicros)

instance (t : Table R) (limit : Int) (i n : Nat) (now : Naive) : Decidable (StepsBack t limit i n now) :=
  inferInstanceAs (Decidable (∀ j < n, _ → _ → _))

/-! ## Buckets and hours -/

/-- From the epoch on, whole milliseconds stay in the hour. -/
theorem writeAlert_ofHour {alertTime : Naive} (h : 0 ≤ sinceEpoch alertTime) (rest : R) :
    (writeAlert alertTime rest).OfHour := by
  refine ⟨alertTime, rfl, ?_⟩
  rw [writeAlert, hours, Int.tdiv_eq_ediv_of_nonneg h, hourMicros]
  change sinceEpoch alertTime / 1000 / 3600000 = sinceEpoch alertTime / 3600000000
  omega

theorem hours_eq_iff {t u : Naive} : hours t = hours u ↔ t.isoHour = u.isoHour := by
  rw [Naive.isoHour_eq_iff, hours, hours, sinceEpoch, sinceEpoch, epochOrdinal, dayMicros, hourMicros]
  omega

theorem Row.OfHour.bucket_eq_iff {row : Row R} (h : row.OfHour) (t : Naive) :
    row.bucket = t.isoHour ↔ row.hour = hours t := by
  obtain ⟨u, hbucket, hhour⟩ := h
  rw [hbucket, hhour, hours_eq_iff]

theorem Table.partition_eq (t : Table R) (u : Naive) :
    t.partition u.isoHour = t.rows.filter fun row => row.hour == hours u := by
  refine List.filter_congr fun row hrow => ?_
  rw [Bool.eq_iff_iff, beq_iff_eq, beq_iff_eq, (t.ofHour row hrow).bucket_eq_iff]

theorem hours_sub {t u : Naive} {i : Nat} (h : u.micros = t.micros - i * hourMicros) : hours u = hours t - i := by
  rw [hours, hours, sinceEpoch, sinceEpoch, h, epochOrdinal, dayMicros, hourMicros]
  omega

/-- In a list that has no `q` before a `p`, those of either kind are the `p`s and then the `q`s. -/
theorem filter_or {α : Type} {r : α → α → Prop} {p q : α → Bool} {l : List α} (h : l.Pairwise r)
    (hsep : ∀ a b, q a = true → p b = true → ¬ r a b) (hdis : ∀ a, q a = true → p a = false) :
    l.filter (fun a => p a || q a) = l.filter p ++ l.filter q := by
  induction l with
  | nil => rfl
  | cons a l ih =>
    obtain ⟨ha, hl⟩ := List.pairwise_cons.1 h
    cases hq : q a with
    | false => cases hp : p a <;> simp [hp, hq, ih hl]
    | true =>
      have hnone : l.filter p = [] := List.filter_eq_nil_iff.2 fun b hb hpb => hsep a b hq hpb (ha b hb)
      simp [hq, hdis a hq, ih hl, hnone]

/-- One more hour comes after the hours before it. -/
theorem filter_hours_succ (t : Table R) (h : Int) (i : Nat) :
    (t.rows.filter fun row => h - (i + 1 : Nat) < row.hour && row.hour ≤ h) =
      (t.rows.filter fun row => h - i < row.hour && row.hour ≤ h) ++ t.rows.filter fun row => row.hour == h - i := by
  rw [← filter_or t.newestFirst]
  · refine List.filter_congr fun row _ => ?_
    rw [Bool.eq_iff_iff]
    simp only [Bool.and_eq_true, Bool.or_eq_true, decide_eq_true_eq, beq_iff_eq]
    omega
  · intro a b hq hp hle
    simp only [beq_iff_eq, Bool.and_eq_true, decide_eq_true_eq] at hq hp
    unfold Row.hour at hq hp
    omega
  · intro a hq
    simp only [beq_iff_eq] at hq
    simp [hq]

/-! ## The loop -/

theorem globalQuery_zero (t : Table R) (limit : Int) (now : Naive) : globalQuery t limit 0 now = [] := by
  have hnone : (t.rows.filter fun row => hours now - (0 : Nat) < row.hour && row.hour ≤ hours now) = [] := by
    refine List.filter_eq_nil_iff.2 fun row _ h => ?_
    simp only [Bool.and_eq_true, decide_eq_true_eq] at h
    omega
  rw [globalQuery, hnone, List.take_nil]

/-- What one bucket adds. -/
theorem globalQuery_succ (t : Table R) {limit : Int} {now u : Naive} {i : Nat}
    (hu : u.micros = now.micros - i * hourMicros) :
    globalQuery t limit (i + 1) now = globalQuery t limit i now ++
      (t.partition u.isoHour).take (limit - (globalQuery t limit i now).length).toNat := by
  rw [globalQuery, filter_hours_succ, List.take_append, ← globalQuery, t.partition_eq, hours_sub hu]
  congr 2
  rw [globalQuery, List.length_take]
  omega

/-- When there are enough rows, more hours add none. -/
theorem globalQuery_full (t : Table R) {limit : Int} {now : Naive} {i n : Nat} (hin : i ≤ n)
    (h : limit ≤ (globalQuery t limit i now).length) : globalQuery t limit n now = globalQuery t limit i now := by
  have hpre : ∃ more, (t.rows.filter fun row => hours now - n < row.hour && row.hour ≤ hours now) =
      (t.rows.filter fun row => hours now - i < row.hour && row.hour ≤ hours now) ++ more := by
    induction n, hin using Nat.le_induction with
    | base => exact ⟨[], (List.append_nil _).symm⟩
    | succ n hin ih =>
      obtain ⟨more, hmore⟩ := ih
      rw [filter_hours_succ, hmore, List.append_assoc]
      exact ⟨_, rfl⟩
  obtain ⟨more, hmore⟩ := hpre
  rw [globalQuery, List.length_take] at h
  rw [globalQuery, hmore, globalQuery, List.take_append_of_le_length (by omega)]

theorem stepsBack_succ {t : Table R} {limit : Int} {i n : Nat} {now : Naive} (hin : i < n)
    (hlt : ((globalQuery t limit i now).length : Int) < limit) :
    StepsBack t limit i n now ↔
      InYears (now.micros - (i + 1 : Nat) * hourMicros) ∧ StepsBack t limit (i + 1) n now := by
  constructor
  · intro h
    exact ⟨h i hin le_rfl hlt, fun j hj hij => h j hj (Nat.le_of_succ_le hij)⟩
  · rintro ⟨hyears, h⟩ j hj hij
    rcases hij.eq_or_lt with rfl | hij
    · exact fun _ => hyears
    · exact h j hj hij

/-- From a bucket `i` hours back, the loop completes the query of all hours. -/
theorem readBack_eq (t : Table R) (limit : Int) (now : Naive) {n i : Nat} {u : Naive}
    (hu : u.micros = now.micros - i * hourMicros) :
    readBack t limit n u (globalQuery t limit i now) =
      if StepsBack t limit i (i + n) now then .ok (globalQuery t limit (i + n) now) else .error .overflow := by
  induction n generalizing i u with
  | zero =>
    have hnone : StepsBack t limit i (i + 0) now := fun j hj hij => absurd hij (Nat.not_le.2 hj)
    rw [if_pos hnone]
    rfl
  | succ n ih =>
    rw [readBack]
    by_cases hfull : limit - (globalQuery t limit i now).length ≤ 0
    · have hle : limit ≤ (globalQuery t limit i now).length := by omega
      have hnone : StepsBack t limit i (i + (n + 1)) now := by
        intro j _ hij hlt
        rw [globalQuery_full t hij hle] at hlt
        omega
      rw [if_pos hfull, if_pos hnone, globalQuery_full t (Nat.le_add_right i _) hle]
      rfl
    · have hback : u.micros + -hourMicros = now.micros - (i + 1 : Nat) * hourMicros := by
        rw [hu]
        unfold hourMicros
        omega
      have hlt : ((globalQuery t limit i now).length : Int) < limit := by omega
      have hsteps : StepsBack t limit i (i + (n + 1)) now ↔ _ := stepsBack_succ (by omega) hlt
      rw [if_neg hfull, ← globalQuery_succ t hu]
      cases hadd : u.add (-hourMicros) with
      | error e =>
        rw [Naive.add, ofMicros_eq_error, hback] at hadd
        rw [if_neg fun h => hadd.2 (hsteps.1 h).1, hadd.1]
        rfl
      | ok v =>
        rw [Naive.add, ofMicros_eq_ok, hback] at hadd
        have hyears : InYears (now.micros - (i + 1 : Nat) * hourMicros) := hadd ▸ v.inYears
        have hrest := ih hadd
        rw [show i + 1 + n = i + (n + 1) by omega] at hrest
        simp only [hsteps, hyears, true_and]
        exact hrest

theorem take_globalQuery (t : Table R) (limit : Int) (n : Nat) (now : Naive) :
    (globalQuery t limit n now).take limit.toNat = globalQuery t limit n now := by
  rw [globalQuery, List.take_take, min_self]

theorem globalQuery_newestFirst (t : Table R) (limit : Int) (n : Nat) (now : Naive) :
    (globalQuery t limit n now).Pairwise fun a b => b.alertTime ≤ a.alertTime :=
  (t.newestFirst.sublist List.filter_sublist).sublist (List.take_sublist _ _)

/-- `get_alerts` is the one query over the hours it is asked for, or over one if it is asked for fewer, as
long as there are years to step back into. -/
theorem getAlerts_eq (t : Table R) (limit hours : Int) (now : Naive) :
    getAlerts t limit hours now =
        (if StepsBack t limit 0 (max 1 hours).toNat now then .ok (globalQuery t limit (max 1 hours).toNat now)
        else .error .overflow) ∧
      (globalQuery t limit (max 1 hours).toNat now).Pairwise fun a b => b.alertTime ≤ a.alertTime := by
  have hloop := readBack_eq t limit now (n := (max 1 hours).toNat) (i := 0) (u := now) (by simp)
  rw [globalQuery_zero, Nat.zero_add] at hloop
  refine ⟨?_, globalQuery_newestFirst t limit _ now⟩
  rw [getAlerts, hloop]
  split
  · exact congrArg Except.ok (take_globalQuery t limit _ now)
  · rfl

/-! ## No hours -/

theorem firstOfMarch : (1 ≤ 2026 ∧ 2026 ≤ 9999) ∧ (1 ≤ 3 ∧ 3 ≤ 12) ∧ 1 ≤ 1 ∧ 1 ≤ daysInMonth 2026 3 := by
  decide

theorem noon_clock : 12 < 24 ∧ 0 < 60 ∧ 0 < 60 ∧ 0 < 1000000 := by
  decide

def noon : Naive := datetime 2026 3 1 12 0 0 0 firstOfMarch noon_clock

/-- One alert, at noon. -/
def oneAlert : Table Unit where
  rows := [writeAlert noon ()]
  newestFirst := List.pairwise_singleton _ _
  ofHour := by
    intro row hrow
    rw [List.mem_singleton.1 hrow]
    exact writeAlert_ofHour (by decide +kernel) ()

/-- Asked for no hours at all, `get_alerts` still reads the one that has begun. -/
theorem current_hour_read : ¬ ∀ (t : Table Unit) (limit hours : Int) (now : Naive),
    getAlerts t limit hours now = .ok (globalQuery t limit hours.toNat now) := by
  intro h
  exact absurd (h oneAlert 1 0 noon) (by decide +kernel)

end HtapStack.AlertHistory
