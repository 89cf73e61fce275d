import HtapStack.Lib.Calendar
import HtapStack.Lib.Returns
import Mathlib.Logic.Function.Basic
/-!
# The ingestion history

The sink counts what it writes into half-hour buckets (`_thirty_min_bucket` of
`ingress/consumer/consumer.py`), and `get_ingestion_history` of `CassandraClient`
in `backend/app/db/cassandra_client.py` reads the buckets of the last hours, each
with a key of its own making.

- `history_covers`: the history is two buckets an hour, one half hour after the
  other up to the clock's own, each with the key that the sink counts that half
  hour under and with what the sink counted in it. It raises exactly if the first
  bucket lies before the year 1, and a bucket that cannot be read counts as 0.
- `route_covers`: the route asks for two days at most, which are there from the
  third day of the year 1 on.
-/

namespace HtapStack.IngestionHistory
open Calendar

/-! ## The sink -/

/-- `_thirty_min_bucket`. -/
def thirtyMinBucket (dt : Naive) : List Char :=
  let minuteBucket := if dt.minute < 30 then 0 else 30
  dt.isoHour ++ ':' :: pad 2 minuteBucket

/-- `ingestion_counts`: the counter of each bucket that has one. -/
abbrev Counts := List Char → Option Nat

/-- `UPDATE ingestion_counts SET record_count = record_count + ? WHERE bucket = ?`. -/
def Counts.countIngested (t : Counts) (now : Naive) (buffered : Nat) : Counts :=
  Function.update t (thirtyMinBucket now) (some ((t (thirtyMinBucket now)).getD 0 + buffered))

/-- The table after these updates, each with the time it was made at. -/
def ingestionCounts (updates : List (Naive × Nat)) : Counts :=
  updates.foldl (fun t u => t.countIngested u.1 u.2) fun _ => none

/-! ## The history -/

/-- The rows of a bucket, or none if reading them raised. -/
abbrev Read := Option (List (Option Nat))

def bucketKey (t : Naive) : List Char := t.isoHour ++ ':' :: pad 2 (if t.minute < 30 then 0 else 30)

def bucketCount (read : List Char → Read) (t : Naive) : Nat :=
  match read (bucketKey t) with
  | some (recordCount :: _) => recordCount.getD 0
  | some [] => 0
  | none => 0

structure Bucket where
  time : List Char
  timestamp : List Char
  count : Nat
  deriving DecidableEq, Repr

/-- Half an hour in microseconds. -/
def halfHourMicros : Int := 1800000000

/-- The entry of a time. -/
def bucketAt (read : List Char → Read) (t : Naive) : Bucket :=
  let key := bucketKey t
  ⟨key.drop 11, key, bucketCount read t⟩

/-- The entry of `i` half hours ago. -/
def bucketBack (read : List Char → Read) (now : Naive) (i : Nat) : Except Exn Bucket := do
  let t ← now.add (-(i * halfHourMicros))
  return bucketAt read t

/-- `get_ingestion_history`. -/
def getIngestionHistory (read : List Char → Read) (hours : Int) (now : Naive) : Except Exn (List Bucket) :=
  (List.range (hours * 2).toNat).reverse.mapM (bucketBack read now)

/-- `MAX_HISTORY_HOURS`. -/
def maxHistoryHours : Int := 48

/-- `/api/overview/ingestion-history`. -/
def ingestionHistoryRoute (connected : Bool) (read : List Char → Read) (hours : Int) (now : Naive) :
    Int × List Bucket :=
  let hours := max 1 (min hours maxHistoryHours)
  if connected then
    match getIngestionHistory read hours now with
    | .ok buckets => (hours, buckets)
    | .error _ => (hours, [])
  else (hours, [])

/-! ## Statements -/

/-- Half hours since the start of day 0. -/
def halfHour (t : Naive) : Int := t.micros / halfHourMicros

/-- What the updates of a half hour add up to. -/
def ingested (updates : List (Naive × Nat)) (k : Int) : Nat :=
  ((updates.filter fun u => halfHour u.1 == k).map Prod.snd).sum

/-- What a bucket of the table reads as, if reading it does not raise. -/
def tableRead (t : Counts) (raises : List Char → Bool) (bucket : List Char) : Read :=
  if raises bucket then none else some ((t bucket).map some).toList

/-- There are years to step back into. -/
def Reaches (hours : Int) (now : Naive) : Prop :=
  0 < hours → InYears (now.micros - (hours * 2 - 1) * halfHourMicros)

instance (hours : Int) (now : Naive) : Decidable (Reaches hours now) := inferInstanceAs (Decidable (_ → _))

/-- The entries are these half hours, with what was counted in each. -/
structure Covers (updates : List (Naive × Nat)) (raises : List Char → Bool) (now : Naive) (buckets : List Bucket) :
    Prop where
  /-- Each is the half hour of some time, the next after the one before it, the last that of `now`, and its key is
  the sink's for the times in it and for no other. -/
  consecutive : ∀ (i : Nat) (h : i < buckets.length), ∃ t : Naive,
    halfHour t = halfHour now - (buckets.length - 1 - i : Nat) ∧
      ∀ u, thirtyMinBucket u = buckets[i].timestamp ↔ halfHour u = halfHour t
  distinct : (buckets.map (·.timestamp)).Nodup
  count : ∀ (i : Nat) (h : i < buckets.length), buckets[i].count =
    if raises buckets[i].timestamp then 0 else ingested updates (halfHour now - (buckets.length - 1 - i : Nat))
  /-- Nothing that was ingested in them is missing or shown twice. -/
  total : (∀ bucket, raises bucket = false) → (buckets.map (·.count)).sum =
    ((updates.filter fun u => halfHour now - buckets.length < halfHour u.1 && halfHour u.1 ≤ halfHour now).map
      Prod.snd).sum

section
variable {t u now : Naive} {n : Nat} {ts : List Naive}

/-! ## Keys -/

theorem halfHour_eq (t : Naive) : halfHour t = t.micros / hourMicros * 2 + if t.minute < 30 then 0 else 1 := by
  have := t.minute_ok
  have := t.second_ok
  have := t.microsecond_ok
  unfold halfHour Naive.micros Naive.time dayMicros hourMicros halfHourMicros
  split <;> omega

/-- The sink's key is the half hour. -/
theorem thirtyMinBucket_eq_iff : thirtyMinBucket t = thirtyMinBucket u ↔ halfHour t = halfHour u := by
  rw [halfHour_eq, halfHour_eq]
  constructor
  · intro h
    obtain ⟨hhour, hminute⟩ := List.append_inj h (by simp [Naive.isoHour])
    have hbucket := pad_inj (by split <;> decide) (by split <;> decide) (List.cons.inj hminute).2
    have hhalf : t.minute < 30 ↔ u.minute < 30 := by split at hbucket <;> split at hbucket <;> omega
    rw [Naive.isoHour_eq_iff.1 hhour]
    simp only [hhalf]
  · intro h
    have hhour : t.micros / hourMicros = u.micros / hourMicros := by split at h <;> split at h <;> omega
    have hhalf : t.minute < 30 ↔ u.minute < 30 := by split at h <;> split at h <;> omega
    rw [thirtyMinBucket, thirtyMinBucket, Naive.isoHour_eq_iff.2 hhour]
    simp only [hhalf]

/-- The reader's key is the sink's. -/
theorem bucketKey_eq (t : Naive) : bucketKey t = thirtyMinBucket t := rfl

/-! ## Counts -/

theorem counts_foldl (updates : List (Naive × Nat)) (c : Counts) (t : Naive) :
    (updates.foldl (fun c u => c.countIngested u.1 u.2) c (thirtyMinBucket t)).getD 0 =
      (c (thirtyMinBucket t)).getD 0 + ingested updates (halfHour t) := by
  induction updates generalizing c with
  | nil => rfl
  | cons u updates ih =>
    rw [List.foldl_cons, ih, ingested, ingested, List.filter_cons, Counts.countIngested]
    by_cases hu : halfHour u.1 = halfHour t
    · rw [thirtyMinBucket_eq_iff.2 hu, Function.update_self, if_pos (by simpa using hu), List.map_cons, List.sum_cons,
        Option.getD_some, Nat.add_assoc]
    · have hne : thirtyMinBucket t ≠ thirtyMinBucket u.1 := fun h => hu (thirtyMinBucket_eq_iff.1 h).symm
      rw [Function.update_of_ne hne, if_neg (by simpa using hu)]

theorem bucketCount_table (updates : List (Naive × Nat)) (raises : List Char → Bool) (t : Naive) :
    bucketCount (tableRead (ingestionCounts updates) raises) t =
      if raises (thirtyMinBucket t) then 0 else ingested updates (halfHour t) := by
  have hcount : (ingestionCounts updates (thirtyMinBucket t)).getD 0 = ingested updates (halfHour t) :=
    (counts_foldl updates _ t).trans (Nat.zero_add _)
  rw [← hcount, bucketCount, tableRead, bucketKey_eq]
  cases raises (thirtyMinBucket t) with
  | true => rfl
  | false => cases ingestionCounts updates (thirtyMinBucket t) <;> rfl

/-! ## The times -/

/-- Times half an hour apart, the last of them `now`. -/
def Back (now : Naive) : List Naive → Prop
  | [] => True
  | t :: ts => t.micros = now.micros - ts.length * halfHourMicros ∧ Back now ts

theorem halfHour_back {k : Nat} (h : t.micros = now.micros - k * halfHourMicros) : halfHour t = halfHour now - k := by
  rw [halfHour, halfHour, h, halfHourMicros]
  omega

theorem Back.getElem (h : Back now ts) (i : Nat) (hi : i < ts.length) :
    halfHour ts[i] = halfHour now - (ts.length - 1 - i : Nat) := by
  induction ts generalizing i with
  | nil => cases hi
  | cons t ts ih =>
    cases i with
    | zero => simpa using halfHour_back h.1
    | succ i =>
      rw [List.getElem_cons_succ, ih h.2 i (by simpa using hi), List.length_cons]
      congr 2
      omega

/-- Those that follow are later. -/
theorem Back.lt (h : Back now ts) (hu : u ∈ ts) : halfHour now - ts.length < halfHour u := by
  obtain ⟨i, hi, rfl⟩ := List.getElem_of_mem hu
  rw [h.getElem i hi]
  omega

theorem Back.nodup (h : Back now ts) : (ts.map bucketKey).Nodup := by
  induction ts with
  | nil => exact List.nodup_nil
  | cons t ts ih =>
    rw [List.map_cons, List.nodup_cons, List.mem_map]
    refine ⟨?_, ih h.2⟩
    rintro ⟨u, hu, hkey⟩
    have hlt := h.2.lt hu
    rw [thirtyMinBucket_eq_iff.1 hkey, halfHour_back h.1] at hlt
    omega

theorem sum_filter_or {α : Type} {p q : α → Bool} (f : α → Nat) (h : ∀ a, p a = true → q a = false) (l : List α) :
    ((l.filter fun a => p a || q a).map f).sum = ((l.filter p).map f).sum + ((l.filter q).map f).sum := by
  induction l with
  | nil => rfl
  | cons a l ih =>
    cases hp : p a with
    | true => simp [hp, h a hp, ih, Nat.add_assoc]
    | false => cases hq : q a <;> simp [hp, hq, ih, Nat.add_left_comm]

/-- One by one, they add up to all of them. -/
theorem Back.total (h : Back now ts) (updates : List (Naive × Nat)) :
    (ts.map fun t => ingested updates (halfHour t)).sum =
      ((updates.filter fun u => halfHour now - ts.length < halfHour u.1 && halfHour u.1 ≤ halfHour now).map
        Prod.snd).sum := by
  induction ts with
  | nil =>
    have hnone : (updates.filter fun u => halfHour now - (0 : Nat) < halfHour u.1 && halfHour u.1 ≤ halfHour now) = [] := by
      refine List.filter_eq_nil_iff.2 fun u _ hu => ?_
      simp only [Bool.and_eq_true, decide_eq_true_eq] at hu
      omega
    rw [List.length_nil, hnone]
    rfl
  | cons t ts ih =>
    rw [List.map_cons, List.sum_cons, ih h.2, ingested, ← sum_filter_or]
    · congr 2
      refine List.filter_congr fun u _ => ?_
      rw [Bool.eq_iff_iff, halfHour_back h.1]
      simp only [Bool.and_eq_true, Bool.or_eq_true, decide_eq_true_eq, beq_iff_eq, List.length_cons]
      omega
    · intro u hu
      rw [beq_iff_eq, halfHour_back h.1] at hu
      simp [hu]

/-! ## The loop -/

/-- The loop reads the buckets of so many times, unless there are no such times. -/
theorem loop_eq (read : List Char → Read) (now : Naive) (n : Nat) :
    if 0 < n → InYears (now.micros - (n - 1) * halfHourMicros) then
      ∃ ts, ts.length = n ∧ Back now ts ∧
        (List.range n).reverse.mapM (bucketBack read now) = .ok (ts.map (bucketAt read))
    else (List.range n).reverse.mapM (bucketBack read now) = .error .overflow := by
  induction n with
  | zero => exact ⟨[], rfl, trivial, rfl⟩
  | succ n ih =>
    have hback : now.micros + -(n * halfHourMicros) = now.micros - ((n + 1 : Nat) - 1) * halfHourMicros := by
      unfold halfHourMicros
      omega
    rw [List.range_succ, List.reverse_append, List.reverse_singleton, List.singleton_append, List.mapM_cons, bucketBack]
    cases hadd : now.add (-(n * halfHourMicros)) with
    | error e =>
      rw [Naive.add, ofMicros_eq_error, hback] at hadd
      rw [if_neg fun h => hadd.2 (h n.succ_pos), hadd.1]
      rfl
    | ok t =>
      rw [Naive.add, ofMicros_eq_ok] at hadd
      -- Half an hour later is between two datetimes.
      have hrest : 0 < n → InYears (now.micros - (n - 1) * halfHourMicros) := by
        have ht := t.inYears
        have hnow := now.inYears
        rw [hadd] at ht
        unfold InYears dayMicros halfHourMicros at *
        omega
      rw [if_pos hrest] at ih
      obtain ⟨ts, hlen, hts, hok⟩ := ih
      rw [if_pos fun _ => hback ▸ hadd ▸ t.inYears, hok]
      exact ⟨t :: ts, by rw [List.length_cons, hlen], ⟨by rw [hadd, hlen, Int.sub_eq_add_neg], hts⟩, rfl⟩

theorem covers_of_back (updates : List (Naive × Nat)) (raises : List Char → Bool) (h : Back now ts) :
    Covers updates raises now (ts.map (bucketAt (tableRead (ingestionCounts updates) raises))) where
  consecutive i hi := by
    rw [List.length_map] at hi ⊢
    exact ⟨ts[i], h.getElem i hi, fun u => by rw [List.getElem_map]; exact thirtyMinBucket_eq_iff⟩
  distinct := by
    rw [List.map_map]
    exact h.nodup
  count i hi := by
    rw [List.length_map] at hi ⊢
    rw [List.getElem_map, ← h.getElem i hi]
    exact bucketCount_table updates raises ts[i]
  total hreads := by
    rw [List.map_map, List.length_map, ← h.total updates]
    congr 1
    refine List.map_congr_left fun t _ => (bucketCount_table updates raises t).trans ?_
    rw [hreads, if_neg Bool.false_ne_true]

theorem reaches_iff (hours : Int) (now : Naive) :
    (0 < (hours * 2).toNat → InYears (now.micros - ((hours * 2).toNat - 1) * halfHourMicros)) ↔ Reaches hours now := by
  have hpos : 0 < (hours * 2).toNat ↔ 0 < hours := by omega
  rw [hpos, Reaches]
  refine forall_congr' fun h => ?_
  rw [Int.toNat_of_nonneg (by omega)]

theorem history_loop (read : List Char → Read) (hours : Int) (now : Naive) :
    if Reaches hours now then
      ∃ ts, ts.length = (hours * 2).toNat ∧ Back now ts ∧
        getIngestionHistory read hours now = .ok (ts.map (bucketAt read))
    else getIngestionHistory read hours now = .error .overflow := by
  have hloop := loop_eq read now (hours * 2).toNat
  simp only [reaches_iff] at hloop
  exact hloop

/-- The history is the half hours up to now, each with the sink's key and count, as long as there are years to
step back into. -/
theorem history_covers (updates : List (Naive × Nat)) (raises : List Char → Bool) (hours : Int) (now : Naive) :
    if Reaches hours now then
      ∃ buckets, getIngestionHistory (tableRead (ingestionCounts updates) raises) hours now = .ok buckets ∧
        buckets.length = (hours * 2).toNat ∧ Covers updates raises now buckets
    else getIngestionHistory (tableRead (ingestionCounts updates) raises) hours now = .error .overflow := by
  have hloop := history_loop (tableRead (ingestionCounts updates) raises) hours now
  split at hloop
  · obtain ⟨ts, hlen, hts, hok⟩ := hloop
    rw [if_pos ‹_›]
    exact ⟨_, hok, by rw [List.length_map, hlen], covers_of_back updates raises hts⟩
  · rw [if_neg ‹_›]
    exact hloop

/-- The route's two days are there from the third day of the year 1 on. -/
theorem route_covers (updates : List (Naive × Nat)) (raises : List Char → Bool) (hours : Int) (now : Naive)
    (h : 3 * dayMicros ≤ now.micros) :
    ∃ buckets, ingestionHistoryRoute true (tableRead (ingestionCounts updates) raises) hours now =
        (max 1 (min hours maxHistoryHours), buckets) ∧
      buckets.length = (max 1 (min hours maxHistoryHours) * 2).toNat ∧ Covers updates raises now buckets := by
  have hreaches : Reaches (max 1 (min hours maxHistoryHours)) now := by
    intro _
    have hnow := now.inYears
    unfold InYears maxHistoryHours dayMicros halfHourMicros at *
    omega
  have hloop := history_loop (tableRead (ingestionCounts updates) raises) (max 1 (min hours maxHistoryHours)) now
  rw [if_pos hreaches] at hloop
  obtain ⟨ts, hlen, hts, hok⟩ := hloop
  exact ⟨_, by simp only [ingestionHistoryRoute, if_true, hok], by rw [List.length_map, hlen],
    covers_of_back updates raises hts⟩

end

/-! ## No years left -/

theorem firstOfMay : (1 ≤ 2026 ∧ 2026 ≤ 9999) ∧ (1 ≤ 5 ∧ 5 ≤ 12) ∧ 1 ≤ 1 ∧ 1 ≤ daysInMonth 2026 5 := by
  decide

theorem morning_clock : 9 < 24 ∧ 45 < 60 ∧ 0 < 60 ∧ 0 < 1000000 := by
  decide

def morning : Naive := datetime 2026 5 1 9 45 0 0 firstOfMay morning_clock

/-- Twenty million hours are more than there are years for. -/
theorem hours_overflow : ¬ ∀ (updates : List (Naive × Nat)) (hours : Int) (now : Naive), 0 ≤ hours →
    ∃ buckets, getIngestionHistory (tableRead (ingestionCounts updates) fun _ => false) hours now = .ok buckets ∧
      buckets.length = (hours * 2).toNat ∧ Covers updates (fun _ => false) now buckets := by
  intro h
  obtain ⟨buckets, hok, -⟩ := h [] 20000000 morning (by decide)
  have hloop := history_loop (tableRead (ingestionCounts []) fun _ => false) 20000000 morning
  rw [if_neg (by decide +kernel), hok] at hloop
  cases hloop

end HtapStack.IngestionHistory
