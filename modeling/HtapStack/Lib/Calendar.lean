import Mathlib.Algebra.Order.Ring.Int
import Mathlib.Data.Char
import Mathlib.Data.List.Lex
import Mathlib.Tactic.IntervalCases
/-!
# Python's `datetime`

Dates of the proleptic Gregorian calendar, naive and aware datetimes, and the
part of their arithmetic and formatting that the programs here use.

- `ofOrdinal_ordinal`, `ordinal_ofOrdinal`: a date is its day number.
- `add_eq_ok`: adding a time span moves a datetime by exactly that span, or
  leaves the years 1 to 9999 and raises.
- `isoMinute_le`: spelled as `%Y-%m-%dT%H:%M`, datetimes sort as text the way
  they sort in time.
-/

namespace HtapStack.Calendar

/-- The exceptions of this arithmetic. -/
inductive Exn where
  | overflow
  | value
  | zeroDivision
  deriving DecidableEq, Repr

def minYear : Nat := 1

def maxYear : Nat := 9999

/-! ## Dates -/

def isLeap (y : Nat) : Bool := y % 4 == 0 && (y % 100 != 0 || y % 400 == 0)

/-- The extra day of a leap year. -/
def leapDay (y : Nat) : Nat := if isLeap y then 1 else 0

/-- The days of a year before its month `m`. -/
def daysBeforeMonth (y m : Nat) : Nat :=
  match m with
  | 0 | 1 => 0
  | 2 => 31
  | 3 => 59 + leapDay y
  | 4 => 90 + leapDay y
  | 5 => 120 + leapDay y
  | 6 => 151 + leapDay y
  | 7 => 181 + leapDay y
  | 8 => 212 + leapDay y
  | 9 => 243 + leapDay y
  | 10 => 273 + leapDay y
  | 11 => 304 + leapDay y
  | 12 => 334 + leapDay y
  | _ => 365 + leapDay y

def daysInMonth (y m : Nat) : Nat := daysBeforeMonth y (m + 1) - daysBeforeMonth y m

/-- The days before 1 January of year `y`. -/
def daysBeforeYear (y : Nat) : Nat := (y - 1) * 365 + (y - 1) / 4 - (y - 1) / 100 + (y - 1) / 400

@[ext]
structure Date where
  year : Nat
  month : Nat
  day : Nat
  year_ok : minYear ≤ year ∧ year ≤ maxYear
  month_ok : 1 ≤ month ∧ month ≤ 12
  day_ok : 1 ≤ day ∧ day ≤ daysInMonth year month
  deriving DecidableEq

/-- `date.toordinal()`: 1 January of year 1 is day 1. -/
def Date.ordinal (d : Date) : Nat := daysBeforeYear d.year + daysBeforeMonth d.year d.month + d.day

theorem leapDay_eq_one {y : Nat} (h : y % 4 = 0 ∧ (y % 100 ≠ 0 ∨ y % 400 = 0)) : leapDay y = 1 := by
  simpa [leapDay, isLeap, ← imp_iff_not_or] using h

theorem leapDay_le (y : Nat) : leapDay y ≤ 1 := by
  unfold leapDay
  split <;> omega

/-- How often `k` divides the years up to `y`. -/
theorem div_succ (y k : Nat) : (y + 1) / k = y / k + if (y + 1) % k = 0 then 1 else 0 := by
  simp only [Nat.succ_div, Nat.dvd_iff_mod_eq_zero]

theorem daysBeforeYear_succ {y : Nat} (h : 1 ≤ y) :
    daysBeforeYear (y + 1) = daysBeforeYear y + 365 + leapDay y := by
  obtain ⟨z, rfl⟩ : ∃ z, y = z + 1 := ⟨y - 1, by omega⟩
  simp only [daysBeforeYear, leapDay, isLeap, Nat.add_sub_cancel, div_succ z]
  -- Every hundredth year is a fourth one, and every four hundredth a hundredth.
  have h₁ : (z + 1) % 400 = 0 → (z + 1) % 100 = 0 := by omega
  have h₂ : (z + 1) % 100 = 0 → (z + 1) % 4 = 0 := by omega
  have h₃ : z / 100 ≤ z / 4 := Nat.div_le_div_left (by decide) (by decide)
  by_cases h4 : (z + 1) % 4 = 0 <;> by_cases h100 : (z + 1) % 100 = 0 <;>
    by_cases h400 : (z + 1) % 400 = 0 <;> simp [h4, h100, h400] at h₁ h₂ ⊢ <;> omega

theorem daysBeforeYear_mono {x y : Nat} (hx : 1 ≤ x) (h : x ≤ y) : daysBeforeYear x ≤ daysBeforeYear y := by
  induction y, h using Nat.le_induction with
  | base => exact le_rfl
  | succ y hxy ih =>
    have := daysBeforeYear_succ (y := y) (by omega)
    omega

/-- A month begins where the one before it ends. -/
theorem daysBeforeMonth_succ {m : Nat} (y : Nat) (h : 1 ≤ m ∧ m ≤ 12) :
    daysBeforeMonth y (m + 1) = daysBeforeMonth y m + daysInMonth y m := by
  have := leapDay_le y
  obtain ⟨h₁, h₂⟩ := h
  unfold daysInMonth
  interval_cases m <;> simp only [daysBeforeMonth] <;> omega

theorem daysBeforeMonth_mono {m n : Nat} (y : Nat) (hm : 1 ≤ m) (h : m ≤ n) (hn : n ≤ 13) :
    daysBeforeMonth y m ≤ daysBeforeMonth y n := by
  induction n, h using Nat.le_induction with
  | base => exact le_rfl
  | succ n hmn ih =>
    have := daysBeforeMonth_succ y (m := n) ⟨by omega, by omega⟩
    have := ih (by omega)
    omega

theorem daysBeforeMonth_end (y : Nat) : daysBeforeMonth y 13 = 365 + leapDay y := rfl

section
variable (d e : Date)

theorem Date.day_le_31 : d.day ≤ 31 := by
  have := leapDay_le d.year
  have hday := d.day_ok.2
  obtain ⟨h₁, h₂⟩ := d.month_ok
  generalize d.month = m at *
  interval_cases m <;> simp only [daysInMonth, daysBeforeMonth] at hday <;> omega

/-- A date lies in its month. -/
theorem Date.ordinal_month : daysBeforeYear d.year + daysBeforeMonth d.year d.month < d.ordinal ∧
    d.ordinal ≤ daysBeforeYear d.year + daysBeforeMonth d.year (d.month + 1) := by
  have := daysBeforeMonth_succ d.year d.month_ok
  have := d.day_ok
  unfold Date.ordinal
  omega

/-- A date lies in its year. -/
theorem Date.ordinal_year : daysBeforeYear d.year < d.ordinal ∧ d.ordinal ≤ daysBeforeYear (d.year + 1) := by
  have hmonth := d.ordinal_month
  have hlast := daysBeforeMonth_mono d.year (m := d.month + 1) (n := 13) (by omega)
    (by have := d.month_ok; omega) le_rfl
  rw [daysBeforeMonth_end] at hlast
  have := daysBeforeYear_succ d.year_ok.1
  omega

variable {d e}

/-! An earlier date is earlier in the first field where the two differ. -/

theorem Date.year_le (h : d.ordinal ≤ e.ordinal) : d.year ≤ e.year := by
  by_contra hlt
  have := daysBeforeYear_mono (x := e.year + 1) (y := d.year) (by omega) (by omega)
  have := d.ordinal_year
  have := e.ordinal_year
  omega

theorem Date.month_le (h : d.ordinal ≤ e.ordinal) (hy : d.year = e.year) : d.month ≤ e.month := by
  by_contra hlt
  have := daysBeforeMonth_mono e.year (m := e.month + 1) (n := d.month) (by omega) (by omega)
    (by have := d.month_ok; omega)
  have := d.ordinal_month
  have := e.ordinal_month
  rw [hy] at *
  omega

theorem Date.day_le (h : d.ordinal ≤ e.ordinal) (hy : d.year = e.year) (hm : d.month = e.month) :
    d.day ≤ e.day := by
  unfold Date.ordinal at h
  rw [hy, hm] at h
  omega

theorem Date.ordinal_inj (h : d.ordinal = e.ordinal) : d = e := by
  have hy := le_antisymm (Date.year_le h.le) (Date.year_le h.ge)
  have hm := le_antisymm (Date.month_le h.le hy) (Date.month_le h.ge hy.symm)
  exact Date.ext hy hm (le_antisymm (Date.day_le h.le hy hm) (Date.day_le h.ge hy.symm hm.symm))

end

/-! ## Dates from day numbers -/

/-- Year and day of the year, both from the days since 1 January of year 1: whole
spans of 400, 100, 4 and 1 years are taken off, and the last day of the longest
of them is left over. -/
def yearDay (n : Nat) : Nat × Nat :=
  let n400 := n / 146097
  let n100 := n % 146097 / 36524
  let n4 := n % 146097 % 36524 / 1461
  let n1 := n % 146097 % 36524 % 1461 / 365
  let year := n400 * 400 + n100 * 100 + n4 * 4 + n1 + 1
  if n1 = 4 ∨ n100 = 4 then (year - 1, 365) else (year, n % 146097 % 36524 % 1461 % 365)

/-- The month that holds a day of the year: an estimate, never too low. -/
def monthOf (y n : Nat) : Nat :=
  let month := (n + 50) / 32
  if n < daysBeforeMonth y month then month - 1 else month

theorem daysBeforeYear_split {a b c d : Nat} (hb : b ≤ 3) (hc : c ≤ 24) (hd : d ≤ 3) :
    daysBeforeYear (a * 400 + b * 100 + c * 4 + d + 1) = a * 146097 + b * 36524 + c * 1461 + d * 365 := by
  unfold daysBeforeYear
  have h4 : (a * 400 + b * 100 + c * 4 + d) / 4 = a * 100 + b * 25 + c := by omega
  have h100 : (a * 400 + b * 100 + c * 4 + d) / 100 = a * 4 + b := by omega
  have h400 : (a * 400 + b * 100 + c * 4 + d) / 400 = a := by omega
  rw [Nat.add_sub_cancel, h4, h100, h400]
  omega

theorem yearDay_spec (n : Nat) : 1 ≤ (yearDay n).1 ∧ daysBeforeYear (yearDay n).1 + (yearDay n).2 = n ∧
    (yearDay n).2 < 365 + leapDay (yearDay n).1 := by
  obtain ⟨a, ha⟩ : ∃ a, a = n / 146097 := ⟨_, rfl⟩
  obtain ⟨b, hb⟩ : ∃ b, b = n % 146097 / 36524 := ⟨_, rfl⟩
  obtain ⟨c, hc⟩ : ∃ c, c = n % 146097 % 36524 / 1461 := ⟨_, rfl⟩
  obtain ⟨d, hd⟩ : ∃ d, d = n % 146097 % 36524 % 1461 / 365 := ⟨_, rfl⟩
  simp only [yearDay, ← ha, ← hb, ← hc, ← hd]
  split
  · rename_i hend
    refine ⟨by omega, ?_⟩
    rcases hend with rfl | rfl
    · -- The last day of four years, whose last is a leap year.
      have hyear : a * 400 + b * 100 + c * 4 + 4 + 1 - 1 = a * 400 + b * 100 + c * 4 + 3 + 1 := by omega
      have hleap : leapDay (a * 400 + b * 100 + c * 4 + 3 + 1) = 1 :=
        leapDay_eq_one (by omega)
      rw [hyear, hleap, daysBeforeYear_split (by omega) (by omega) (by omega)]
      omega
    · -- The last day of four hundred years, likewise.
      have hyear : a * 400 + 4 * 100 + c * 4 + d + 1 - 1 = a * 400 + 3 * 100 + 24 * 4 + 3 + 1 := by omega
      have hleap : leapDay (a * 400 + 3 * 100 + 24 * 4 + 3 + 1) = 1 :=
        leapDay_eq_one (by omega)
      have hsplit := daysBeforeYear_split (a := a) (b := 3) (c := 24) (d := 3) (by decide) (by decide) (by decide)
      simp only [hyear, hleap, hsplit]
      omega
  · rw [daysBeforeYear_split (by omega) (by omega) (by omega)]
    omega

theorem monthOf_spec {y n : Nat} (h : n < 365 + leapDay y) : (1 ≤ monthOf y n ∧ monthOf y n ≤ 12) ∧
    daysBeforeMonth y (monthOf y n) ≤ n ∧ n < daysBeforeMonth y (monthOf y n + 1) := by
  have := leapDay_le y
  obtain ⟨m, hm⟩ : ∃ m, m = (n + 50) / 32 := ⟨_, rfl⟩
  have h₁ : 1 ≤ m := by omega
  have h₂ : m ≤ 12 := by omega
  simp only [monthOf, ← hm]
  interval_cases m <;> split <;> simp only [daysBeforeMonth] at * <;> omega

theorem daysInMonth_of {y n : Nat} (h : n < 365 + leapDay y) :
    n - daysBeforeMonth y (monthOf y n) + 1 ≤ daysInMonth y (monthOf y n) := by
  obtain ⟨hm, hle, hlt⟩ := monthOf_spec h
  rw [daysBeforeMonth_succ y hm] at hlt
  omega

/-- The day number of 31 December of the last year. -/
def maxOrdinal : Nat := daysBeforeYear (maxYear + 1)

/-- The date of a day number. -/
def ofOrdinal (n : Nat) (h : 1 ≤ n ∧ n ≤ maxOrdinal) : Date where
  year := (yearDay (n - 1)).1
  month := monthOf (yearDay (n - 1)).1 (yearDay (n - 1)).2
  day := (yearDay (n - 1)).2 - daysBeforeMonth (yearDay (n - 1)).1
    (monthOf (yearDay (n - 1)).1 (yearDay (n - 1)).2) + 1
  year_ok := by
    obtain ⟨hpos, hday, -⟩ := yearDay_spec (n - 1)
    refine ⟨hpos, ?_⟩
    by_contra hlt
    have := daysBeforeYear_mono (x := maxYear + 1) (y := (yearDay (n - 1)).1) (by decide) (by omega)
    have := h.2
    unfold maxOrdinal at this
    omega
  month_ok := (monthOf_spec (yearDay_spec (n - 1)).2.2).1
  day_ok := ⟨by omega, daysInMonth_of (yearDay_spec (n - 1)).2.2⟩

theorem ordinal_ofOrdinal {n : Nat} (h : 1 ≤ n ∧ n ≤ maxOrdinal) : (ofOrdinal n h).ordinal = n := by
  obtain ⟨-, hday, hlt⟩ := yearDay_spec (n - 1)
  have hmonth := (monthOf_spec hlt).2.1
  simp only [Date.ordinal, ofOrdinal]
  omega

theorem Date.ordinal_mem (d : Date) : 1 ≤ d.ordinal ∧ d.ordinal ≤ maxOrdinal := by
  have hyear := d.ordinal_year
  have := daysBeforeYear_mono (x := d.year + 1) (y := maxYear + 1) (by omega)
    (by have := d.year_ok; omega)
  unfold maxOrdinal
  omega

theorem ofOrdinal_ordinal (d : Date) : ofOrdinal d.ordinal d.ordinal_mem = d :=
  Date.ordinal_inj (ordinal_ofOrdinal d.ordinal_mem)

/-! ## Datetimes -/

/-- A day in microseconds. -/
def dayMicros : Int := 86400000000

/-- A `datetime` without a timezone. -/
@[ext]
structure Naive where
  date : Date
  hour : Nat
  minute : Nat
  second : Nat
  microsecond : Nat
  hour_ok : hour < 24
  minute_ok : minute < 60
  second_ok : second < 60
  microsecond_ok : microsecond < 1000000

/-- `datetime(year, month, ...)`. -/
def datetime (year month day hour minute second microsecond : Nat)
    (hdate : (minYear ≤ year ∧ year ≤ maxYear) ∧ (1 ≤ month ∧ month ≤ 12) ∧ 1 ≤ day ∧ day ≤ daysInMonth year month)
    (htime : hour < 24 ∧ minute < 60 ∧ second < 60 ∧ microsecond < 1000000) : Naive :=
  ⟨⟨year, month, day, hdate.1, hdate.2.1, hdate.2.2⟩, hour, minute, second, microsecond, htime.1, htime.2.1,
    htime.2.2.1, htime.2.2.2⟩

/-- The microseconds since the start of its day. -/
def Naive.time (t : Naive) : Nat := ((t.hour * 60 + t.minute) * 60 + t.second) * 1000000 + t.microsecond

/-- The microseconds since the start of day 0. -/
def Naive.micros (t : Naive) : Int := t.date.ordinal * dayMicros + t.time

/-- The result of an addition, from its microseconds. -/
def ofMicros (n : Int) : Except Exn Naive :=
  if h : 1 ≤ (n / dayMicros).toNat ∧ (n / dayMicros).toNat ≤ maxOrdinal then
    .ok {
      date := ofOrdinal (n / dayMicros).toNat h
      hour := (n % dayMicros).toNat / 3600000000
      minute := (n % dayMicros).toNat / 60000000 % 60
      second := (n % dayMicros).toNat / 1000000 % 60
      microsecond := (n % dayMicros).toNat % 1000000
      hour_ok := by
        have := Int.emod_lt_of_pos n (show 0 < dayMicros by decide)
        unfold dayMicros at *
        omega
      minute_ok := Nat.mod_lt _ (by decide)
      second_ok := Nat.mod_lt _ (by decide)
      microsecond_ok := Nat.mod_lt _ (by decide) }
  else .error .overflow

/-- `datetime + timedelta`, the span in microseconds. -/
def Naive.add (t : Naive) (span : Int) : Except Exn Naive := ofMicros (t.micros + span)

/-- An aware `datetime`: its fields and its `utcoffset()` in microseconds. -/
structure Aware where
  naive : Naive
  offset : Int
  offset_ok : -dayMicros < offset ∧ offset < dayMicros

theorem utc_offset : -dayMicros < 0 ∧ 0 < dayMicros := by decide

/-- The day number of 1 January 1970. -/
def epochOrdinal : Int := 719163

/-- The instant it stands for, in microseconds since the epoch. -/
def Aware.instant (t : Aware) : Int := t.naive.micros - t.offset - epochOrdinal * dayMicros

/-- `t.astimezone(timezone.utc)`. -/
def Aware.astimezoneUtc (t : Aware) : Except Exn Aware :=
  (t.naive.add (-t.offset)).map fun utc => ⟨utc, 0, utc_offset⟩

/-- `t.replace(minute=minute, second=0, microsecond=0)`. -/
def Aware.replaceMinute (t : Aware) (minute : Int) : Except Exn Aware :=
  if h : 0 ≤ minute ∧ minute < 60 then
    .ok { t with naive := { t.naive with
      minute := minute.toNat
      second := 0
      microsecond := 0
      minute_ok := by omega
      second_ok := by decide
      microsecond_ok := by decide } }
  else if -2147483648 ≤ minute ∧ minute < 2147483648 then .error .value
  else .error .overflow

/-- `a // b` on integers. -/
def floorDiv (a b : Int) : Except Exn Int := if b = 0 then .error .zeroDivision else .ok (a.fdiv b)

section
variable {t u : Naive} {n : Int}

theorem Naive.time_lt (t : Naive) : (t.time : Int) < dayMicros := by
  have := t.hour_ok
  have := t.minute_ok
  have := t.second_ok
  have := t.microsecond_ok
  unfold Naive.time dayMicros
  omega

theorem Naive.micros_div (t : Naive) : t.micros / dayMicros = t.date.ordinal := by
  have := t.time_lt
  unfold Naive.micros dayMicros at *
  omega

theorem Naive.micros_mod (t : Naive) : t.micros % dayMicros = t.time := by
  have := t.time_lt
  unfold Naive.micros dayMicros at *
  omega

/-- The microseconds that a datetime stands for, those of the years 1 to 9999. -/
def InYears (n : Int) : Prop := dayMicros ≤ n ∧ n < ((maxOrdinal : Int) + 1) * dayMicros

instance (n : Int) : Decidable (InYears n) := inferInstanceAs (Decidable (_ ∧ _))

theorem inYears_iff (n : Int) :
    InYears n ↔ 1 ≤ (n / dayMicros).toNat ∧ (n / dayMicros).toNat ≤ maxOrdinal := by
  unfold InYears dayMicros
  omega

theorem Naive.inYears (t : Naive) : InYears t.micros := by
  rw [inYears_iff, t.micros_div, Int.toNat_natCast]
  exact t.date.ordinal_mem

theorem ofMicros_eq_ok : ofMicros n = .ok t ↔ t.micros = n := by
  constructor
  · intro h
    unfold ofMicros at h
    split at h
    · rename_i hn
      cases h
      simp only [Naive.micros, Naive.time, ordinal_ofOrdinal]
      have := Int.emod_nonneg n (show dayMicros ≠ 0 by decide)
      unfold dayMicros at *
      omega
    · cases h
  · rintro rfl
    have hn := (inYears_iff _).1 t.inYears
    have h₁ := t.hour_ok
    have h₂ := t.minute_ok
    have h₃ := t.second_ok
    have h₄ := t.microsecond_ok
    unfold ofMicros
    rw [dif_pos hn]
    congr 1
    have htime : (t.micros % dayMicros).toNat = t.time := by simp [t.micros_mod]
    ext1
    · simp only [t.micros_div, Int.toNat_natCast, ofOrdinal_ordinal]
    all_goals
      simp only [htime]
      unfold Naive.time
      omega

theorem ofMicros_eq_error {e : Exn} : ofMicros n = .error e ↔ e = .overflow ∧ ¬ InYears n := by
  rw [inYears_iff]
  unfold ofMicros
  split <;> rename_i hn
  · simp [hn]
  · simp only [Except.error.injEq, hn, not_false_eq_true, and_true, eq_comm]

end

/-! ## Changing a datetime -/

section
variable {t u : Aware}

/-- The instant can be written in UTC. -/
def Aware.HasUtc (t : Aware) : Prop := InYears (t.instant + epochOrdinal * dayMicros)

instance (t : Aware) : Decidable t.HasUtc := inferInstanceAs (Decidable (InYears _))

theorem Aware.astimezoneUtc_eq_ok :
    t.astimezoneUtc = .ok u ↔ u.offset = 0 ∧ u.instant = t.instant := by
  unfold Aware.astimezoneUtc Naive.add Aware.instant
  cases h : ofMicros (t.naive.micros + -t.offset) with
  | error e =>
    simp only [Except.map, reduceCtorEq, false_iff, not_and]
    intro h0 heq
    have hu : u.naive.micros = t.naive.micros + -t.offset := by omega
    rw [← hu, ofMicros_eq_ok.2 rfl] at h
    cases h
  | ok utc =>
    have hutc := ofMicros_eq_ok.1 h
    simp only [Except.map, Except.ok.injEq]
    constructor
    · rintro rfl
      exact ⟨rfl, by simp only [hutc]; omega⟩
    · rintro ⟨h0, heq⟩
      have hnaive : u.naive = utc := by
        have hu : u.naive.micros = t.naive.micros + -t.offset := by omega
        exact Except.ok.inj ((ofMicros_eq_ok.2 hu).symm.trans h)
      obtain ⟨naive, offset, hoff⟩ := u
      cases h0
      cases hnaive
      rfl

theorem Aware.astimezoneUtc_eq_error {e : Exn} :
    t.astimezoneUtc = .error e ↔ e = .overflow ∧ ¬ t.HasUtc := by
  have hmicros : t.instant + epochOrdinal * dayMicros = t.naive.micros + -t.offset := by
    unfold Aware.instant
    omega
  unfold Aware.astimezoneUtc Naive.add Aware.HasUtc
  rw [hmicros, ← ofMicros_eq_error]
  cases ofMicros (t.naive.micros + -t.offset) <;> simp [Except.map]

/-- Only the time within the hour changes. -/
theorem Aware.replaceMinute_eq_ok {minute : Int} (h : 0 ≤ minute ∧ minute < 60) :
    ∃ u, t.replaceMinute minute = .ok u ∧ u.naive.date = t.naive.date ∧ u.naive.hour = t.naive.hour ∧
      u.naive.second = 0 ∧ u.naive.microsecond = 0 ∧ u.offset = t.offset ∧
      u.instant = t.instant - ((t.naive.minute * 60 + t.naive.second) * 1000000 + t.naive.microsecond) +
        minute * 60000000 := by
  refine ⟨_, dif_pos h, rfl, rfl, rfl, rfl, rfl, ?_⟩
  simp only [Aware.instant, Naive.micros, Naive.time]
  omega

end

/-! ## Formatting -/

/-- A number as `k` decimal digits. -/
def pad : Nat → Nat → List Char
  | 0, _ => []
  | k + 1, n => pad k (n / 10) ++ [Nat.digitChar (n % 10)]

/-- `strftime("%Y-%m-%dT%H:%M")`. -/
def Naive.isoMinute (t : Naive) : List Char :=
  pad 4 t.date.year ++ '-' :: (pad 2 t.date.month ++ '-' :: (pad 2 t.date.day ++ 'T' ::
    (pad 2 t.hour ++ ':' :: pad 2 t.minute)))

/-- `strftime("%Y-%m-%dT%H")`. -/
def Naive.isoHour (t : Naive) : List Char :=
  pad 4 t.date.year ++ '-' :: (pad 2 t.date.month ++ '-' :: (pad 2 t.date.day ++ 'T' :: pad 2 t.hour))

theorem digitChar_lt {a b : Nat} (h : a < b) (hb : b < 10) : Nat.digitChar a < Nat.digitChar b := by
  interval_cases b <;> interval_cases a <;> decide

/-- A smaller number comes first, whatever follows it. -/
theorem pad_lt {k a b : Nat} (h : a < b) (hb : b < 10 ^ k) (s t : List Char) :
    pad k a ++ s < pad k b ++ t := by
  induction k generalizing a b s t with
  | zero => omega
  | succ k ih =>
    simp only [pad, List.append_assoc]
    rcases Nat.lt_or_eq_of_le (Nat.div_le_div_right (c := 10) h.le) with hlt | heq
    · exact ih hlt (by omega) _ _
    · rw [heq]
      exact List.append_left_lt (List.cons_lt_cons_iff.2 (.inl (digitChar_lt (by omega) (by omega))))

theorem pad_inj {k a b : Nat} (ha : a < 10 ^ k) (hb : b < 10 ^ k) (h : pad k a = pad k b) : a = b := by
  rcases Nat.lt_trichotomy a b with hlt | heq | hlt
  · exact absurd (pad_lt hlt hb [] []) (by simp [h])
  · exact heq
  · exact absurd (pad_lt hlt ha [] []) (by simp [h])

@[simp] theorem length_pad (k n : Nat) : (pad k n).length = k := by
  induction k generalizing n with
  | zero => rfl
  | succ k ih => simp [pad, ih]

theorem append_le (x : List Char) {s t : List Char} (h : s ≤ t) : x ++ s ≤ x ++ t := by
  induction x with
  | nil => exact h
  | cons c x ih => exact List.cons_le_cons c ih

/-- Fields compare one after the other. -/
theorem pad_append_le {k a b : Nat} {s t : List Char} (h : a ≤ b) (hb : b < 10 ^ k)
    (hrest : a = b → s ≤ t) : pad k a ++ s ≤ pad k b ++ t := by
  rcases Nat.lt_or_eq_of_le h with hlt | rfl
  · exact le_of_lt (pad_lt hlt hb s t)
  · exact append_le _ (hrest rfl)

section
variable {t u : Naive}

/-- An earlier datetime is spelled no later. -/
theorem Naive.isoMinute_le (h : t.micros ≤ u.micros) : t.isoMinute ≤ u.isoMinute := by
  have hday : t.date.ordinal ≤ u.date.ordinal := by
    have := u.time_lt
    unfold Naive.micros dayMicros at *
    omega
  have htime (hd : t.date = u.date) : t.time ≤ u.time := by
    unfold Naive.micros at h
    rw [hd] at h
    omega
  have := t.minute_ok
  have := t.second_ok
  have := t.microsecond_ok
  have := u.minute_ok
  have := u.second_ok
  have := u.microsecond_ok
  -- Field by field: each is decided by the fields before it, all equal so far.
  refine pad_append_le (Date.year_le hday) (by have := u.date.year_ok.2; unfold maxYear at this; omega)
    fun hy => List.cons_le_cons _ (pad_append_le (Date.month_le hday hy) (by have := u.date.month_ok.2; omega)
    fun hm => List.cons_le_cons _ (pad_append_le (Date.day_le hday hy hm) (by have := u.date.day_le_31; omega)
    fun hd => List.cons_le_cons _ (pad_append_le ?_ (by have := u.hour_ok; omega)
    fun hh => List.cons_le_cons _ ?_)))
  all_goals
    have htime := htime (Date.ext hy hm hd)
    unfold Naive.time at htime
  · omega
  · simpa using pad_append_le (k := 2) (s := []) (t := []) (by omega) (by omega) fun _ => le_refl _

/-- Hours that are spelled alike are the same. -/
theorem Naive.isoHour_inj (h : t.isoHour = u.isoHour) : t.date = u.date ∧ t.hour = u.hour := by
  unfold Naive.isoHour at h
  obtain ⟨hy, h⟩ := List.append_inj h (by simp)
  obtain ⟨hm, h⟩ := List.append_inj (List.cons.inj h).2 (by simp)
  obtain ⟨hd, h⟩ := List.append_inj (List.cons.inj h).2 (by simp)
  have hhour := (List.cons.inj h).2
  refine ⟨Date.ext ?_ ?_ ?_, pad_inj (by have := t.hour_ok; omega) (by have := u.hour_ok; omega) hhour⟩
  · exact pad_inj (by have := t.date.year_ok.2; unfold maxYear at this; omega)
      (by have := u.date.year_ok.2; unfold maxYear at this; omega) hy
  · exact pad_inj (by have := t.date.month_ok; omega) (by have := u.date.month_ok; omega) hm
  · exact pad_inj (by have := t.date.day_le_31; omega) (by have := u.date.day_le_31; omega) hd

/-- An hour in microseconds. -/
def hourMicros : Int := 3600000000

/-- The hours since the start of day 0. -/
theorem Naive.micros_div_hour (t : Naive) : t.micros / hourMicros = t.date.ordinal * 24 + t.hour := by
  have := t.minute_ok
  have := t.second_ok
  have := t.microsecond_ok
  unfold Naive.micros Naive.time dayMicros hourMicros
  omega

theorem Naive.isoHour_eq_iff : t.isoHour = u.isoHour ↔ t.micros / hourMicros = u.micros / hourMicros := by
  rw [t.micros_div_hour, u.micros_div_hour]
  constructor
  · intro h
    obtain ⟨hdate, hhour⟩ := Naive.isoHour_inj h
    rw [hdate, hhour]
  · intro h
    have ht := t.hour_ok
    have hu := u.hour_ok
    have hdate : t.date = u.date := Date.ordinal_inj (by omega)
    have hhour : t.hour = u.hour := by omega
    rw [Naive.isoHour, Naive.isoHour, hdate, hhour]

end

end HtapStack.Calendar
