import HtapStack.Lib.Rounding
import HtapStack.Producer.Loop
/-!
# The times in the event ids

The sending loop again, each operation on doubles rounded to the next of them. The
times of a batch are spread from the start of its turn over the period, so they are
ahead of the clock, and near its present readings two doubles are a quarter of a
microsecond apart.

`stamps_increase`: with a clock that never goes back and sleeps that are never cut
short (`Ticks`), and a step between the events that is a microsecond and what the
doubles lose (`Spaced`), the stamps of the ids strictly increase over a whole run, and
with them the history of every asset. `stamps_collide`: an event per microsecond is too
many. `sends_id`: with nothing rounded the loop is the exact one.

`uuid_from_time` of the Cassandra driver is a parameter: the microsecond that it
stamps on an id.
-/

namespace HtapStack.Producer
open Py Binary64

/-! ## The loop, rounded -/

namespace Rounded

section
variable (fl : ℚ → ℚ) (c : Config) (s : Loop) (t : Turn)

def share : ℚ := fl (fl t.live.eventsPerSec * c.periodS)

def batchN : Int := trunc (fl (s.owed + share fl c t))

def stampStepS : ℚ := fl (c.periodS / batchN fl c s t)

def batch : List Event :=
  (List.range (batchN fl c s t).toNat).map fun (k : Nat) =>
    ⟨(s.ptr + k) % fleetSize c t, fl (t.loopStart + fl (k * stampStepS fl c s t))⟩

def sentBy : List Event := if t.live.paused then [] else batch fl c s t

def settle : Loop :=
  let n := batchN fl c s t
  let s := { s with owed := fl (fl (s.owed + share fl c t) - n) }
  if 0 < n then { s with ptr := (s.ptr + n) % fleetSize c t, windowSent := s.windowSent + n } else s

def report : Loop :=
  if c.reportEveryS ≤ fl (t.now - s.lastReport) then
    { s with totalSent := s.totalSent + s.windowSent, windowSent := 0, lastReport := t.now }
  else s

def next : Loop := if t.live.paused then s else report fl c (settle fl c s t) t

end

def sends (fl : ℚ → ℚ) (c : Config) : Loop → List Turn → List Event
  | _, [] => []
  | s, t :: ts => sentBy fl c s t ++ sends fl c (next fl c s t) ts

theorem sends_id (c : Config) (s : Loop) (ts : List Turn) : sends id c s ts = Producer.sends c s ts := by
  induction ts generalizing s with
  | nil => rfl
  | cons t ts ih =>
    have hturn : sentBy id c s t = Producer.sentBy c s t := rfl
    have hnext : next id c s t = Producer.next c s t := rfl
    rw [sends, Producer.sends, hturn, hnext, ih]

end Rounded

/-- One microsecond, in seconds. -/
def tick : ℚ := 1 / 10 ^ 6

/-- Times between the epoch and 2106 that are a microsecond apart get stamps in their order. -/
def Resolves (micros : ℚ → Int) : Prop :=
  ∀ x y, 0 ≤ x → x + tick ≤ y → y ≤ 2 ^ 32 → micros x < micros y

section
variable (c : Config)

/-- The clock does not go back within the turn, and `sleep` does not return before its time. -/
def Turn.Timely (t : Turn) : Prop :=
  t.loopStart ≤ t.sent ∧
    if double (t.sent - t.loopStart) < c.periodS then
      t.sent + double (c.periodS - double (t.sent - t.loopStart)) ≤ t.now
    else t.sent ≤ t.now

/-- What the clock has reached when the turn is over: a paused turn only sleeps for the period. -/
def Turn.over (t : Turn) : ℚ := if t.live.paused then t.loopStart + c.periodS else t.now

/-- Nor does the clock go back between turns, and what it reads at their starts are doubles. -/
def Ticks : ℚ → List Turn → Prop
  | _, [] => True
  | now, t :: ts =>
    now ≤ t.loopStart ∧ double t.loopStart = t.loopStart ∧ (t.live.paused = false → t.Timely c) ∧
      Ticks (t.over c) ts

/-- No batch has more events than the period has microseconds. -/
def Fits : Loop → List Turn → Prop
  | _, [] => True
  | s, t :: ts =>
    (t.live.paused = false → (Rounded.batchN double c s t : ℚ) ≤ c.periodS * 10 ^ 6) ∧
      Fits (Rounded.next double c s t) ts

/-- A turn's events are a microsecond apart and what the sums lose: once the distance of the doubles at its end, and
some last digits of the period. It is over by 2106. -/
def Turn.Spaced (t : Turn) (n : Int) : Prop :=
  tick + unit (t.loopStart + c.periodS) + c.periodS / 2 ^ 50 ≤ c.periodS / n ∧ t.loopStart + c.periodS ≤ 2 ^ 32

/-- Every turn that sends anything is so. -/
def Spaced : Loop → List Turn → Prop
  | _, [] => True
  | s, t :: ts =>
    (t.live.paused = false → 0 < Rounded.batchN double c s t → t.Spaced c (Rounded.batchN double c s t)) ∧
      Spaced (Rounded.next double c s t) ts

end

/-- The second time is a microsecond after the first, or more. -/
def Apart (x y : ℚ) : Prop := x + tick ≤ y

def times (es : List Event) : List ℚ := es.map Event.time

variable {c : Config} {s : Loop} {t : Turn} {ts : List Turn} {now x : ℚ}

/-! ## One turn -/

theorem tick_pos : 0 < tick := by norm_num [tick]

theorem half_unit_le {q : ℚ} (h : tick ≤ q) : unit q / 2 ≤ q / 2 ^ 53 := by
  have hnormal : (2 : ℚ) ^ (-1022 : Int) ≤ q :=
    calc (2 : ℚ) ^ (-1022 : Int) ≤ 2 ^ (-20 : Int) := zpow_le_zpow_right₀ one_le_two (by decide)
      _ ≤ tick := by norm_num [tick]
      _ ≤ q := h
  have hunit := unit_le hnormal
  calc unit q / 2 ≤ q / 2 ^ 52 / 2 := div_le_div_of_nonneg_right hunit zero_le_two
    _ = q / 2 ^ 53 := by ring

/-- An unpaused turn takes the period, but for what the rounding takes off. -/
theorem Turn.Timely.period_le (h : t.Timely c) (hp : tick ≤ c.periodS) :
    t.loopStart + c.periodS - c.periodS / 2 ^ 51 ≤ t.now := by
  obtain ⟨hsent, hsleep⟩ := h
  have hpos := c.periodS_pos
  have helapsed : 0 ≤ t.sent - t.loopStart := sub_nonneg.2 hsent
  have htwice := half_unit_le (hp.trans (le_mul_of_one_le_left hpos.le one_le_two) : tick ≤ 2 * c.periodS)
  have honce := half_unit_le hp
  split at hsleep
  · next hshort =>
    -- Far less than twice the period has gone by.
    have hbound : t.sent - t.loopStart ≤ 2 * c.periodS := by
      by_contra hlong
      have hmono := double_mono (mul_nonneg zero_le_two hpos.le) (not_le.1 hlong).le
      have hnear := (abs_le.1 (double_near (mul_nonneg zero_le_two hpos.le) le_rfl)).1
      linarith
    have hnear := (abs_le.1 (double_near helapsed hbound)).2
    have hleft : 0 ≤ c.periodS - double (t.sent - t.loopStart) := sub_nonneg.2 hshort.le
    have hsleeps := (abs_le.1 (double_near hleft (sub_le_self _ (zero_le_double helapsed)))).1
    linarith
  · next hlong =>
    by_contra hearly
    have hbound : t.sent - t.loopStart ≤ c.periodS := by linarith
    have hnear := (abs_le.1 (double_near helapsed hbound)).2
    linarith

theorem start_le_over (h : t.live.paused = false → t.Timely c) : t.loopStart ≤ t.over c := by
  have hpos := c.periodS_pos
  unfold Turn.over
  split
  · linarith
  · next hpaused =>
    obtain ⟨hsent, hsleep⟩ := h (by simpa using hpaused)
    split at hsleep
    · next hshort =>
      have := zero_le_double (sub_nonneg.2 hshort.le)
      linarith
    · linarith

/-! ## One batch -/

section
variable {n : Int} (hn : 0 < n) (hspaced : t.Spaced c n)
include hn hspaced

theorem Turn.Spaced.tick_le : tick ≤ c.periodS / n ∧ tick ≤ c.periodS := by
  have hpos := c.periodS_pos
  have hunit := unit_pos (t.loopStart + c.periodS)
  have hstep : tick ≤ c.periodS / n := by
    have := hspaced.1
    have : 0 ≤ c.periodS / 2 ^ 50 := by positivity
    linarith
  have hone : (1 : ℚ) ≤ n := by exact_mod_cast hn
  exact ⟨hstep, hstep.trans (div_le_self hpos.le hone)⟩

/-- Of so many steps. -/
theorem Turn.Spaced.offset_near {k : Nat} (hk : (k : Int) ≤ n) :
    |double (k * double (c.periodS / n)) - k * (c.periodS / n)| ≤ c.periodS / 2 ^ 51 := by
  obtain ⟨hstep, hperiod⟩ := hspaced.tick_le hn
  have hpos := c.periodS_pos
  have hn' : (0 : ℚ) < n := by exact_mod_cast hn
  have hk' : (k : ℚ) ≤ n := by exact_mod_cast hk
  have hk0 : (0 : ℚ) ≤ k := k.cast_nonneg
  have hstep0 : 0 ≤ c.periodS / n := tick_pos.le.trans hstep
  have hall : k * (c.periodS / n) ≤ c.periodS := by
    calc k * (c.periodS / n) ≤ n * (c.periodS / n) := mul_le_mul_of_nonneg_right hk' hstep0
      _ = c.periodS := mul_div_cancel₀ _ hn'.ne'
  have hone : |double (c.periodS / n) - c.periodS / n| ≤ c.periodS / n / 2 ^ 53 :=
    (double_near hstep0 le_rfl).trans (half_unit_le hstep)
  have hmany : |k * double (c.periodS / n) - k * (c.periodS / n)| ≤ c.periodS / 2 ^ 53 := by
    rw [← mul_sub, abs_mul, abs_of_nonneg hk0]
    calc k * |double (c.periodS / n) - c.periodS / n| ≤ k * (c.periodS / n / 2 ^ 53) :=
          mul_le_mul_of_nonneg_left hone hk0
      _ = k * (c.periodS / n) / 2 ^ 53 := by ring
      _ ≤ c.periodS / 2 ^ 53 := div_le_div_of_nonneg_right hall (by norm_num)
  have htwice := half_unit_le (hperiod.trans (le_mul_of_one_le_left hpos.le one_le_two) : tick ≤ 2 * c.periodS)
  have hnear : |double (k * double (c.periodS / n)) - k * double (c.periodS / n)| ≤ 2 * c.periodS / 2 ^ 53 := by
    refine (double_near (mul_nonneg hk0 (zero_le_double hstep0)) ?_).trans htwice
    have := (abs_le.1 hmany).2
    linarith
  rw [abs_le] at hmany hnear ⊢
  constructor <;> linarith

/-- The time of an event. -/
theorem Turn.Spaced.time_near (hstart : 0 ≤ t.loopStart) {k : Nat} (hk : (k : Int) < n) :
    |double (t.loopStart + double (k * double (c.periodS / n))) - (t.loopStart + k * (c.periodS / n))| ≤
      c.periodS / 2 ^ 51 + unit (t.loopStart + c.periodS) / 2 := by
  obtain ⟨hstep, -⟩ := hspaced.tick_le hn
  have hpos := c.periodS_pos
  have hn' : (0 : ℚ) < n := by exact_mod_cast hn
  have hoffset := hspaced.offset_near hn hk.le
  have hk0 : (0 : ℚ) ≤ k := k.cast_nonneg
  have hstep0 : 0 ≤ c.periodS / n := tick_pos.le.trans hstep
  have hlast : (k : ℚ) + 1 ≤ n := by exact_mod_cast hk
  have hbefore : k * (c.periodS / n) + c.periodS / n ≤ c.periodS := by
    calc k * (c.periodS / n) + c.periodS / n = (k + 1) * (c.periodS / n) := by ring
      _ ≤ n * (c.periodS / n) := mul_le_mul_of_nonneg_right hlast hstep0
      _ = c.periodS := mul_div_cancel₀ _ hn'.ne'
  have hslack : c.periodS / 2 ^ 51 ≤ c.periodS / n := by
    have hspace := hspaced.1
    have hunit := unit_pos (t.loopStart + c.periodS)
    have htick := tick_pos
    linarith
  have hnear := double_near (q := t.loopStart + double (k * double (c.periodS / n)))
    (r := t.loopStart + c.periodS) (add_nonneg hstart (zero_le_double (mul_nonneg hk0 (zero_le_double hstep0)))) (by
      have := (abs_le.1 hoffset).2
      linarith)
  rw [abs_le] at hoffset hnear ⊢
  constructor <;> linarith

end

theorem mem_times (h : x ∈ times (Rounded.batch double c s t)) : 0 < Rounded.batchN double c s t ∧
    ∃ k : Nat, (k : Int) < Rounded.batchN double c s t ∧
      x = double (t.loopStart + double (k * double (c.periodS / Rounded.batchN double c s t))) := by
  rw [times, Rounded.batch, List.map_map] at h
  obtain ⟨k, hk, rfl⟩ := List.mem_map.1 h
  have hk : k < (Rounded.batchN double c s t).toNat := List.mem_range.1 hk
  exact ⟨by omega, k, by omega, rfl⟩

/-- A batch's times are not before the start of the turn. -/
theorem start_le_times (hstart : 0 ≤ t.loopStart) (hdouble : double t.loopStart = t.loopStart)
    (h : x ∈ times (Rounded.batch double c s t)) : t.loopStart ≤ x := by
  obtain ⟨hn, k, -, rfl⟩ := mem_times h
  have hn' : (0 : ℚ) < Rounded.batchN double c s t := by exact_mod_cast hn
  have hstep := zero_le_double (div_nonneg c.periodS_pos.le hn'.le)
  have hoffset := zero_le_double (mul_nonneg k.cast_nonneg hstep)
  calc t.loopStart = double t.loopStart := hdouble.symm
    _ ≤ _ := double_mono hstart (le_add_of_nonneg_right hoffset)

/-- They are a microsecond before the period is over, and some more. -/
theorem times_le (hstart : 0 ≤ t.loopStart) (h : x ∈ times (Rounded.batch double c s t))
    (hspaced : t.Spaced c (Rounded.batchN double c s t)) :
    x + tick ≤ t.loopStart + c.periodS - c.periodS / 2 ^ 51 := by
  obtain ⟨hn, k, hk, rfl⟩ := mem_times h
  have hn' : (0 : ℚ) < Rounded.batchN double c s t := by exact_mod_cast hn
  have hnear := (abs_le.1 (hspaced.time_near hn hstart hk)).2
  have hlast : (k : ℚ) + 1 ≤ Rounded.batchN double c s t := by exact_mod_cast hk
  have hstep : 0 ≤ c.periodS / Rounded.batchN double c s t := div_nonneg c.periodS_pos.le hn'.le
  have hbefore : k * (c.periodS / Rounded.batchN double c s t) + c.periodS / Rounded.batchN double c s t ≤
      c.periodS := by
    calc k * (c.periodS / Rounded.batchN double c s t) + c.periodS / Rounded.batchN double c s t
        = (k + 1) * (c.periodS / Rounded.batchN double c s t) := by ring
      _ ≤ Rounded.batchN double c s t * (c.periodS / Rounded.batchN double c s t) :=
        mul_le_mul_of_nonneg_right hlast hstep
      _ = c.periodS := mul_div_cancel₀ _ hn'.ne'
  have hspace := hspaced.1
  have hunit := unit_pos (t.loopStart + c.periodS)
  linarith

theorem times_batch_apart (hstart : 0 ≤ t.loopStart)
    (hspaced : 0 < Rounded.batchN double c s t → t.Spaced c (Rounded.batchN double c s t)) :
    (times (Rounded.batch double c s t)).Pairwise Apart := by
  rw [times, Rounded.batch, List.map_map, List.pairwise_map]
  refine List.pairwise_lt_range.imp_of_mem fun {k l} hk hl hkl => ?_
  rw [List.mem_range] at hk hl
  have hn : 0 < Rounded.batchN double c s t := by omega
  have hspaced := hspaced hn
  have hfirst := (abs_le.1 (hspaced.time_near hn hstart (by omega : (k : Int) < _))).2
  have hsecond := (abs_le.1 (hspaced.time_near hn hstart (by omega : (l : Int) < _))).1
  have hnext : (k : ℚ) + 1 ≤ l := by exact_mod_cast hkl
  have hstep : 0 ≤ c.periodS / Rounded.batchN double c s t := tick_pos.le.trans (hspaced.tick_le hn).1
  have happart : k * (c.periodS / Rounded.batchN double c s t) + c.periodS / Rounded.batchN double c s t ≤
      l * (c.periodS / Rounded.batchN double c s t) := by
    calc k * (c.periodS / Rounded.batchN double c s t) + c.periodS / Rounded.batchN double c s t
        = (k + 1) * (c.periodS / Rounded.batchN double c s t) := by ring
      _ ≤ l * (c.periodS / Rounded.batchN double c s t) := mul_le_mul_of_nonneg_right hnext hstep
  have hspace := hspaced.1
  change double (t.loopStart + double (k * double (c.periodS / Rounded.batchN double c s t))) + tick ≤
    double (t.loopStart + double (l * double (c.periodS / Rounded.batchN double c s t)))
  linarith

/-! ## A run -/

theorem times_sends_ge (hstart : 0 ≤ now) (hclock : Ticks c now ts)
    (h : x ∈ times (Rounded.sends double c s ts)) : now ≤ x := by
  induction ts generalizing s now with
  | nil => cases h
  | cons t ts ih =>
    obtain ⟨hnow, hdouble, htimely, hrest⟩ := hclock
    have hstart := hstart.trans hnow
    rw [Rounded.sends, times, List.map_append, List.mem_append] at h
    rcases h with h | h
    · unfold Rounded.sentBy at h
      split at h
      · cases h
      · exact hnow.trans (start_le_times hstart hdouble h)
    · have hover := start_le_over htimely
      exact (hnow.trans hover).trans (ih (hstart.trans hover) hrest h)

theorem times_sends_le (hstart : 0 ≤ now) (hclock : Ticks c now ts) (hspaced : Spaced c s ts)
    (h : x ∈ times (Rounded.sends double c s ts)) : x ≤ 2 ^ 32 := by
  induction ts generalizing s now with
  | nil => cases h
  | cons t ts ih =>
    obtain ⟨hnow, -, htimely, hrest⟩ := hclock
    obtain ⟨hspace, hspaced⟩ := hspaced
    have hstart := hstart.trans hnow
    rw [Rounded.sends, times, List.map_append, List.mem_append] at h
    rcases h with h | h
    · unfold Rounded.sentBy at h
      split at h
      · cases h
      · next hpaused =>
        have hspace := hspace (by simpa using hpaused) (mem_times h).1
        have hle := times_le hstart h hspace
        have htick := tick_pos
        have : 0 ≤ c.periodS / 2 ^ 51 := div_nonneg c.periodS_pos.le (by norm_num)
        have := hspace.2
        linarith
    · exact ih (hstart.trans (start_le_over htimely)) hrest hspaced h

/-- The last time of a batch is a microsecond before the next turn can start. -/
theorem times_sends_apart (hstart : 0 ≤ now) (hclock : Ticks c now ts) (hspaced : Spaced c s ts) :
    (times (Rounded.sends double c s ts)).Pairwise Apart := by
  induction ts generalizing s now with
  | nil => exact .nil
  | cons t ts ih =>
    obtain ⟨hnow, -, htimely, hrest⟩ := hclock
    obtain ⟨hspace, hspaced⟩ := hspaced
    have hstart := hstart.trans hnow
    have hover := start_le_over htimely
    rw [Rounded.sends, times, List.map_append, List.pairwise_append]
    refine ⟨?_, ih (hstart.trans hover) hrest hspaced, fun x hx y hy => ?_⟩
    · unfold Rounded.sentBy
      split
      · exact .nil
      · next hpaused => exact times_batch_apart hstart (hspace (by simpa using hpaused))
    · unfold Rounded.sentBy at hx
      split at hx
      · cases hx
      · next hpaused =>
        have hpaused : t.live.paused = false := by simpa using hpaused
        have hspace := hspace hpaused (mem_times hx).1
        have hle := times_le hstart hx hspace
        have hperiod := (htimely hpaused).period_le (hspace.tick_le (mem_times hx).1).2
        have hnext : t.over c = t.now := if_neg (by rw [hpaused]; exact Bool.false_ne_true)
        have hlater := times_sends_ge (hstart.trans hover) hrest hy
        change x + tick ≤ y
        linarith

/-- The stamps of all ids sent increase strictly, and so do those of each asset. -/
theorem stamps_increase (c : Config) (micros : ℚ → Int) (hmicros : Resolves micros) (start : ℚ) (hstart : 0 ≤ start)
    (ts : List Turn) (hclock : Ticks c start ts) (hspaced : Spaced c (.init start) ts) :
    ((Rounded.sends double c (.init start) ts).map fun e => micros e.time).Pairwise (· < ·) ∧
      ∀ i, (((Rounded.sends double c (.init start) ts).filter (·.asset = i)).map
        fun e => micros e.time).Pairwise (· < ·) := by
  have hall : (Rounded.sends double c (.init start) ts).Pairwise fun d e => micros d.time < micros e.time := by
    have hapart := List.pairwise_map.1 (times_sends_apart hstart hclock hspaced)
    refine hapart.imp_of_mem fun {d e} hd he hde => hmicros _ _ ?_ hde ?_
    · exact hstart.trans (times_sends_ge hstart hclock (List.mem_map_of_mem hd))
    · exact times_sends_le hstart hclock hspaced (List.mem_map_of_mem he)
  exact ⟨List.pairwise_map.2 hall, fun i => List.pairwise_map.2 (hall.filter _)⟩

/-! ## The driver's microseconds -/

/-- `int(time_arg * 1e6)`, for times from the epoch on. -/
def microseconds (x : ℚ) : Int := ⌊double (x * 10 ^ 6)⌋

/-- A microsecond more gives a stamp more, as long as products are told apart by halves. -/
theorem resolves_microseconds : Resolves microseconds := by
  intro x y hx hxy hy
  have hx' : 0 ≤ x * 10 ^ 6 := mul_nonneg hx (by norm_num)
  have hnext : 0 < x * 10 ^ 6 + 1 := add_pos_of_nonneg_of_pos hx' one_pos
  have hle : x * 10 ^ 6 + 1 ≤ y * 10 ^ 6 := by
    rw [tick] at hxy
    linarith
  have hbelow : x * 10 ^ 6 + 1 < 2 ^ 52 := by linarith
  obtain ⟨m, hm⟩ : ∃ m, microseconds x = m := ⟨_, rfl⟩
  have hfloor : (m : ℚ) ≤ double (x * 10 ^ 6) := hm ▸ Int.floor_le _
  have hnear := (abs_le.1 (double_near hx' (le_add_of_nonneg_right zero_le_one : _ ≤ x * 10 ^ 6 + 1))).2
  -- The stamp and one more is half a unit above the next microsecond at most, and so is its product.
  have hup : ((m + 1 : Int) : ℚ) ≤ rounded (x * 10 ^ 6 + 1) := by
    apply intCast_le_rounded hnext hbelow
    push_cast
    linear_combination hfloor + hnear
  rw [← double_of_nonneg hnext.le] at hup
  have hstamp : m + 1 ≤ microseconds y := Int.le_floor.2 (hup.trans (double_mono hnext.le hle))
  rw [hm]
  omega

/-- A demo of two assets with a period of a second, at two events a second. -/
def duo : Config := ⟨2, 1, 5, by decide, by decide +kernel⟩

def duoTurn (loopStart sent now : ℚ) : Turn := ⟨⟨2, 2, 5, false, by decide, by decide⟩, loopStart, sent, now⟩

/-- A turn that is on time and one that is late. -/
def duoTurns : List Turn := [duoTurn 100 (801 / 8) 101, duoTurn 101 103 103]

theorem stamps_increase_duo :
    ((Rounded.sends double duo (.init 100) duoTurns).map fun e => microseconds e.time).Pairwise (· < ·) := by
  refine (stamps_increase duo microseconds resolves_microseconds 100 (by norm_num) duoTurns ?_ ?_).1
  · simp only [duoTurns, Ticks, Turn.Timely, Turn.over]
    decide +kernel
  · simp only [duoTurns, Spaced, Turn.Spaced]
    decide +kernel

/-! ## Too many events -/

/-- A demo with a period of 50 ms, at 900,000 events a second. -/
def busy : Config := ⟨100, double (1 / 20), 5, by decide, by decide +kernel⟩

def busyTurn : Turn := ⟨⟨900000, 100, 5, false, by decide, by decide⟩, 1700000000, 1700000000, 1700000001⟩

theorem stamps_collide : ¬ ∀ (c : Config) (micros : ℚ → Int), Resolves micros → ∀ start, 0 ≤ start →
    ∀ ts, Ticks c start ts → Fits c (.init start) ts →
      ((Rounded.sends double c (.init start) ts).map fun e => micros e.time).Pairwise (· < ·) := by
  intro h
  have hsent := h busy microseconds resolves_microseconds 1700000000 (by norm_num) [busyTurn]
    (by simp only [Ticks, Turn.Timely]; decide +kernel) (by simp only [Fits]; decide +kernel)
  have hn : (Rounded.batchN double busy (.init 1700000000) busyTurn).toNat = 45000 := by decide +kernel
  have hsends : Rounded.sends double busy (.init 1700000000) [busyTurn] =
      Rounded.batch double busy (.init 1700000000) busyTurn := List.append_nil _
  rw [hsends, Rounded.batch, hn, List.map_map, List.pairwise_map] at hsent
  have hlt := List.pairwise_iff_getElem.1 hsent 16 17 (by simp) (by simp) (by decide)
  rw [List.getElem_range, List.getElem_range] at hlt
  exact absurd hlt (by decide +kernel)

end HtapStack.Producer
