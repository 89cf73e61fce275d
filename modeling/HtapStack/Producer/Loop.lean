import HtapStack.Lib.Cyclic
import HtapStack.Lib.PyRat
import HtapStack.Producer.LiveSettings
/-!
# The producer's sending loop

The `while True` of `main` in `ingress/producer/producer.py`, on exact numbers (on
doubles it is `Rounded`). A turn takes a snapshot of the live settings, works out
from the rate and the period how many events are due, sends that many round-robin
over the fleet, sleeps until the period is over and now and then reports. What comes
from outside, the settings and the readings of the clock, is in the `Turn`.

`pacing_conserves`: after every turn the events sent and the fraction carried over
are together what the unpaused turns were due.

Left out: what the fleet simulates for an asset, Kafka, and what is printed.
-/

namespace HtapStack.Producer
open Py

structure Config where
  maxEntities : Int
  periodS : ℚ
  reportEveryS : ℚ
  one_le_maxEntities : 1 ≤ maxEntities
  periodS_pos : 0 < periodS

/-- `max_entities` and `period_s` from the settings at the start and the environment. -/
def Config.ofEnv (live : Settings ℚ) (maxEntities batchPeriodMs : Int) (reportEveryS : ℚ) : Config where
  maxEntities := max live.nEntities maxEntities
  periodS := max 5 batchPeriodMs / 1000
  reportEveryS := reportEveryS
  one_le_maxEntities := le_max_of_le_left live.one_le_nEntities
  periodS_pos := by positivity

/-- The variables of `main` that a turn leaves to the next. -/
structure Loop where
  ptr : Int
  totalSent : Int
  windowSent : Int
  lastReport : ℚ
  owed : ℚ

def Loop.init (now : ℚ) : Loop := ⟨0, 0, 0, now, 0⟩

/-- The snapshot of a turn, and `time.time()` at its start, once its batch is sent and at its end. -/
structure Turn where
  live : Settings ℚ
  loopStart : ℚ
  sent : ℚ
  now : ℚ

/-- The asset an event is of, and the time that its id is made from. -/
structure Event where
  asset : Int
  time : ℚ
  deriving DecidableEq

section
variable (c : Config) (s : Loop) (t : Turn)

/-- `n_entities`, capped. -/
def fleetSize : Int := min t.live.nEntities c.maxEntities

/-- What is due in a turn by its rate. -/
def share : ℚ := t.live.eventsPerSec * c.periodS

def batchN : Int := trunc (s.owed + share c t)

/-- The events of an unpaused turn: the next assets of the ring, the times spread over the period. -/
def batch : List Event :=
  (List.range (batchN c s t).toNat).map fun (k : Nat) =>
    ⟨(s.ptr + k) % fleetSize c t, t.loopStart + k * (c.periodS / batchN c s t)⟩

def sentBy : List Event := if t.live.paused then [] else batch c s t

/-- `owed` is settled, and the cursor and the count move on if there is a batch. -/
def settle : Loop :=
  let n := batchN c s t
  let s := { s with owed := s.owed + share c t - n }
  if 0 < n then { s with ptr := (s.ptr + n) % fleetSize c t, windowSent := s.windowSent + n } else s

def report : Loop :=
  if c.reportEveryS ≤ t.now - s.lastReport then
    { s with totalSent := s.totalSent + s.windowSent, windowSent := 0, lastReport := t.now }
  else s

def next : Loop := if t.live.paused then s else report c (settle c s t) t

end

def run (c : Config) : Loop → List Turn → Loop := List.foldl (next c)

def sends (c : Config) : Loop → List Turn → List Event
  | _, [] => []
  | s, t :: ts => sentBy c s t ++ sends c (next c s t) ts

/-- The turns that are not paused. -/
def active (ts : List Turn) : List Turn := ts.filter (!·.live.paused)

variable {c : Config} {s : Loop} {t : Turn} {ts : List Turn}

/-! ## One turn -/

@[simp] theorem report_owed : (report c s t).owed = s.owed := by unfold report; split <;> rfl

@[simp] theorem report_ptr : (report c s t).ptr = s.ptr := by unfold report; split <;> rfl

/-- A report moves the count of its window to the total. -/
theorem report_count : (report c s t).totalSent + (report c s t).windowSent = s.totalSent + s.windowSent := by
  unfold report
  split
  · exact add_zero _
  · rfl

@[simp] theorem settle_owed : (settle c s t).owed = s.owed + share c t - batchN c s t := by
  unfold settle; dsimp only; split <;> rfl

@[simp] theorem length_batch : (batch c s t).length = (batchN c s t).toNat := by simp [batch]

theorem share_nonneg (c : Config) (t : Turn) : 0 ≤ share c t := by
  have hrate : (1 : ℚ) ≤ t.live.eventsPerSec := by exact_mod_cast t.live.one_le_eventsPerSec
  exact mul_nonneg (zero_le_one.trans hrate) c.periodS_pos.le

theorem fleetSize_pos (c : Config) (t : Turn) : 0 < fleetSize c t :=
  lt_min t.live.one_le_nEntities c.one_le_maxEntities

/-- What is carried over is a fraction of one event. -/
def Loop.Carries (s : Loop) : Prop := 0 ≤ s.owed ∧ s.owed < 1

theorem batchN_eq (hs : s.Carries) : batchN c s t = ⌊s.owed + share c t⌋ :=
  trunc_of_nonneg (add_nonneg hs.1 (share_nonneg c t))

theorem batchN_nonneg (hs : s.Carries) : 0 ≤ batchN c s t := by
  rw [batchN_eq hs]
  exact Int.floor_nonneg.2 (add_nonneg hs.1 (share_nonneg c t))

theorem settle_carries (hs : s.Carries) : (settle c s t).Carries := by
  rw [Loop.Carries, settle_owed, batchN_eq hs]
  exact ⟨Int.fract_nonneg _, Int.fract_lt_one _⟩

theorem settle_count (hs : s.Carries) :
    (settle c s t).totalSent + (settle c s t).windowSent = s.totalSent + s.windowSent + (batch c s t).length := by
  have hn := batchN_nonneg (c := c) (t := t) hs
  rw [length_batch, Int.toNat_of_nonneg hn]
  unfold settle
  dsimp only
  split
  · exact (add_assoc _ _ _).symm
  · rw [show batchN c s t = 0 by omega, add_zero]

theorem next_carries (hs : s.Carries) : (next c s t).Carries := by
  unfold next
  split
  · exact hs
  · rw [Loop.Carries, report_owed]
    exact settle_carries hs

/-- A turn sends what it is due, up to what it carries. -/
theorem next_conserves (hs : s.Carries) :
    (sentBy c s t).length + (next c s t).owed = s.owed + if t.live.paused then 0 else share c t := by
  unfold sentBy next
  split
  · simp
  · have hn : (((batchN c s t).toNat : Int) : ℚ) = batchN c s t := by rw [Int.toNat_of_nonneg (batchN_nonneg hs)]
    rw [report_owed, settle_owed, length_batch, ← Int.cast_natCast, hn]
    ring

theorem next_count (hs : s.Carries) :
    (next c s t).totalSent + (next c s t).windowSent = s.totalSent + s.windowSent + (sentBy c s t).length := by
  unfold sentBy next
  split
  · exact (add_zero _).symm
  · rw [report_count, settle_count hs]

/-! ## A run -/

theorem init_carries (now : ℚ) : (Loop.init now).Carries := ⟨le_rfl, zero_lt_one⟩

theorem run_carries (hs : s.Carries) : (run c s ts).Carries := by
  induction ts generalizing s with
  | nil => exact hs
  | cons t ts ih => exact ih (next_carries hs)

theorem run_conserves (hs : s.Carries) :
    (sends c s ts).length + (run c s ts).owed = s.owed + ((active ts).map (share c)).sum := by
  induction ts generalizing s with
  | nil => simp [sends, run, active]
  | cons t ts ih =>
    have hturn := next_conserves (c := c) (t := t) hs
    have hrest := ih (next_carries (c := c) (t := t) hs)
    have hsum : ((active (t :: ts)).map (share c)).sum =
        (if t.live.paused then 0 else share c t) + ((active ts).map (share c)).sum := by
      cases h : t.live.paused <;> simp [active, h]
    rw [sends, List.length_append, Nat.cast_add, hsum]
    have hrun : run c s (t :: ts) = run c (next c s t) ts := rfl
    rw [hrun]
    linarith

theorem run_count (hs : s.Carries) :
    (run c s ts).totalSent + (run c s ts).windowSent = s.totalSent + s.windowSent + (sends c s ts).length := by
  induction ts generalizing s with
  | nil => exact (add_zero _).symm
  | cons t ts ih =>
    have hrun : run c s (t :: ts) = run c (next c s t) ts := rfl
    rw [hrun, ih (next_carries hs), next_count hs, sends, List.length_append, Nat.cast_add, add_assoc]

/-- After every turn, what was sent and what is carried over are what the unpaused turns were due, a
fraction of one event is carried, and the counters of the report say what was sent. -/
theorem pacing_conserves (c : Config) (start : ℚ) (ts : List Turn) :
    (sends c (.init start) ts).length + (run c (.init start) ts).owed =
        ((active ts).map fun t => t.live.eventsPerSec * c.periodS).sum ∧
      0 ≤ (run c (.init start) ts).owed ∧ (run c (.init start) ts).owed < 1 ∧
      (run c (.init start) ts).totalSent + (run c (.init start) ts).windowSent =
        (sends c (.init start) ts).length := by
  have hcarries : (run c (.init start) ts).Carries := run_carries (init_carries start)
  refine ⟨?_, hcarries.1, hcarries.2, ?_⟩
  · exact (run_conserves (init_carries start)).trans (zero_add _)
  · exact (run_count (init_carries start)).trans (zero_add _)

end HtapStack.Producer
