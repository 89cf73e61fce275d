import HtapStack.Sink.Progress
import Mathlib.Tactic.Ring
/-!
# Settled windows

`get_window` of `backend/app/routes/query.py` names the newest closed window
that holds events, and reports whether the sink can still write into it.
`_sink_consumed_past` decides that from three broker answers, taken one after
another: the sink's committed offsets, the first offset stamped at or after the
window's end plus a margin, and the end offsets.

`settled_iff`: a window reported settled stays so, and gets no more rows,
exactly when every partition held a record stamped that late. A quiet partition
that is all consumed passes as well, while the next record on it may still
belong to the window.

Times are microseconds since the epoch, except Kafka's timestamps, which are
milliseconds. Left out: the wording of the evidence, and the two clients'
connections.
-/

namespace HtapStack.Window
open Runs Sink

/-- What the two services share: `EVENT_BUCKET_MINUTES`. -/
structure Settings where
  eventBucketMinutes : Int
  eventShards : Int

def minute : Int := 60 * 1000000

def hour : Int := 60 * minute

/-- `max(1, settings.event_bucket_minutes)`. -/
def Settings.minutes (s : Settings) : Int := max 1 s.eventBucketMinutes

/-- The instant the event bucket holding this moment began: within its hour, the
minute rounded down to a multiple of `minutes`. -/
def bucketStart (s : Settings) (moment : Int) : Int :=
  moment / hour * hour + moment % hour / minute / s.minutes * s.minutes * minute

/-- The end of the window that began at `start`, as `get_window` asks about it. -/
def windowEnd (s : Settings) (start : Int) : Int := start + s.minutes * minute

/-! ## The verdict -/

/-- `SETTLED_MARGIN_S`. -/
def settledMarginS : Nat := 60

/-- `target_ms`. -/
def targetMs (windowEnd : Int) : Int := (windowEnd + settledMarginS * 1000000) / 1000

/-- What Kafka answered. A partition that the group never committed on is
missing from `committed`, or has -1. -/
structure Answers where
  partitions : List Nat
  committed : Nat → Option Int
  firstBeyond : Nat → Option Nat
  ends : Nat → Option Nat

/-- The evidence beside the verdict. -/
inductive Detail where
  | noPartitions
  | noCommitted (partition : Nat)
  | noEndOffset (partition : Nat)
  | short (partitions : Nat) (records : Int) (worst : Nat × Int)
  | consumed (partitions : Nat)
  | kafka (error : String)
  | filling
  deriving DecidableEq, Repr

/-- The offset the sink must have reached on a partition. -/
def needed (a : Answers) (p : Nat) : Except Detail Int :=
  match a.firstBeyond p with
  | some o => .ok o
  | none =>
    match a.ends p with
    | some o => .ok o
    | none => .error (.noEndOffset p)

/-- The partitions that are short, with how many records, in order. -/
def shortOf (a : Answers) : List Nat → Except Detail (List (Nat × Int))
  | [] => .ok []
  | p :: ps =>
    match a.committed p with
    | none => .error (.noCommitted p)
    | some «at» =>
      if «at» < 0 then .error (.noCommitted p)
      else (needed a p).bind fun n => (shortOf a ps).map fun rest =>
        if «at» < n then (p, n - «at») :: rest else rest

/-- `max(short.items(), key=lambda item: item[1])`: the first of the largest. -/
def worstOf (short : List (Nat × Int)) : Nat × Int :=
  short.foldl (fun worst x => if worst.2 < x.2 then x else worst) (short.headD (0, 0))

/-- `_sink_consumed_past`, from Kafka's answers or the exception it raised. -/
def sinkConsumedPast : Except String Answers → Bool × Detail
  | .error e => (false, .kafka e)
  | .ok a =>
    if a.partitions = [] then (false, .noPartitions)
    else match shortOf a a.partitions with
      | .error d => (false, d)
      | .ok [] => (true, .consumed a.partitions.length)
      | .ok short => (false, .short short.length (short.map Prod.snd).sum (worstOf short))

/-! ## The window asked about -/

def windowLookback : Nat := 8

structure WindowReport where
  bucketMinutes : Int
  shards : Int
  current : Int
  bucket : Int
  closed : Bool
  settled : Bool
  settledDetail : Detail

/-- A bucket is given by the instant it began, which its spelling names. -/
def getWindow (s : Settings) (now : Int) (holdsEvents : Int → Bool) (consumedPast : Int → Bool × Detail) :
    WindowReport :=
  let candidates := (List.range windowLookback).map fun i : Nat =>
    bucketStart s (now - s.minutes * ((i : Int) + 1) * minute)
  match candidates.find? holdsEvents with
  | some start =>
    let verdict := consumedPast (windowEnd s start)
    ⟨s.minutes, s.eventShards, bucketStart s now, start, true, verdict.1, verdict.2⟩
  | none => ⟨s.minutes, s.eventShards, bucketStart s now, bucketStart s now, false, false, .filling⟩

/-! ## Buckets -/

theorem minutes_pos (s : Settings) : 0 < s.minutes := by
  unfold Settings.minutes
  omega

theorem windowEnd_bucketStart (s : Settings) (moment : Int) :
    windowEnd s (bucketStart s moment) = hour * (moment / hour) +
      (s.minutes * (moment % hour / minute / s.minutes) + s.minutes) * minute := by
  unfold windowEnd bucketStart
  ring

/-- A moment is before the end of its window. -/
theorem lt_windowEnd (s : Settings) (moment : Int) : moment < windowEnd s (bucketStart s moment) := by
  have h₁ := Int.mul_ediv_add_emod moment hour
  have h₂ := Int.mul_ediv_add_emod (moment % hour) minute
  have h₃ := Int.mul_ediv_add_emod (moment % hour / minute) s.minutes
  have h₄ := Int.emod_lt_of_pos (moment % hour) (show 0 < minute by decide)
  have h₅ := Int.emod_lt_of_pos (moment % hour / minute) (minutes_pos s)
  rw [windowEnd_bucketStart]
  -- The one product of two unknowns is generalised, and the rest is linear.
  have hmin : minute = 60000000 := rfl
  rw [hmin] at h₂ h₃ h₄ h₅ ⊢
  generalize s.minutes * (moment % hour / 60000000 / s.minutes) = floored at *
  omega

/-- A moment is not before the start of its bucket. -/
theorem bucketStart_le (s : Settings) (moment : Int) : bucketStart s moment ≤ moment := by
  have h₁ := Int.mul_ediv_add_emod moment hour
  have h₂ := Int.mul_ediv_add_emod (moment % hour) minute
  have h₃ := Int.ediv_mul_le (moment % hour / minute) (minutes_pos s).ne'
  have h₄ := Int.emod_nonneg (moment % hour) (show minute ≠ 0 by decide)
  unfold bucketStart
  generalize moment % hour / minute / s.minutes * s.minutes = floored at *
  simp only [hour, minute] at *
  omega

/-- A window ends on a whole minute, so its target is a whole millisecond. -/
theorem targetMs_windowEnd (s : Settings) (moment : Int) :
    targetMs (windowEnd s (bucketStart s moment)) * 1000 =
      windowEnd s (bucketStart s moment) + settledMarginS * 1000000 := by
  rw [windowEnd_bucketStart]
  generalize s.minutes * (moment % hour / minute / s.minutes) + s.minutes = floored
  simp only [targetMs, settledMarginS, hour, minute]
  omega

/-! ## A call against the world -/

/-- `offsets_for_times`: the first offset stamped at or after `target`. -/
def offsetForTime (log : List Record) (target : Int) : Option Nat :=
  log.findIdx? fun r => decide (target ≤ r.timestamp)

/-- The broker's answers to a call that reads the committed offsets in `w₁`, the
first offsets past the target in `w₂` and the end offsets in `w₃`. -/
def answers (cfg : Config) (windowEnd : Int) (w₁ w₂ w₃ : World) : Answers where
  partitions := List.range cfg.partitions
  committed p := (w₁.committed p).map Int.ofNat
  firstBeyond p := offsetForTime (w₂.log p) (targetMs windowEnd)
  ends p := some (w₃.log p).length

def settled (cfg : Config) (windowEnd : Int) (w₁ w₂ w₃ : World) : Bool :=
  (sinkConsumedPast (.ok (answers cfg windowEnd w₁ w₂ w₃))).1

/-- The offset the sink must have committed on partition `p`. -/
def goal (windowEnd : Int) (w₂ w₃ : World) (p : Nat) : Nat :=
  (offsetForTime (w₂.log p) (targetMs windowEnd)).getD (w₃.log p).length

theorem shortOf_eq_nil (cfg : Config) (e : Int) (w₁ w₂ w₃ : World) (ps : List Nat) :
    shortOf (answers cfg e w₁ w₂ w₃) ps = .ok [] ↔
      ∀ p ∈ ps, ∃ o, w₁.committed p = some o ∧ goal e w₂ w₃ p ≤ o := by
  induction ps with
  | nil => simp [shortOf]
  | cons p ps ih =>
    have hneeded : needed (answers cfg e w₁ w₂ w₃) p = .ok (goal e w₂ w₃ p : Int) := by
      unfold needed goal answers
      cases h : offsetForTime (w₂.log p) (targetMs e) <;> simp [h]
    rw [List.forall_mem_cons, ← ih, shortOf, hneeded]
    cases hc : w₁.committed p with
    | none => simp [answers, hc]
    | some o =>
      have h0 : ¬ (o : Int) < 0 := by omega
      simp only [answers, hc, Option.map_some, Int.ofNat_eq_natCast, if_neg h0, Except.bind]
      cases hs : shortOf (answers cfg e w₁ w₂ w₃) ps with
      | error d => simp [answers] at hs; simp [hs, Except.map]
      | ok rest =>
        simp only [answers] at hs
        simp only [hs, Except.map, Except.ok.injEq, Option.some.injEq, exists_eq_left']
        split
        · simp only [reduceCtorEq, false_iff]
          omega
        · refine ⟨fun h => ⟨by omega, h⟩, fun h => h.2⟩

theorem settled_iff_goal {cfg : Config} {e : Int} {w₁ w₂ w₃ : World} :
    settled cfg e w₁ w₂ w₃ = true ↔
      0 < cfg.partitions ∧ ∀ p < cfg.partitions, ∃ o, w₁.committed p = some o ∧ goal e w₂ w₃ p ≤ o := by
  have hnil : (answers cfg e w₁ w₂ w₃).partitions = [] ↔ ¬ 0 < cfg.partitions := by
    simp [answers]
  have hshort := shortOf_eq_nil cfg e w₁ w₂ w₃ (List.range cfg.partitions)
  simp only [List.mem_range] at hshort
  rw [← hshort]
  unfold settled sinkConsumedPast
  by_cases h0 : 0 < cfg.partitions
  · simp only [if_neg (hnil.not.2 (not_not.2 h0)), h0, true_and]
    rw [show (answers cfg e w₁ w₂ w₃).partitions = List.range cfg.partitions from rfl]
    cases shortOf (answers cfg e w₁ w₂ w₃) (List.range cfg.partitions) with
    | error d => simp
    | ok short => cases short <;> simp
  · simp [if_pos (hnil.2 h0), h0]

/-! ## First offsets past the target -/

theorem offsetForTime_none {log : List Record} {t : Int} :
    offsetForTime log t = none ↔ ∀ r ∈ log, r.timestamp < t := by
  simp [offsetForTime, List.findIdx?_eq_none_iff]

/-- Later records do not move it. -/
theorem offsetForTime_append {log log' : List Record} {t : Int} {n : Nat} (h : offsetForTime log t = some n)
    (hp : log <+: log') : offsetForTime log' t = some n := by
  obtain ⟨l, rfl⟩ := hp
  unfold offsetForTime at h ⊢
  rw [List.findIdx?_append, h]
  rfl

/-- In a partition that is stamped in order, everything from it on is that late. -/
theorem offsetForTime_le {log : List Record} {t : Int} {n o : Nat} {r : Record}
    (hs : log.Pairwise fun r r' => r.timestamp ≤ r'.timestamp) (h : offsetForTime log t = some n)
    (hno : n ≤ o) (hr : log[o]? = some r) : t ≤ r.timestamp := by
  obtain ⟨hn, hle, -⟩ := List.findIdx?_eq_some_iff_getElem.1 h
  obtain ⟨ho, rfl⟩ := List.getElem?_eq_some_iff.1 hr
  have hle : t ≤ log[n].timestamp := of_decide_eq_true hle
  rcases Nat.lt_or_eq_of_le hno with hlt | rfl
  · exact Int.le_trans hle (List.pairwise_iff_getElem.1 hs n o hn ho hlt)
  · exact hle

/-! ## Settled windows -/

/-- `SETTLED_MARGIN_S` in milliseconds. -/
def settledMarginMs : Nat := settledMarginS * 1000

/-- The insert of a record may still take effect: it was not acknowledged yet,
or a running sink has the record in its batch. -/
def MayInsert (w : World) (p o : Nat) : Prop :=
  (o < (w.log p).length ∧ w.acked p o .insertRaw = false) ∨
    ∃ c, w.consumer = some c ∧ c.phase.batch.has p o = true

/-- From `w` on, no insert lands in the window that began at `start`, and every
call about it reports it settled. -/
def StaysSettled (cfg : Config) (s : Settings) (start : Int) (w : World) : Prop :=
  (∀ w', Reach (step cfg) (Assumed cfg settledMarginMs) w w' → ∀ p < cfg.partitions, ∀ o r,
    (w'.log p)[o]? = some r → MayInsert w' p o → bucketStart s r.eventTime ≠ start) ∧
  ∀ w₁ w₂ w₃, Reach (step cfg) (Assumed cfg settledMarginMs) w w₁ →
    Reach (step cfg) (Assumed cfg settledMarginMs) w₁ w₂ →
    Reach (step cfg) (Assumed cfg settledMarginMs) w₂ w₃ → settled cfg (windowEnd s start) w₁ w₂ w₃ = true

section
variable {cfg : Config} {s : Settings} {start : Int} {w w₁ w₂ w₃ : World} {p n o : Nat}

/-- A record from the target's offset on is of a later window. -/
theorem bucketStart_ne (hw : Sane cfg settledMarginMs w)
    (hn : offsetForTime (w.log p) (targetMs (windowEnd s start)) = some n) (hno : n ≤ o) {r : Record}
    (hr : (w.log p)[o]? = some r) : bucketStart s r.eventTime ≠ start := by
  rintro rfl
  have hlate := offsetForTime_le (hw.sorted p) hn hno hr
  have hclose := hw.close p r (List.mem_of_getElem? hr)
  have htarget := targetMs_windowEnd s r.eventTime
  have hbefore := lt_windowEnd s r.eventTime
  unfold settledMarginMs at hclose
  unfold settledMarginS at hclose htarget
  omega

/-- An insert that may still take effect is of a record at or past every offset
committed. -/
theorem MayInsert.le (hw : Sane cfg settledMarginMs w) (h : MayInsert w p o) {at' : Nat}
    (hc : w.committed p = some at') : at' ≤ o := by
  rcases h with ⟨-, hack⟩ | ⟨c, hcc, hb⟩
  · by_contra hlt
    have := hw.delivered p at' hc o (by omega) .insertRaw
    rw [hack] at this
    cases this
  · have := (hw.inv c hcc).batch_le p o hb
    simpa [hc] using this

/-- If every partition held a record stamped past the target, the verdict lasts. -/
theorem staysSettled (h₁ : Sane cfg settledMarginMs w₁)
    (h₂ : Reach (step cfg) (Assumed cfg settledMarginMs) w₁ w₂)
    (h₃ : Reach (step cfg) (Assumed cfg settledMarginMs) w₂ w₃)
    (hs : settled cfg (windowEnd s start) w₁ w₂ w₃ = true)
    (hlate : ∀ p < cfg.partitions, ∃ r ∈ w₂.log p, targetMs (windowEnd s start) ≤ r.timestamp) :
    StaysSettled cfg s start w₃ := by
  obtain ⟨hpos, hgoal⟩ := settled_iff_goal.1 hs
  -- On each partition the target has an offset, and the sink had committed past it.
  have hfirst : ∀ p < cfg.partitions, ∃ n, offsetForTime (w₂.log p) (targetMs (windowEnd s start)) = some n ∧
      ∀ w', Reach (step cfg) (Assumed cfg settledMarginMs) w₃ w' →
        ∃ at', w'.committed p = some at' ∧ n ≤ at' := by
    intro p hp
    obtain ⟨r, hr, hle⟩ := hlate p hp
    obtain ⟨o, ho, hgo⟩ := hgoal p hp
    cases hn : offsetForTime (w₂.log p) (targetMs (windowEnd s start)) with
    | none =>
      have := offsetForTime_none.1 hn r hr
      omega
    | some n =>
      refine ⟨n, rfl, fun w' hw' => ?_⟩
      obtain ⟨at', hat', hle'⟩ := h₁.committed_mono ((h₂.trans h₃).trans hw') ho
      rw [goal, hn, Option.getD_some] at hgo
      exact ⟨at', hat', Nat.le_trans hgo hle'⟩
  constructor
  · intro w' hw' p hp o r hr hins
    obtain ⟨n, hn, hcommitted⟩ := hfirst p hp
    obtain ⟨at', hat', hle⟩ := hcommitted w' hw'
    have hsane := h₁.reach ((h₂.trans h₃).trans hw')
    exact bucketStart_ne hsane (offsetForTime_append hn (log_of_reach (h₃.trans hw') p))
      (Nat.le_trans hle (hins.le hsane hat')) hr
  · intro v₁ v₂ v₃ hv₁ hv₂ hv₃
    refine settled_iff_goal.2 ⟨hpos, fun p hp => ?_⟩
    obtain ⟨n, hn, hcommitted⟩ := hfirst p hp
    obtain ⟨at', hat', hle⟩ := hcommitted v₁ hv₁
    refine ⟨at', hat', ?_⟩
    rw [goal, offsetForTime_append hn (log_of_reach ((h₃.trans hv₁).trans hv₂) p)]
    exact hle

/-- A record may always be appended to a partition that holds none stamped past
the target, and the next call finds it unread. -/
theorem unsettled_of_quiet (h₁ : Sane cfg settledMarginMs w₁)
    (h₂ : Reach (step cfg) (Assumed cfg settledMarginMs) w₁ w₂)
    (h₃ : Reach (step cfg) (Assumed cfg settledMarginMs) w₂ w₃) {e : Int}
    (hs : settled cfg e w₁ w₂ w₃ = true) (hp : p < cfg.partitions)
    (hquiet : ∀ r ∈ w₂.log p, r.timestamp < targetMs e) :
    ∃ w₄, Reach (step cfg) (Assumed cfg settledMarginMs) w₃ w₄ ∧ settled cfg e w₄ w₄ w₄ = false := by
  have hsane₃ := h₁.reach (h₂.trans h₃)
  -- All of the partition was committed, so it did not grow during the call.
  have hlog : w₂.log p = w₃.log p := by
    obtain ⟨o, ho, hgo⟩ := (settled_iff_goal.1 hs).2 p hp
    rw [goal, offsetForTime_none.2 hquiet, Option.getD_none] at hgo
    have := h₁.inLog.committed_le p o ho
    have := (log_of_reach h₂ p).length_le
    exact (log_of_reach h₃ p).eq_of_length_le (by omega)
  rw [hlog] at hquiet
  -- Stamped just before the target: after all that is there, and not what the target looks for.
  obtain ⟨r, hts, hev⟩ : ∃ r : Record, r.timestamp = targetMs e - 1 ∧ r.eventTime = r.timestamp * 1000 :=
    ⟨⟨targetMs e - 1, (targetMs e - 1) * 1000⟩, rfl, rfl⟩
  have hstep : step cfg w₃ (.append p r) =
      some { w₃ with log := Function.update w₃.log p (w₃.log p ++ [r]) } := if_pos hp
  refine ⟨_, .single ⟨?_, ?_⟩ hstep, ?_⟩
  · refine ⟨fun r' hr' => ?_, by simp [hev]⟩
    have := hquiet r' hr'
    omega
  · intro w₄ hw₄
    cases hstep.symm.trans hw₄
    exact hsane₃.delivered
  · rw [Bool.eq_false_iff]
    intro hset
    obtain ⟨o, ho, hgo⟩ := (settled_iff_goal.1 hset).2 p hp
    have hle := hsane₃.inLog.committed_le p o ho
    rw [goal, offsetForTime_none.2] at hgo
    · simp only [Function.update_self, Option.getD_none, List.length_append, List.length_singleton] at hgo
      omega
    · simp only [Function.update_self, List.mem_append, List.mem_singleton]
      rintro r' (hr' | rfl)
      · exact hquiet r' hr'
      · omega

/-- A call that found a window settled is right about all that follows exactly
when every partition held a record stamped past the target. -/
theorem settled_iff (h₁ : Reach (step cfg) (Assumed cfg settledMarginMs) init w₁)
    (h₂ : Reach (step cfg) (Assumed cfg settledMarginMs) w₁ w₂)
    (h₃ : Reach (step cfg) (Assumed cfg settledMarginMs) w₂ w₃)
    (hs : settled cfg (windowEnd s start) w₁ w₂ w₃ = true) :
    StaysSettled cfg s start w₃ ↔
      ∀ p < cfg.partitions, ∃ r ∈ w₂.log p, targetMs (windowEnd s start) ≤ r.timestamp := by
  refine ⟨fun hstays p hp => ?_, staysSettled (sane_init.reach h₁) h₂ h₃ hs⟩
  by_contra hno
  obtain ⟨w₄, hw₄, hun⟩ := unsettled_of_quiet (sane_init.reach h₁) h₂ h₃ hs hp
    (fun r hr => by by_contra hlt; exact hno ⟨r, hr, by omega⟩)
  rw [hstays.2 w₄ w₄ w₄ hw₄ .refl .refl] at hun
  cases hun

end

/-- One partition: a record of the window that began at 0 and one stamped at its
target, both consumed. -/
def punctualRun : List Action :=
  [.append 0 ⟨1000, 1000000⟩, .append 0 ⟨960000, 960000000⟩, .start, .poll [(0, 2)],
    .collect fun _ _ _ => true, .commit]

theorem settled_iff_punctual : ∃ w, exec (step ⟨1, 2⟩) init punctualRun = some w ∧
    settled ⟨1, 2⟩ (windowEnd ⟨15, 16⟩ 0) w w w = true ∧
    (StaysSettled ⟨1, 2⟩ ⟨15, 16⟩ 0 w ↔
      ∀ p < 1, ∃ r ∈ w.log p, targetMs (windowEnd ⟨15, 16⟩ 0) ≤ r.timestamp) := by
  have hset : (exec (step ⟨1, 2⟩) init punctualRun).map
      (fun w => settled ⟨1, 2⟩ (windowEnd ⟨15, 16⟩ 0) w w w) = some true := by decide
  obtain ⟨w, hw, hs⟩ := Option.map_eq_some_iff.1 hset
  have hrun : Each (step ⟨1, 2⟩) (Assumed ⟨1, 2⟩ settledMarginMs) init punctualRun :=
    assumed_of_restarts (by decide) (by decide)
  exact ⟨w, hw, hs, settled_iff (hrun.reach hw) .refl .refl hs⟩

/-! ## A quiet partition -/

/-- One partition, one record of the window that began at 0, consumed. -/
def quietRun : List Action :=
  [.append 0 ⟨1000, 1000000⟩, .start, .poll [(0, 1)], .collect fun _ _ _ => true, .commit]

/-- Two seconds after the window's end, a record of its last second arrives, and
the sink has it in its batch. -/
def lateRun : List Action := [.count 0 true, .append 0 ⟨902000, 899500000⟩, .poll [(0, 1)]]

/-- After `quietRun` the window is reported settled. After `lateRun` it is
reported unsettled. -/
theorem quiet_partition_unsettles :
    ¬ ∀ w, Reach (step ⟨1, 1⟩) (Assumed ⟨1, 1⟩ settledMarginMs) init w →
      settled ⟨1, 1⟩ (windowEnd ⟨15, 16⟩ 0) w w w = true → StaysSettled ⟨1, 1⟩ ⟨15, 16⟩ 0 w := by
  intro hall
  have hset : (exec (step ⟨1, 1⟩) init quietRun).map
      (fun w => settled ⟨1, 1⟩ (windowEnd ⟨15, 16⟩ 0) w w w) = some true := by decide
  have hlate : (exec (step ⟨1, 1⟩) init (quietRun ++ lateRun)).map
      (fun w => settled ⟨1, 1⟩ (windowEnd ⟨15, 16⟩ 0) w w w) = some false := by decide
  have hrun : Each (step ⟨1, 1⟩) (Assumed ⟨1, 1⟩ settledMarginMs) init (quietRun ++ lateRun) :=
    assumed_of_restarts (by decide) (by decide)
  obtain ⟨w, hw, hs⟩ := Option.map_eq_some_iff.1 hset
  rw [exec_append hw] at hlate
  obtain ⟨w', hw', hl⟩ := Option.map_eq_some_iff.1 hlate
  have hquiet : Each (step ⟨1, 1⟩) (Assumed ⟨1, 1⟩ settledMarginMs) init quietRun :=
    assumed_of_restarts (by decide) (by decide)
  have hlasts := (hall w (hquiet.reach hw) hs).2 w' w' w' ((hrun.drop hw).reach hw') .refl .refl
  rw [hl] at hlasts
  cases hlasts

end HtapStack.Window
