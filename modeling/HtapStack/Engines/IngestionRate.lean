import HtapStack.Lib.PyRat
import HtapStack.Lib.Runs
/-!
# The ingestion rate

`get_total_events` and `observe_ingestion_rate` of `CassandraClient` in
`backend/app/db/cassandra_client.py`, on exact numbers: the rate is the change of
the ingest counter since the observation before, over the time between them. A
counter that cannot be read counts as 0, and that 0 is an observation like any
other.

- `rate_backed`: as long as no read is differenced from the 0 of a read that
  failed on a counter that was not 0, every rate reported is an increase between
  two polls over the time between them, up to the rounding. It is never negative.
- `rate_after_failure`: else the whole counter counts as the increase.
-/

namespace HtapStack.Cassandra
open Py Runs

/-- The rows of `ingestion_counts`, or none if they could not be read. -/
abbrev Read := Option (List (Option Nat))

def getTotalEvents (rows : Read) : Nat :=
  match rows with
  | some counts => (counts.map (·.getD 0)).sum
  | none => 0

/-- `RATE_MIN_INTERVAL_S`. -/
def rateMinIntervalS : ℚ := 2

structure Observer where
  rateSample : Option (ℚ × Nat)
  lastRate : ℚ

def Observer.init : Observer := ⟨none, 0⟩

/-- The division is exact. A quotient halfway between two tenths goes to the even one here, and in the code where
its double lies: one event in 20 s makes 0 here and 0.1 there. -/
def observeIngestionRate (o : Observer) (now : ℚ) (totalEvents : Nat) : ℚ × Observer :=
  match o.rateSample with
  | none => (0, { o with rateSample := some (now, totalEvents) })
  | some (since, before) =>
    if now - since < rateMinIntervalS then (o.lastRate, o)
    else
      let delta : Int := totalEvents - before
      let rate := if delta < 0 then 0 else round1 (delta / (now - since))
      (rate, ⟨some (now, totalEvents), rate⟩)

/-! ## Polls -/

/-- A poll of the KPIs: its time, the counter as it is then, and what reading it gives. -/
structure Poll where
  time : ℚ
  counter : Nat
  read : Read
  read_counter : ∀ counts, read = some counts → (counts.map (·.getD 0)).sum = counter

/-- `sampled` is the poll that `rateSample` is from, and `rate` is what the last poll reported. -/
structure State where
  observer : Observer
  polls : List Poll
  sampled : Option Poll
  rate : Option ℚ

def State.init : State := ⟨.init, [], none, none⟩

/-- The poll is not before the ones so far, and the counter has not fallen. -/
def State.Accepts (s : State) (p : Poll) : Prop := ∀ q ∈ s.polls, q.time < p.time ∧ q.counter ≤ p.counter

instance (s : State) (p : Poll) : Decidable (s.Accepts p) := inferInstanceAs (Decidable (∀ q ∈ s.polls, _ ∧ _))

/-- There is no observation to difference from yet, or it is old enough. -/
def State.due (s : State) (p : Poll) : Bool :=
  match s.observer.rateSample with
  | none => true
  | some (since, _) => !decide (p.time - since < rateMinIntervalS)

def step (s : State) (p : Poll) : Option State :=
  if s.Accepts p then
    let (rate, observer) := observeIngestionRate s.observer p.time (getTotalEvents p.read)
    some ⟨observer, p :: s.polls, if s.due p then some p else s.sampled, some rate⟩
  else none

/-- A rate is an increase of the counter between two polls over the time between them, or less. -/
def Backed (polls : List Poll) (rate : ℚ) : Prop :=
  rate = 0 ∨ ∃ p ∈ polls, ∃ q ∈ polls, q.time < p.time ∧
    rate ≤ ((p.counter : ℚ) - q.counter) / (p.time - q.time) + 1 / 20

/-- The rate last reported does not overstate. -/
def Fair (s : State) : Prop := ∀ rate ∈ s.rate, Backed s.polls rate

def NonNegative (s : State) : Prop := ∀ rate ∈ s.rate, 0 ≤ rate

/-- The observation to difference from is not the 0 of a read that failed on a counter that was not 0, or
this poll does not difference a counter that it has read from it. -/
def Sound (s : State) (p : Poll) : Prop :=
  ∀ q ∈ s.sampled, q.read = none → 0 < q.counter → p.read.isSome → p.time - q.time < rateMinIntervalS

variable {s t : State} {p q : Poll} {rate : ℚ}

theorem total_of_read (h : p.read.isSome) : getTotalEvents p.read = p.counter := by
  obtain ⟨counts, hcounts⟩ := Option.isSome_iff_exists.1 h
  rw [hcounts]
  exact p.read_counter counts hcounts

theorem Backed.cons (h : Backed s.polls rate) (p : Poll) : Backed (p :: s.polls) rate := by
  rcases h with h | ⟨a, ha, b, hb, h⟩
  · exact .inl h
  · exact .inr ⟨a, List.mem_cons_of_mem _ ha, b, List.mem_cons_of_mem _ hb, h⟩

/-! ## One poll -/

/-- The observation is what the poll it is from has read. -/
structure Inv (s : State) : Prop where
  sampled : s.observer.rateSample = s.sampled.map fun q => (q.time, getTotalEvents q.read)
  mem : ∀ q ∈ s.sampled, q ∈ s.polls
  nonneg : 0 ≤ s.observer.lastRate

/-- The rate of a poll that is differenced from another's observation. -/
def differenced (p q : Poll) : ℚ :=
  let delta : Int := getTotalEvents p.read - getTotalEvents q.read
  if delta < 0 then 0 else round1 (delta / (p.time - q.time))

/-- What a poll does: it is the first, or it is too soon, or its counter is differenced. -/
theorem step_cases (hs : Inv s) (h : step s p = some t) : s.Accepts p ∧
    (s.sampled = none ∧
      t = ⟨⟨some (p.time, getTotalEvents p.read), s.observer.lastRate⟩, p :: s.polls, some p, some 0⟩ ∨
    (∃ q, s.sampled = some q ∧ p.time - q.time < rateMinIntervalS ∧
      t = ⟨s.observer, p :: s.polls, some q, some s.observer.lastRate⟩) ∨
    ∃ q, s.sampled = some q ∧ rateMinIntervalS ≤ p.time - q.time ∧
      t = ⟨⟨some (p.time, getTotalEvents p.read), differenced p q⟩, p :: s.polls, some p, some (differenced p q)⟩) := by
  unfold step at h
  split at h
  · next haccepts =>
    refine ⟨haccepts, ?_⟩
    have hsample := hs.sampled
    simp only [observeIngestionRate, State.due] at h
    cases hq : s.sampled with
    | none =>
      rw [hq, Option.map_none] at hsample
      simp only [hsample] at h
      exact .inl ⟨rfl, (Option.some.inj h).symm⟩
    | some q =>
      rw [hq, Option.map_some] at hsample
      simp only [hsample] at h
      by_cases hsoon : p.time - q.time < rateMinIntervalS
      · simp only [hsoon, if_true, decide_true, Bool.not_true, Bool.false_eq_true, if_false, hq] at h
        exact .inr (.inl ⟨q, rfl, hsoon, (Option.some.inj h).symm⟩)
      · simp only [hsoon, if_false, decide_false, Bool.not_false, if_true] at h
        exact .inr (.inr ⟨q, rfl, not_lt.1 hsoon, (Option.some.inj h).symm⟩)
  · cases h

theorem differenced_nonneg (h : q.time ≤ p.time) : 0 ≤ differenced p q := by
  unfold differenced
  dsimp only
  split
  · exact le_rfl
  · next hdelta =>
    have hpos : (0 : ℚ) ≤ ((getTotalEvents p.read : Int) - getTotalEvents q.read : Int) := by
      exact_mod_cast not_lt.1 hdelta
    exact round1_nonneg (div_nonneg hpos (sub_nonneg.2 h))

/-- It is backed by the two polls unless the counter was read in the later one and could not be in the other. -/
theorem differenced_backed {polls : List Poll} (hp : p ∈ polls) (hq : q ∈ polls) (hlt : q.time < p.time)
    (h : getTotalEvents p.read ≤ getTotalEvents q.read ∨
      p.counter - (q.counter : Int) = getTotalEvents p.read - getTotalEvents q.read) :
    Backed polls (differenced p q) := by
  unfold differenced
  dsimp only
  split
  · exact .inl rfl
  · next hdelta =>
    rcases h with hle | heq
    · have hzero : (getTotalEvents p.read : Int) - getTotalEvents q.read = 0 := by omega
      rw [hzero]
      exact .inl (by norm_num [round1, Py.round])
    · rw [← heq]
      refine .inr ⟨p, hp, q, hq, hlt, ?_⟩
      have hnear := abs_le.1 (round1_near ((p.counter - (q.counter : Int) : Int) / (p.time - q.time)))
      push_cast at hnear ⊢
      linarith

theorem Inv.step (hs : Inv s) (h : step s p = some t) : Inv t ∧ NonNegative t := by
  obtain ⟨haccepts, hfirst | hsoon | hdue⟩ := step_cases hs h
  · obtain ⟨-, rfl⟩ := hfirst
    exact ⟨⟨rfl, by simp, hs.nonneg⟩, by simp [NonNegative]⟩
  · obtain ⟨q, hq, -, rfl⟩ := hsoon
    refine ⟨⟨hq ▸ hs.sampled, fun r hr => ?_, hs.nonneg⟩, by simpa [NonNegative] using hs.nonneg⟩
    exact List.mem_cons_of_mem _ (hs.mem r (hq ▸ hr))
  · obtain ⟨q, hq, -, rfl⟩ := hdue
    have hnonneg : 0 ≤ differenced p q := differenced_nonneg (haccepts q (hs.mem q hq)).1.le
    exact ⟨⟨rfl, by simp, hnonneg⟩, by simpa [NonNegative] using hnonneg⟩

/-- What a sound poll reports, and keeps, is backed. -/
theorem backed_step (hs : Inv s) (hlast : Backed s.polls s.observer.lastRate) (hsound : Sound s p)
    (h : step s p = some t) : Backed t.polls t.observer.lastRate ∧ Fair t := by
  obtain ⟨haccepts, hfirst | hsoon | hdue⟩ := step_cases hs h
  · obtain ⟨-, rfl⟩ := hfirst
    refine ⟨hlast.cons p, ?_⟩
    rintro rate ⟨⟩
    exact .inl rfl
  · obtain ⟨q, -, -, rfl⟩ := hsoon
    refine ⟨hlast.cons p, ?_⟩
    rintro rate ⟨⟩
    exact hlast.cons p
  · obtain ⟨q, hq, helapsed, rfl⟩ := hdue
    have hmem := hs.mem q hq
    have hbacked : Backed (p :: s.polls) (differenced p q) := by
      refine differenced_backed List.mem_cons_self (List.mem_cons_of_mem _ hmem) (haccepts q hmem).1 ?_
      cases hp : p.read with
      | none => exact .inl (Nat.zero_le _)
      | some counts =>
        have hread : p.read.isSome := by rw [hp]; rfl
        have htotal := total_of_read hread
        rw [hp] at htotal
        right
        cases hqr : q.read with
        | some counts' =>
          have htotal' := total_of_read (p := q) (by rw [hqr]; rfl)
          rw [hqr] at htotal'
          rw [htotal, htotal']
        | none =>
          have hzero : q.counter = 0 := by
            by_contra hne
            exact absurd (hsound q hq hqr (Nat.pos_of_ne_zero hne) hread) (not_lt.2 helapsed)
          rw [htotal, hzero]
          rfl
    refine ⟨hbacked, ?_⟩
    rintro rate ⟨⟩
    exact hbacked

/-! ## Runs -/

theorem inv_init : Inv .init := ⟨rfl, by simp [State.init], le_rfl⟩

/-- No rate is negative, and in a run of sound polls none overstates. -/
theorem rate_backed (ps : List Poll) :
    Always step NonNegative .init ps ∧ (Each step Sound .init ps → Always step Fair .init ps) := by
  constructor
  · exact always_of_inv (I := fun s => Inv s ∧ NonNegative s) (fun s p t hs h => hs.1.step h) (fun s hs => hs.2)
      ⟨inv_init, by simp [NonNegative, State.init]⟩ ps
  · refine always_of_each (I := fun s => Inv s ∧ Backed s.polls s.observer.lastRate ∧ Fair s) ?_
      (fun s hs => hs.2.2) ?_
    · intro s p t hs hsound h
      exact ⟨(hs.1.step h).1, backed_step hs.1 hs.2.1 hsound h⟩
    · exact ⟨inv_init, .inl rfl, by simp [Fair, State.init]⟩

theorem step_polls (h : step s p = some t) : t.polls = p :: s.polls := by
  unfold step at h
  split at h
  · exact (Option.some.inj h) ▸ rfl
  · cases h

/-! ## After a read that failed -/

/-- A poll that reads the counter, in one row. -/
def readAt (time : ℚ) (counter : Nat) : Poll where
  time := time
  counter := counter
  read := some [some counter]
  read_counter counts h := by cases h; rfl

def failedAt (time : ℚ) (counter : Nat) : Poll := ⟨time, counter, none, fun _ h => nomatch h⟩

/-- Ten events in twenty seconds, and a read in between that fails. -/
def outage : List Poll := [readAt 0 1000, failedAt 10 1005, readAt 20 1010]

/-- A rate of 101 a second is reported. -/
theorem rate_after_failure : ¬ ∀ ps, Always step Fair .init ps := by
  intro h
  have hrun : (exec step .init outage).map (·.rate) = some (some 101) := by decide +kernel
  obtain ⟨t, ht, hrate⟩ := Option.map_eq_some_iff.1 hrun
  have hfair := (h outage).last ht 101 hrate
  obtain ⟨s₁, h₁, ht⟩ := Option.bind_eq_some_iff.1 ht
  obtain ⟨s₂, h₂, ht⟩ := Option.bind_eq_some_iff.1 ht
  obtain ⟨s₃, h₃, ht⟩ := Option.bind_eq_some_iff.1 ht
  cases ht
  rw [step_polls h₃, step_polls h₂, step_polls h₁] at hfair
  rcases hfair with hzero | ⟨a, ha, b, hb, hlt, hle⟩
  · exact absurd hzero (by decide)
  · simp only [List.mem_cons, State.init, List.not_mem_nil, or_false] at ha hb
    revert hlt hle
    rcases ha with rfl | rfl | rfl <;> rcases hb with rfl | rfl | rfl <;> norm_num [readAt, failedAt]

end HtapStack.Cassandra
