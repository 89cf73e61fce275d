import HtapStack.Engines.BulkSnapshots
import Mathlib.Tactic.Linarith
/-!
# How long a reused snapshot lives

The same calls of `SparkBulkClient`: `_reusable` looks at a snapshot's age, and the
other steps of the query come between that and the statement.

`outlives`: when a statement is sent, each reused snapshot that it reads has more than
the query timeout to live, as long as no delay in between takes what the snapshot has
left beyond it. `slow_table` is a query that passes the check with a second to spare,
and registers a second table for ten.
-/

namespace HtapStack.BulkSnapshots
open Runs SparkClient

/-- When it was sent, each reused snapshot that a statement reads had more than the query timeout to live. -/
def Outlives (C : Config) (w : World) : Prop := ∀ r ∈ w.sent, ∀ left ∈ r.lifeLeft, (C.queryTimeoutS : ℚ) < left

/-- The snapshots that a call may yet reuse and read: those it has chosen, and the one whose age it has found good. -/
def Line.held (C : Config) : Line → List Snapshot
  | .loop q _ | .name q _ _ | .size q _ => q.reusedReads C
  | .askSidecar q table snapshot _ => (q.choose ⟨table, snapshot, true⟩).reusedReads C
  | .sendView q c _ => (q.choose c).reusedReads C
  | .finished | .enter _ _ | .running | .leave => []

/-- While a query holds snapshots for reuse and has not sent its statement, a delay is shorter than the life that
each of them has left beyond the query timeout. -/
def Swift (C : Config) (w : World) : Action → Prop
  | .tick delay =>
    ∀ i ∈ w.queryLock, ∀ snapshot ∈ (w.calls i).held C, delay < w.lifeLeft C snapshot - C.queryTimeoutS
  | _ => True

instance (C : Config) (w : World) (a : Action) : Decidable (Swift C w a) :=
  match a with
  | .tick _ => inferInstanceAs (Decidable (∀ i ∈ w.queryLock, ∀ _ ∈ _, _ < _))
  | .query _ _ _ | .act _ _ | .connect _ | .abort => isTrue trivial

/-- The snapshot is one that there was, or is named and not taken yet. -/
def Choice.Offered (w : World) (c : Choice) : Prop :=
  if c.reused then (w.created c.snapshot).isSome = true else (c.snapshot.stamp : ℚ) ≤ w.now

/-- What the line knows of the snapshot that it is about to point a view at. -/
def Line.Offers (w : World) : Line → Prop
  | .askSidecar _ _ snapshot _ => (w.created snapshot).isSome = true
  | .sendView _ c _ => c.Offered w
  | _ => True

structure Lives (C : Config) (w : World) (line : Line) : Prop where
  held : ∀ snapshot ∈ line.held C, (C.queryTimeoutS : ℚ) < w.lifeLeft C snapshot
  offers : line.Offers w

/-- A snapshot is taken after it is named. -/
def Past (w : World) : Prop := ∀ snapshot taken, w.created snapshot = some taken → snapshot.stamp ≤ taken ∧ taken ≤ w.now

structure Timely (C : Config) (w : World) : Prop where
  locked : Locked w
  past : Past w
  known : ∀ table snapshot, w.lastSnapshot table = some snapshot → (w.created snapshot).isSome = true
  calls : ∀ i, Lives C w (w.calls i)
  outlast : Outlives C w

variable {C : Config} {w v : World} {i j : Nat} {line line' : Line} {e : Event} {q : Query} {c : Choice}
  {snapshot : Snapshot}

theorem mem_choose : snapshot ∈ (q.choose c).reusedReads C ↔
    snapshot ∈ q.reusedReads C ∨ c.reused = true ∧ c.table ∈ C.reads q.sql ∧ snapshot = c.snapshot := by
  have hone : snapshot ∈ ([c].filter fun c => c.reused && decide (c.table ∈ C.reads q.sql)).map (·.snapshot) ↔
      c.reused = true ∧ c.table ∈ C.reads q.sql ∧ snapshot = c.snapshot := by
    by_cases hc : (c.reused && decide (c.table ∈ C.reads q.sql)) = true
    · have := Bool.and_eq_true_iff.1 hc
      simp_all
    · simp_all
  rw [Query.reusedReads, Query.choose, List.filter_append, List.map_append, List.mem_append, hone]
  rfl

/-! ## The check -/

/-- A snapshot that passes has more than the query timeout to live. -/
theorem reusable_lives (hw : Timely C w) {table : Table} (h : w.reusable C table = some snapshot) :
    (w.created snapshot).isSome = true ∧ (C.queryTimeoutS : ℚ) < w.lifeLeft C snapshot := by
  obtain ⟨last, hlast, h⟩ := Option.bind_eq_some_iff.1 h
  obtain ⟨age, hage, h⟩ := Option.bind_eq_some_iff.1 h
  split at h
  · cases h
  · next hmargin =>
    cases h
    have hknown := hw.known table snapshot hlast
    obtain ⟨taken, htaken⟩ := Option.isSome_iff_exists.1 hknown
    refine ⟨hknown, ?_⟩
    have hstamp := (hw.past snapshot taken htaken).1
    have hage : w.now - snapshot.stamp ≤ age := by
      unfold ageOf at hage
      split at hage <;> cases hage
      exact le_max_right _ _
    rw [Config.reuseSafetyMarginS, not_le] at hmargin
    rw [World.lifeLeft, htaken, Option.elim_some]
    linarith

/-! ## What a step does to the snapshots -/

/-- No snapshot is lost, and none has less to live. -/
structure Keeps (C : Config) (w v : World) : Prop where
  now : v.now = w.now
  created : ∀ snapshot, (w.created snapshot).isSome = true → (v.created snapshot).isSome = true
  lifeLeft : ∀ snapshot, w.lifeLeft C snapshot ≤ v.lifeLeft C snapshot

theorem Keeps.of_created (hnow : v.now = w.now) (hcreated : v.created = w.created) : Keeps C w v := by
  refine ⟨hnow, fun snapshot h => by rwa [hcreated], fun snapshot => le_of_eq ?_⟩
  rw [World.lifeLeft, World.lifeLeft, hnow, hcreated]

theorem Choice.Offered.keep (h : c.Offered w)
    (hcreated : (w.created c.snapshot).isSome = true → (v.created c.snapshot).isSome = true) (hnow : w.now ≤ v.now) :
    c.Offered v := by
  unfold Choice.Offered at h ⊢
  split
  · rw [if_pos ‹_›] at h
    exact hcreated h
  · rw [if_neg ‹_›] at h
    exact h.trans hnow

theorem Lives.keep (h : Lives C w line) (hkeeps : Keeps C w v) : Lives C v line where
  held snapshot hs := (h.held snapshot hs).trans_le (hkeeps.lifeLeft snapshot)
  offers := by
    have hoffers := h.offers
    cases line with
    | askSidecar q table snapshot tables => exact hkeeps.created snapshot hoffers
    | sendView q c tables => exact Choice.Offered.keep hoffers (hkeeps.created c.snapshot) hkeeps.now.ge
    | finished | enter | loop | name | size | running | leave => trivial

/-- A snapshot that is to be taken is not there yet, and the others stay as they are. -/
theorem created_cases (w : World) (session : Session) (c : Choice) (taken bound : Bool) :
    (w.attempted session c taken bound).created = w.created ∨
      (taken = true ∧ c.reused = false ∧ w.created c.snapshot = none ∧
        (w.attempted session c taken bound).created = Function.update w.created c.snapshot (some w.now)) := by
  by_cases htaken : (taken && !c.reused && (w.created c.snapshot).isNone) = true
  · have hall := htaken
    rw [Bool.and_eq_true, Bool.and_eq_true, Bool.not_eq_true', Option.isNone_iff_eq_none] at hall
    exact .inr ⟨hall.1.1, hall.1.2, hall.2, if_pos htaken⟩
  · exact .inl (if_neg htaken)

/-- Taking a snapshot gives it its whole life. -/
theorem keeps_attempted (session : Session) (taken bound : Bool) :
    Keeps C w (w.attempted session c taken bound) := by
  obtain hsame | ⟨-, -, hnone, hcreated⟩ := created_cases w session c taken bound
  · exact Keeps.of_created rfl hsame
  refine ⟨rfl, fun snapshot h => ?_, fun snapshot => ?_⟩
  · rw [hcreated]
    rcases eq_or_ne snapshot c.snapshot with rfl | hne
    · rw [Function.update_self]
      rfl
    · rwa [Function.update_of_ne hne]
  · have hnow : (w.attempted session c taken bound).now = w.now := rfl
    rw [World.lifeLeft, World.lifeLeft, hcreated, hnow]
    rcases eq_or_ne snapshot c.snapshot with rfl | hne
    · rw [Function.update_self, Option.elim_some, hnone, Option.elim_none]
      have : (0 : ℚ) ≤ C.snapshotTtlMinutes * 60 := by positivity
      linarith
    · rw [Function.update_of_ne hne]

theorem Past.attempted (hw : Past w) (hoffers : c.Offered w) (session : Session) (taken bound : Bool) :
    Past (w.attempted session c taken bound) := by
  intro snapshot at' hat
  obtain hsame | ⟨-, hfresh, -, hcreated⟩ := created_cases w session c taken bound
  · exact hw snapshot at' (hsame ▸ hat)
  rw [hcreated] at hat
  rcases eq_or_ne snapshot c.snapshot with rfl | hne
  · rw [Function.update_self] at hat
    cases hat
    rw [Choice.Offered, if_neg (by rw [hfresh]; exact Bool.false_ne_true)] at hoffers
    exact ⟨hoffers, le_rfl⟩
  · rw [Function.update_of_ne hne] at hat
    exact hw snapshot at' hat

/-- Once the view is bound, its snapshot is there. -/
theorem created_attempted (hoffers : c.Offered w) (session : Session) (bound : Bool) :
    ((w.attempted session c true bound).created c.snapshot).isSome = true := by
  change ((if true && !c.reused && (w.created c.snapshot).isNone then _ else w.created) c.snapshot).isSome = true
  split
  · rw [Function.update_self]
    rfl
  · next hkept =>
    cases hreused : c.reused with
    | true =>
      rw [Choice.Offered, if_pos hreused] at hoffers
      exact hoffers
    | false =>
      rw [hreused, Bool.not_false, Bool.and_self, Bool.true_and, Bool.not_eq_true] at hkept
      rwa [← Option.not_isNone, Bool.not_eq_true']

/-! ## Steps -/

theorem Moves.keeps (h : Moves C w i line v line') : Keeps C w v := by
  cases h with
  | @viewed q c tables session hconn =>
    obtain ⟨hnow, hcreated, hlife⟩ : Keeps C w (w.attempted session c true true) := keeps_attempted session true true
    exact ⟨hnow, hcreated, hlife⟩
  | taken | raised => exact keeps_attempted ..
  | enter | ask | fresh | listed | gone | name | sized | sent | ended | leave => exact Keeps.of_created rfl rfl

theorem Moves.lives (h : Moves C w i line v line') (hw : Timely C w) (hline : Lives C w line) : Lives C v line' := by
  have hkeeps := h.keeps
  cases h with
  | enter => exact ⟨fun _ hs => (nomatch hs), trivial⟩
  | ask hask =>
    obtain ⟨hknown, hlife⟩ := reusable_lives hw hask
    refine ⟨fun s hs => ?_, hknown⟩
    rcases mem_choose.1 hs with hs | ⟨-, -, rfl⟩
    · exact hline.held s hs
    · exact hlife
  | fresh | sized => exact ⟨hline.held, trivial⟩
  | listed => exact ⟨hline.held, hline.offers⟩
  | gone => exact ⟨fun s hs => hline.held s (mem_choose.2 (.inl hs)), trivial⟩
  | name =>
    refine ⟨fun s hs => ?_, Int.floor_le w.now⟩
    rcases mem_choose.1 hs with hs | ⟨hreused, -⟩
    · exact hline.held s hs
    · cases hreused
  | taken => exact hline.keep hkeeps
  | viewed => exact ⟨fun s hs => (hline.held s hs).trans_le (hkeeps.lifeLeft s), trivial⟩
  | raised | sent | ended | leave => exact ⟨fun _ hs => (nomatch hs), trivial⟩

theorem Moves.outlast (h : Moves C w i line v line') (hline : Lives C w line) (hw : Outlives C w) : Outlives C v := by
  cases h with
  | sent =>
    refine List.forall_mem_cons.2 ⟨fun left hleft => ?_, hw⟩
    obtain ⟨snapshot, hs, rfl⟩ := List.mem_map.1 hleft
    exact hline.held snapshot hs
  | enter | ask | fresh | listed | gone | name | taken | viewed | raised | sized | ended | leave => exact hw

theorem Moves.past (h : Moves C w i line v line') (hline : Lives C w line) (hw : Past w) : Past v := by
  cases h with
  | @taken q c tables session => exact hw.attempted hline.offers session true false
  | @viewed q c tables session hconn => exact hw.attempted hline.offers session true true
  | @raised q c tables session taken bound hconn => exact hw.attempted hline.offers session taken bound
  | enter | ask | fresh | listed | gone | name | sized | sent | ended | leave => exact hw

theorem Moves.known (h : Moves C w i line v line') (hline : Lives C w line) (hw : Timely C w) {table : Table}
    (hlast : v.lastSnapshot table = some snapshot) : (v.created snapshot).isSome = true := by
  have hkeeps := h.keeps
  cases h with
  | @viewed q c tables session hconn =>
    change Function.update w.lastSnapshot c.table (some c.snapshot) table = some snapshot at hlast
    rcases eq_or_ne table c.table with rfl | hne
    · rw [Function.update_self] at hlast
      cases hlast
      exact created_attempted hline.offers session true
    · rw [Function.update_of_ne hne] at hlast
      exact hkeeps.created snapshot (hw.known table snapshot hlast)
  | enter | ask | fresh | listed | gone | name | taken | raised | sized | sent | ended | leave =>
    exact hkeeps.created snapshot (hw.known table snapshot hlast)

theorem Timely.act (hw : Timely C w) (h : w.act C i e = some v) : Timely C v := by
  have hlocked := hw.locked.act h
  obtain ⟨line, u, line', hline, hm, hcalls, rfl⟩ := act_moves h
  have hlives : Lives C w line := hline ▸ hw.calls i
  have hkeeps := hm.keeps
  refine ⟨hlocked, hm.past hlives hw.past, fun table snapshot hlast => hm.known hlives hw hlast, fun j => ?_,
    hm.outlast hlives hw.outlast⟩
  have hset : Keeps C u (u.set i line') := Keeps.of_created rfl rfl
  rcases eq_or_ne j i with rfl | hji
  · rw [set_calls_self]
    exact (hm.lives hw hlives).keep hset
  · rw [set_calls_of_ne hji, hcalls]
    exact ((hw.calls j).keep hkeeps).keep hset

/-- A delay that is short enough leaves each snapshot more than the query timeout. -/
theorem Timely.tick (hw : Timely C w) {delay : ℚ} (hswift : Swift C w (.tick delay)) (hdelay : 0 ≤ delay) :
    Timely C { w with now := w.now + delay } := by
  refine ⟨hw.locked, fun snapshot taken htaken => ?_, hw.known, fun i => ⟨fun snapshot hs => ?_, ?_⟩, hw.outlast⟩
  · obtain ⟨hstamp, hnow⟩ := hw.past snapshot taken htaken
    exact ⟨hstamp, by simp only; linarith⟩
  · have hheld : (w.calls i).holds = true := by
      cases hline : w.calls i with
      | finished | enter =>
        have hs : snapshot ∈ (w.calls i).held C := hs
        rw [hline] at hs
        cases hs
      | _ => rfl
    have hlt := hswift i (hw.locked i hheld) snapshot hs
    have hlife : w.lifeLeft C snapshot - delay ≤ World.lifeLeft C { w with now := w.now + delay } snapshot := by
      unfold World.lifeLeft
      cases w.created snapshot <;> simp only [Option.elim_none, Option.elim_some] <;> linarith
    linarith
  · have hoffers := (hw.calls i).offers
    change (w.calls i).Offers _
    cases hline : w.calls i with rw [hline] at hoffers
    | sendView q c tables => exact Choice.Offered.keep hoffers id (by simp only; linarith)
    | askSidecar q table snapshot tables => exact hoffers
    | _ => trivial

theorem Timely.step {a : Action} (hw : Timely C w) (hswift : Swift C w a) (h : step C w a = some v) : Timely C v := by
  have hlocked := hw.locked.step h
  cases a with
  | query i sql reuse =>
    simp only [BulkSnapshots.step] at h
    split at h <;> cases h
    refine ⟨hlocked, hw.past, hw.known, fun j => ?_, hw.outlast⟩
    have hset : Keeps C w (w.set i (.enter sql reuse)) := Keeps.of_created rfl rfl
    rcases eq_or_ne j i with rfl | hji
    · rw [set_calls_self]
      exact ⟨fun _ hs => (by cases hs), trivial⟩
    · rw [set_calls_of_ne hji]
      exact (hw.calls j).keep hset
  | act i e => exact hw.act h
  | connect ok =>
    cases h
    cases ok <;>
      exact ⟨hlocked, hw.past, hw.known, fun j => (hw.calls j).keep (Keeps.of_created rfl rfl), hw.outlast⟩
  | abort =>
    cases h
    obtain ⟨cut, hcut⟩ := abort_eq w
    rw [hcut] at hlocked ⊢
    exact ⟨hlocked, hw.past, hw.known, fun j => (hw.calls j).keep (Keeps.of_created rfl rfl), hw.outlast⟩
  | tick delay =>
    simp only [BulkSnapshots.step] at h
    split at h <;> cases h
    exact hw.tick hswift ‹_›

/-! ## Runs -/

theorem timely_init : Timely C init :=
  ⟨fun _ h => (nomatch h), fun _ _ h => (nomatch h), fun _ _ h => (nomatch h), fun _ => ⟨fun _ h => (nomatch h), trivial⟩,
    fun _ h => nomatch h⟩

/-- In every interleaving of queries over any tables, reconnects and aborts, a reused snapshot outlives its
statement, as long as no delay between its check and the statement takes what it has left beyond the timeout. -/
theorem outlives (C : Config) (as : List Action) (h : Each (step C) (Swift C) init as) :
    Always (step C) (Outlives C) init as :=
  always_of_each (I := Timely C) (fun _ _ _ => Timely.step) (fun _ hw => hw.outlast) timely_init h

/-- A query over one table that reuses its snapshot, ten seconds passing before it sends its statement. -/
def reusing (i : Nat) (sql : List Char) : List Action :=
  [.query i sql true, .act i .next, .act i .next, .act i (.answered (some true)), .act i (.viewed .done), .tick 10,
    .act i (.answered (some true)), .act i (.send true)]

/-- One that takes its snapshot five seconds before its view is there. -/
def early (i : Nat) (sql : List Char) : List Action :=
  [.query i sql false, .act i .next, .act i .next, .act i .next, .act i .taken, .tick 5, .act i (.viewed .done),
    .act i (.answered (some true)), .act i (.send true), .act i .returned, .act i .next]

theorem outlives_reusing : Always (step spark) (Outlives spark) init
    (.connect true :: .tick 1700000000 :: early 0 visible ++ .tick 880 :: reusing 1 visible) :=
  outlives spark _ (by decide +kernel)

/-! ## A second table that takes long -/

def status : List Char := "SELECT * FROM bulk_drone_latest_status LIMIT 10".toList

def joined : List Char :=
  "SELECT * FROM bulk_drone_latest_status d JOIN bulk_events e ON d.entity_id = e.entity_id LIMIT 10".toList

/-- The snapshot of the first table is 899 seconds old when it is checked, of the 900 that it may be; the view of
the second takes ten. -/
def slow : List Action :=
  .connect true :: .tick 1700000000 :: query 0 status ++
    [.tick 899, .query 1 joined true, .act 1 .next, .act 1 .next, .act 1 (.answered (some true)), .act 1 (.viewed .done),
      .act 1 (.answered (some true)), .act 1 .next, .act 1 .next, .tick 10, .act 1 (.viewed .done),
      .act 1 (.answered (some true)), .act 1 (.send true)]

theorem slow_table : ¬ ∀ as, Always (step spark) (Outlives spark) init as := by
  intro h
  have hrun : (exec (step spark) init slow).map (·.sent.map (·.lifeLeft)) = some [[891], []] := by decide +kernel
  obtain ⟨w, hw, hsent⟩ := Option.map_eq_some_iff.1 hrun
  obtain ⟨r, hr, hleft⟩ : ∃ r ∈ w.sent, r.lifeLeft = [891] := List.mem_map.1 (hsent ▸ List.mem_cons_self)
  have hlt := (h slow).last hw r hr 891 (hleft ▸ List.mem_cons_self)
  norm_num [spark] at hlt

end HtapStack.BulkSnapshots
