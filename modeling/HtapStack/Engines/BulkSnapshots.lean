import HtapStack.Engines.SparkClient
import Mathlib.Algebra.Order.Floor.Semiring
import Mathlib.Data.Rat.Floor
/-!
# Bulk queries and their snapshots

`execute_query` of `SparkBulkClient` in `backend/app/db/spark_client.py`, with the
snapshots and the views that it makes. Calls on any number of threads take turns, the
clock goes on between any two of their steps, and so do reconnects and aborts. Each
session has views of its own; a `CREATE OR REPLACE` that comes back has replaced the
view, and taken the snapshot if it was to be created, at any time since it was named;
one that raises may have done either. HiveServer2 takes the statements of a session one after another, so a statement
finds the views that there are when it is sent.

`read_own_snapshots`: every bulk view that a statement reads is bound to the snapshot
that its own query chose, as long as each statement reads no tables but those that
`_tables_in` finds in it. `leftover_read` is a statement that hides the view's name.

Left out: what a query measures, and what it reports when it fails.
-/

namespace HtapStack.BulkSnapshots
open Runs SparkClient

abbrev Table := List Char
abbrev Session := Nat

local instance lawfulTable : LawfulBEq Table := inferInstance

/-- `reads` are the tables whose bulk views a statement reads, and `queryTimeoutS` is
`settings.spark_query_timeout_s`. -/
structure Config where
  reads : List Char → List Table
  queryTimeoutS : Nat

/-- `SNAPSHOT_TTL_MINUTES`. -/
def Config.snapshotTtlMinutes (C : Config) : Nat := max 15 (⌈(C.queryTimeoutS / 60 : ℚ)⌉₊ * 2)

/-- `REUSE_SAFETY_MARGIN_S`. -/
def Config.reuseSafetyMarginS (C : Config) : Nat := C.queryTimeoutS

/-- What a snapshot's name is made of: its table, the clock and the counter. -/
structure Snapshot where
  table : Table
  stamp : Int
  number : Nat
  deriving DecidableEq, Repr

/-- What `_register_bulk_view` returns for a table. -/
structure Choice where
  table : Table
  snapshot : Snapshot
  reused : Bool
  deriving DecidableEq, Repr

/-- A call of `execute_query`, and what it has chosen so far. -/
structure Query where
  sql : List Char
  reuse : Bool
  chosen : List Choice
  deriving DecidableEq, Repr

def Query.choose (q : Query) (c : Choice) : Query := { q with chosen := q.chosen ++ [c] }

/-- The line a call is at, with the tables that are still to be registered. -/
inductive Line where
  | finished
  | enter (sql : List Char) (reuse : Bool)
  /-- The head of the loop; after the last table, the statement. -/
  | loop (q : Query) (tables : List Table)
  /-- The end of `_reusable`: is the snapshot still there? -/
  | askSidecar (q : Query) (table : Table) (snapshot : Snapshot) (tables : List Table)
  | name (q : Query) (table : Table) (tables : List Table)
  | sendView (q : Query) (choice : Choice) (tables : List Table)
  | size (q : Query) (tables : List Table)
  | running
  | leave
  deriving DecidableEq, Repr

/-- A statement that was sent: how long each reused snapshot that it reads had to live then, and, if it was
evaluated, what the views that it reads were bound to. -/
structure Sent where
  query : Query
  lifeLeft : List ℚ
  evaluated : Option (List (Table × Snapshot))
  deriving DecidableEq, Repr

/-- `created` says when each snapshot was taken, and `sent` is history, the last statement first; no code reads
`sent`. -/
structure World where
  now : ℚ
  conn : Option Session
  cut : Session → Bool
  nextSession : Session
  views : Session → Table → Option Snapshot
  created : Snapshot → Option ℚ
  counter : Nat
  queryLock : Option Nat
  lastSnapshot : Table → Option Snapshot
  calls : Nat → Line
  sent : List Sent

def init : World :=
  ⟨0, none, fun _ => false, 0, fun _ _ => none, fun _ => none, 1, none, fun _ => none, fun _ => .finished, []⟩

def World.set (w : World) (i : Nat) (line : Line) : World := { w with calls := Function.update w.calls i line }

/-! ## Snapshots -/

/-- `_age_of`: `_SNAPSHOT_STAMP_RE` asks for a stamp of ten digits. -/
def ageOf (now : ℚ) (snapshot : Snapshot) : Option ℚ :=
  if 10 ^ 9 ≤ snapshot.stamp then some (max 0 (now - snapshot.stamp)) else none

/-- `_reusable`, up to the question to the Sidecar. -/
def World.reusable (C : Config) (w : World) (table : Table) : Option Snapshot := do
  let snapshot ← w.lastSnapshot table
  let age ← ageOf w.now snapshot
  if C.snapshotTtlMinutes * 60 - age ≤ C.reuseSafetyMarginS then none else some snapshot

/-- How long Cassandra keeps the snapshot from now on. -/
def World.lifeLeft (C : Config) (w : World) (snapshot : Snapshot) : ℚ :=
  (w.created snapshot).elim 0 fun taken => taken + C.snapshotTtlMinutes * 60 - w.now

def World.remember (w : World) (c : Choice) : World :=
  { w with lastSnapshot := Function.update w.lastSnapshot c.table (some c.snapshot) }

/-- What comes of a `CREATE OR REPLACE TEMP VIEW`. -/
inductive Outcome where
  | done
  | raised (taken bound : Bool)
  deriving DecidableEq, Repr

/-- The snapshot is taken, unless it is an old one or has been taken while the statement ran, and the view is
bound to it. -/
def World.attempted (w : World) (session : Session) (c : Choice) (taken bound : Bool) : World :=
  { w with
    created :=
      if taken && !c.reused && (w.created c.snapshot).isNone then Function.update w.created c.snapshot (some w.now)
      else w.created
    views :=
      if bound then Function.update w.views session (Function.update (w.views session) c.table (some c.snapshot))
      else w.views }

/-! ## Statements -/

/-- The snapshots that the query reuses and reads. -/
def Query.reusedReads (C : Config) (q : Query) : List Snapshot :=
  (q.chosen.filter fun c => c.reused && decide (c.table ∈ C.reads q.sql)).map (·.snapshot)

/-- What the views that the statement reads are bound to, if they are all there. -/
def World.evaluate (C : Config) (w : World) (session : Session) (sql : List Char) : Option (List (Table × Snapshot)) :=
  (C.reads sql).mapM fun table => (w.views session table).map (table, ·)

/-- The statement is sent; `reached` says whether it gets to be evaluated. -/
def World.send (C : Config) (w : World) (session : Session) (q : Query) (reached : Bool) : World :=
  { w with
    sent := ⟨q, (q.reusedReads C).map (w.lifeLeft C),
      if !w.cut session && reached then w.evaluate C session q.sql else none⟩ :: w.sent }

/-! ## Steps -/

/-- What a call does next, with what is answered to it. The Sidecar lists the snapshot or does not, or asking it
raises. -/
inductive Event where
  | next
  | answered (listed : Option Bool)
  /-- The reader takes the snapshot, and goes on with the view. -/
  | taken
  | viewed (outcome : Outcome)
  | send (reached : Bool)
  | returned
  deriving DecidableEq, Repr

def World.act (C : Config) (w : World) (i : Nat) (e : Event) : Option World :=
  match w.calls i, e with
  | .enter sql reuse, .next =>
    if w.queryLock.isNone then some ({ w with queryLock := some i }.set i (.loop ⟨sql, reuse, []⟩ (tablesIn sql)))
    else none
  | .loop q (table :: tables), .next =>
    match if q.reuse then w.reusable C table else none with
    | some snapshot => some (w.set i (.askSidecar q table snapshot tables))
    | none => some (w.set i (.name q table tables))
  | .askSidecar q table snapshot tables, .answered (some listed) =>
    some (w.set i (if listed then .sendView q ⟨table, snapshot, true⟩ tables else .name q table tables))
  | .name q table tables, .next =>
    some ({ w with counter := w.counter + 1 }.set i
      (.sendView q ⟨table, ⟨table, ⌊w.now⌋, w.counter⟩, false⟩ tables))
  | .sendView q c tables, .taken =>
    w.conn.bind fun session =>
      if w.cut session then none else some ((w.attempted session c true false).set i (.sendView q c tables))
  | .sendView q c tables, .viewed outcome =>
    match w.conn with
    | none => some (w.set i .leave)
    | some session =>
      if w.cut session then some (w.set i .leave)
      else
        match outcome with
        | .done =>
          some (((w.attempted session c true true).remember c).set i (.size (q.choose c) tables))
        | .raised taken bound => some ((w.attempted session c taken bound).set i .leave)
  | .size q tables, .answered (some _) => some (w.set i (.loop q tables))
  | .askSidecar _ _ _ _, .answered none | .size _ _, .answered none => some (w.set i .leave)
  | .loop q [], .send reached =>
    match w.conn with
    | none => some (w.set i .leave)
    | some session => some ((w.send C session q reached).set i .running)
  | .running, .returned => some (w.set i .leave)
  | .leave, .next => some ({ w with queryLock := none }.set i .finished)
  | _, _ => none

/-- The locked part of `connect`. A failure closes the connection there was. -/
def World.connect (w : World) (ok : Bool) : World :=
  if ok then { w with conn := some w.nextSession, nextSession := w.nextSession + 1 } else { w with conn := none }

/-- `abort` takes the socket away, and leaves `_conn` where it is. -/
def World.abort (w : World) : World :=
  match w.conn with
  | some session => { w with cut := Function.update w.cut session true }
  | none => w

inductive Action where
  | query (i : Nat) (sql : List Char) (reuse : Bool)
  | act (i : Nat) (e : Event)
  | connect (ok : Bool)
  | abort
  | tick (delay : ℚ)
  deriving DecidableEq, Repr

def step (C : Config) (w : World) : Action → Option World
  | .query i sql reuse => if w.calls i = .finished then some (w.set i (.enter sql reuse)) else none
  | .act i e => w.act C i e
  | .connect ok => some (w.connect ok)
  | .abort => some w.abort
  | .tick delay => if 0 ≤ delay then some { w with now := w.now + delay } else none

/-! ## What a call does -/

/-- Between taking the query lock and giving it back. -/
def Line.holds : Line → Bool
  | .finished | .enter _ _ => false
  | _ => true

/-- A call goes from one line to the next, and the world is changed so. -/
inductive Moves (C : Config) (w : World) (i : Nat) : Line → World → Line → Prop
  | enter {sql : List Char} {reuse : Bool} (h : w.queryLock = none) :
    Moves C w i (.enter sql reuse) { w with queryLock := some i } (.loop ⟨sql, reuse, []⟩ (tablesIn sql))
  | ask {q : Query} {table : Table} {snapshot : Snapshot} {tables : List Table} (h : w.reusable C table = some snapshot) :
    Moves C w i (.loop q (table :: tables)) w (.askSidecar q table snapshot tables)
  | fresh {q : Query} {table : Table} {tables : List Table} :
    Moves C w i (.loop q (table :: tables)) w (.name q table tables)
  | listed {q : Query} {table : Table} {snapshot : Snapshot} {tables : List Table} :
    Moves C w i (.askSidecar q table snapshot tables) w (.sendView q ⟨table, snapshot, true⟩ tables)
  | gone {q : Query} {table : Table} {snapshot : Snapshot} {tables : List Table} :
    Moves C w i (.askSidecar q table snapshot tables) w (.name q table tables)
  | name {q : Query} {table : Table} {tables : List Table} :
    Moves C w i (.name q table tables) { w with counter := w.counter + 1 }
      (.sendView q ⟨table, ⟨table, ⌊w.now⌋, w.counter⟩, false⟩ tables)
  | taken {q : Query} {c : Choice} {tables : List Table} {session : Session} :
    Moves C w i (.sendView q c tables) (w.attempted session c true false) (.sendView q c tables)
  | viewed {q : Query} {c : Choice} {tables : List Table} {session : Session} (h : w.conn = some session) :
    Moves C w i (.sendView q c tables) ((w.attempted session c true true).remember c)
      (.size (q.choose c) tables)
  | raised {q : Query} {c : Choice} {tables : List Table} {session : Session} {taken bound : Bool}
    (h : w.conn = some session) :
    Moves C w i (.sendView q c tables) (w.attempted session c taken bound) .leave
  | sized {q : Query} {tables : List Table} : Moves C w i (.size q tables) w (.loop q tables)
  | sent {q : Query} {session : Session} {reached : Bool} (h : w.conn = some session) :
    Moves C w i (.loop q []) (w.send C session q reached) .running
  | ended {line : Line} (h : line.holds = true) : Moves C w i line w .leave
  | leave : Moves C w i .leave { w with queryLock := none } .finished

variable {C : Config} {w v : World} {i j : Nat} {line line' : Line} {e : Event}

theorem act_moves (h : w.act C i e = some v) :
    ∃ line u line', w.calls i = line ∧ Moves C w i line u line' ∧ u.calls = w.calls ∧ v = u.set i line' := by
  have hmoves {line u line'} (hline : w.calls i = line) (hm : Moves C w i line u line') (hcalls : u.calls = w.calls)
      (hv : some (u.set i line') = some v) :
      ∃ line u line', w.calls i = line ∧ Moves C w i line u line' ∧ u.calls = w.calls ∧ v = u.set i line' :=
    ⟨line, u, line', hline, hm, hcalls, (Option.some.inj hv).symm⟩
  unfold World.act at h
  split at h
  case h_1 sql reuse hline =>
    split at h
    · next hfree => exact hmoves hline (.enter (Option.isNone_iff_eq_none.1 hfree)) rfl h
    · cases h
  case h_2 q table tables hline =>
    split at h
    · next snapshot hask =>
      split at hask
      · exact hmoves hline (.ask hask) rfl h
      · cases hask
    · exact hmoves hline .fresh rfl h
  case h_3 q table snapshot tables listed hline =>
    cases listed
    · exact hmoves hline .gone rfl h
    · exact hmoves hline .listed rfl h
  case h_4 q table tables hline => exact hmoves hline .name rfl h
  case h_5 q c tables hline =>
    obtain ⟨session, -, h⟩ := Option.bind_eq_some_iff.1 h
    split at h
    · cases h
    · exact hmoves hline (@Moves.taken _ _ _ _ _ _ session) rfl h
  case h_6 q c tables outcome hline =>
    split at h
    · exact hmoves hline (.ended rfl) rfl h
    · next session hconn =>
      split at h
      · exact hmoves hline (.ended rfl) rfl h
      · cases outcome with
        | done => exact hmoves hline (.viewed hconn) rfl h
        | raised taken bound => exact hmoves hline (.raised hconn) rfl h
  case h_7 q tables listed hline => exact hmoves hline .sized rfl h
  case h_8 hline | h_9 hline => exact hmoves hline (.ended rfl) rfl h
  case h_10 q reached hline =>
    split at h
    · exact hmoves hline (.ended rfl) rfl h
    · next session hconn => exact hmoves hline (.sent hconn) rfl h
  case h_11 hline => exact hmoves hline (.ended rfl) rfl h
  case h_12 hline => exact hmoves hline .leave rfl h
  case h_13 => cases h

theorem set_calls_self : (w.set i line).calls i = line := Function.update_self _ _ _

theorem set_calls_of_ne (h : j ≠ i) : (w.set i line).calls j = w.calls j := Function.update_of_ne h _ _

/-! ## The query lock -/

def Locked (w : World) : Prop := ∀ i, (w.calls i).holds = true → w.queryLock = some i

/-- A call at such a line holds the lock, and nobody else takes it away. -/
theorem Moves.lock (h : Moves C w i line v line') (hline : line.holds = true → w.queryLock = some i) :
    (line'.holds = true → v.queryLock = some i) ∧ ∀ j, j ≠ i → w.queryLock = some j → v.queryLock = some j := by
  cases h with
  | enter hfree => exact ⟨fun _ => rfl, fun j _ hj => by rw [hfree] at hj; cases hj⟩
  | leave =>
    refine ⟨fun hholds => (nomatch hholds), fun j hji hj => ?_⟩
    rw [hline rfl] at hj
    exact absurd (Option.some.inj hj).symm hji
  | ended hholds => exact ⟨fun _ => hline hholds, fun _ _ hj => hj⟩
  | ask | fresh | listed | gone | name | taken | viewed | raised | sized | sent =>
    exact ⟨fun _ => hline rfl, fun _ _ hj => hj⟩

theorem Locked.act (hw : Locked w) (h : w.act C i e = some v) : Locked v := by
  obtain ⟨line, u, line', hline, hm, hcalls, rfl⟩ := act_moves h
  obtain ⟨hself, hothers⟩ := hm.lock fun hholds => hw i (hline ▸ hholds)
  intro j hj
  rcases eq_or_ne j i with rfl | hji
  · rw [set_calls_self] at hj
    exact hself hj
  · rw [set_calls_of_ne hji, hcalls] at hj
    exact hothers j hji (hw j hj)

theorem connect_frame (w : World) (ok : Bool) : (w.connect ok).calls = w.calls ∧
    (w.connect ok).queryLock = w.queryLock ∧ (w.connect ok).views = w.views ∧ (w.connect ok).sent = w.sent ∧
      (w.connect ok).created = w.created ∧ (w.connect ok).lastSnapshot = w.lastSnapshot ∧ (w.connect ok).now = w.now := by
  cases ok <;> exact ⟨rfl, rfl, rfl, rfl, rfl, rfl, rfl⟩

theorem abort_eq (w : World) : ∃ cut, w.abort = { w with cut := cut } := by
  unfold World.abort
  split
  · exact ⟨_, rfl⟩
  · exact ⟨w.cut, rfl⟩

theorem Locked.step {a : Action} (hw : Locked w) (h : step C w a = some v) : Locked v := by
  cases a with
  | query i sql reuse =>
    simp only [BulkSnapshots.step] at h
    split at h <;> cases h
    intro j hj
    rcases eq_or_ne j i with rfl | hji
    · rw [set_calls_self] at hj
      cases hj
    · rw [set_calls_of_ne hji] at hj
      exact hw j hj
  | act i e => exact hw.act h
  | connect ok =>
    cases h
    obtain ⟨hcalls, hlock, -⟩ := connect_frame w ok
    intro j hj
    rw [hcalls] at hj
    rw [hlock]
    exact hw j hj
  | abort =>
    cases h
    obtain ⟨cut, hcut⟩ := abort_eq w
    rw [hcut]
    exact hw
  | tick delay =>
    simp only [BulkSnapshots.step] at h
    split at h <;> cases h
    exact hw

/-! ## The views of a query -/

/-- Every bulk view that was read was bound to what the query chose for its table. -/
def Own (w : World) : Prop :=
  ∀ r ∈ w.sent, ∀ views, r.evaluated = some views → ∀ x ∈ views, ∃ c ∈ r.query.chosen, c.table = x.1 ∧ c.snapshot = x.2

/-- A query is for a statement that reads no tables but those that `_tables_in` finds in it. -/
def Found (C : Config) (_ : World) : Action → Prop
  | .query _ sql _ => ∀ table ∈ C.reads sql, table ∈ tablesIn sql
  | _ => True

instance (w : World) (a : Action) : Decidable (Found C w a) :=
  match a with
  | .query _ sql _ => inferInstanceAs (Decidable (∀ table ∈ C.reads sql, table ∈ tablesIn sql))
  | .act _ _ | .connect _ | .abort | .tick _ => isTrue trivial

/-- In the session that there is, the view of a table that the query has chosen for is not there, or bound to
what it chose. -/
def Bound (w : World) (q : Query) : Prop :=
  ∀ session, w.conn = some session → ∀ c ∈ q.chosen, ∀ snapshot, w.views session c.table = some snapshot →
    ∃ d ∈ q.chosen, d.table = c.table ∧ d.snapshot = snapshot

structure Knows (C : Config) (w : World) (q : Query) (tables : List Table) : Prop where
  reads : ∀ table ∈ C.reads q.sql, table ∈ tablesIn q.sql
  tables : q.chosen.map (·.table) ++ tables = tablesIn q.sql
  bound : Bound w q

def Good (C : Config) (w : World) : Line → Prop
  | .enter sql _ => ∀ table ∈ C.reads sql, table ∈ tablesIn sql
  | .loop q tables | .size q tables => Knows C w q tables
  | .askSidecar q table _ tables | .name q table tables => Knows C w q (table :: tables)
  | .sendView q c tables => Knows C w q (c.table :: tables)
  | .finished | .running | .leave => True

structure Inv (C : Config) (w : World) : Prop where
  locked : Locked w
  unused : ∀ session table, w.nextSession ≤ session → w.views session table = none
  opened : ∀ session, w.conn = some session → session < w.nextSession
  calls : ∀ i, Good C w (w.calls i)
  own : Own w

theorem Bound.congr {q : Query} (h : Bound w q) (hconn : v.conn = w.conn) (hviews : v.views = w.views) : Bound v q := by
  unfold Bound
  rw [hconn, hviews]
  exact h

theorem Good.frame (h : Good C w line) (hbound : line.holds = true → ∀ q, Bound w q → Bound v q) : Good C v line := by
  cases line with
  | enter sql reuse => exact h
  | loop q | size q | askSidecar q | name q | sendView q => exact ⟨h.reads, h.tables, hbound rfl q h.bound⟩
  | finished | running | leave => trivial

/-- After its view is bound, a query has chosen for one more table. -/
theorem Bound.viewed {q : Query} {c : Choice} {session : Session} (h : Bound w q) (hconn : w.conn = some session) :
    Bound ((w.attempted session c true true).remember c) (q.choose c) := by
  intro s hs d hd snapshot hsnapshot
  obtain rfl : session = s := Option.some.inj (hconn.symm.trans hs)
  change Function.update w.views session _ session d.table = some snapshot at hsnapshot
  rw [Function.update_self] at hsnapshot
  by_cases htable : d.table = c.table
  · rw [htable, Function.update_self] at hsnapshot
    exact ⟨c, List.mem_append_right _ List.mem_cons_self, htable.symm, Option.some.inj hsnapshot⟩
  · rw [Function.update_of_ne htable] at hsnapshot
    have hd : d ∈ q.chosen := by
      rcases List.mem_append.1 hd with hd | hd
      · exact hd
      · exact absurd (congrArg Choice.table (List.mem_singleton.1 hd)) htable
    obtain ⟨e, he, hmatch⟩ := h session hconn d hd snapshot hsnapshot
    exact ⟨e, List.mem_append_left _ he, hmatch⟩

/-- The views and the connection are changed by a call that holds the lock. -/
theorem Moves.views (h : Moves C w i line v line') : v.conn = w.conn ∧ v.nextSession = w.nextSession ∧
    (v.views = w.views ∨ line.holds = true ∧ ∃ (session : Session) (c : Choice), w.conn = some session ∧
      v.views = Function.update w.views session (Function.update (w.views session) c.table (some c.snapshot))) := by
  cases h with
  | viewed hconn => exact ⟨rfl, rfl, .inr ⟨rfl, _, _, hconn, rfl⟩⟩
  | @raised _ c _ session taken bound hconn =>
    cases bound
    · exact ⟨rfl, rfl, .inl rfl⟩
    · exact ⟨rfl, rfl, .inr ⟨rfl, session, c, hconn, rfl⟩⟩
  | enter | ask | fresh | listed | gone | name | taken | sized | sent | ended | leave => exact ⟨rfl, rfl, .inl rfl⟩

theorem Moves.good (h : Moves C w i line v line') (hline : Good C w line) : Good C v line' := by
  cases h with
  | enter hfree => exact ⟨hline, rfl, fun _ _ _ hc => nomatch hc⟩
  | viewed hconn =>
    refine ⟨hline.reads, ?_, hline.bound.viewed hconn⟩
    have htables := hline.tables
    simpa [Query.choose] using htables
  | ask | fresh | listed | gone | sized => exact hline
  | name | taken => exact Good.frame hline fun _ _ hb => hb
  | raised | sent | ended | leave => trivial

theorem mem_mapM {α β : Type} {f : α → Option β} {xs : List α} {ys : List β} (h : xs.mapM f = some ys) {y : β}
    (hy : y ∈ ys) : ∃ x ∈ xs, f x = some y := by
  induction xs generalizing ys with
  | nil =>
    cases h
    cases hy
  | cons x xs ih =>
    rw [List.mapM_cons] at h
    obtain ⟨z, hz, h⟩ := Option.bind_eq_some_iff.1 h
    obtain ⟨zs, hzs, h⟩ := Option.bind_eq_some_iff.1 h
    cases h
    rcases List.mem_cons.1 hy with rfl | hy
    · exact ⟨x, List.mem_cons_self, hz⟩
    · obtain ⟨x', hx', hf⟩ := ih hzs hy
      exact ⟨x', List.mem_cons_of_mem _ hx', hf⟩

/-- A statement whose query has chosen for each table finds its own views, if all. -/
theorem Knows.evaluate {q : Query} (h : Knows C w q []) {session : Session} (hconn : w.conn = some session)
    {views : List (Table × Snapshot)} (hviews : w.evaluate C session q.sql = some views) {x : Table × Snapshot}
    (hx : x ∈ views) : ∃ c ∈ q.chosen, c.table = x.1 ∧ c.snapshot = x.2 := by
  obtain ⟨table, htable, hview⟩ := mem_mapM hviews hx
  obtain ⟨snapshot, hsnapshot, rfl⟩ := Option.map_eq_some_iff.1 hview
  have hchosen := h.reads table htable
  rw [← h.tables, List.append_nil] at hchosen
  obtain ⟨c, hc, rfl⟩ := List.mem_map.1 hchosen
  exact h.bound session hconn c hc snapshot hsnapshot

theorem Moves.own (h : Moves C w i line v line') (hline : Good C w line) (hw : Own w) : Own v := by
  cases h with
  | @sent q session reached hconn =>
    refine List.forall_mem_cons.2 ⟨fun views hviews x hx => ?_, hw⟩
    dsimp only at hviews
    split at hviews
    · exact hline.evaluate hconn hviews hx
    · cases hviews
  | enter | ask | fresh | listed | gone | name | taken | viewed | raised | sized | ended | leave => exact hw

/-! ## Runs -/

theorem Inv.act (hw : Inv C w) (h : w.act C i e = some v) : Inv C v := by
  have hlocked := hw.locked.act h
  obtain ⟨line, u, line', hline, hm, hcalls, rfl⟩ := act_moves h
  obtain ⟨hconn, hnext, hviews⟩ := hm.views
  have hgood : Good C w line := hline ▸ hw.calls i
  refine ⟨hlocked, fun session table hle => ?_, fun session hs => ?_, fun j => ?_, hm.own hgood hw.own⟩
  · change u.nextSession ≤ session at hle
    change u.views session table = none
    rw [hnext] at hle
    rcases hviews with hsame | ⟨-, opened, c, hopened, hupdate⟩
    · rw [hsame, hw.unused session table hle]
    · have hne : session ≠ opened := ((hw.opened opened hopened).trans_le hle).ne'
      rw [hupdate, Function.update_of_ne hne, hw.unused session table hle]
  · change u.conn = some session at hs
    change session < u.nextSession
    rw [hconn] at hs
    rw [hnext]
    exact hw.opened session hs
  · rcases eq_or_ne j i with rfl | hji
    · rw [set_calls_self]
      exact Good.frame (hm.good hgood) fun _ _ hb => hb
    · rw [set_calls_of_ne hji, hcalls]
      refine (hw.calls j).frame fun hholds q hb => ?_
      -- Two calls do not hold the lock at once.
      rcases hviews with hsame | ⟨hmine, -⟩
      · exact hb.congr hconn hsame
      · have hlock := (hw.locked i (hline ▸ hmine)).symm.trans (hw.locked j hholds)
        exact absurd (Option.some.inj hlock).symm hji

/-- There is nothing in a new session. -/
theorem Inv.connect (hw : Inv C w) (ok : Bool) : Inv C (w.connect ok) := by
  have hlocked := hw.locked.step (C := C) (a := .connect ok) rfl
  cases ok with
  | false =>
    exact ⟨hlocked, hw.unused, fun _ hs => (nomatch hs),
      fun j => (hw.calls j).frame fun _ q _ => fun _ hs => (nomatch hs), hw.own⟩
  | true =>
    refine ⟨hlocked, fun session table hle => hw.unused session table (Nat.le_of_succ_le hle), fun session hs => ?_,
      fun j => (hw.calls j).frame fun _ q _ => ?_, hw.own⟩
    · obtain rfl := Option.some.inj hs
      exact Nat.lt_succ_self _
    · rintro session ⟨⟩ c - snapshot hsnapshot
      exact absurd (hsnapshot.symm.trans (hw.unused _ _ le_rfl)) (Option.some_ne_none _)

theorem Inv.step {a : Action} (hw : Inv C w) (hfound : Found C w a) (h : step C w a = some v) : Inv C v := by
  have hlocked := hw.locked.step h
  cases a with
  | query i sql reuse =>
    simp only [BulkSnapshots.step] at h
    split at h <;> cases h
    refine ⟨hlocked, hw.unused, hw.opened, fun j => ?_, hw.own⟩
    rcases eq_or_ne j i with rfl | hji
    · rw [set_calls_self]
      exact hfound
    · rw [set_calls_of_ne hji]
      exact (hw.calls j).frame fun _ _ hb => hb
  | act i e => exact hw.act h
  | connect ok =>
    cases h
    exact hw.connect ok
  | abort =>
    cases h
    obtain ⟨cut, hcut⟩ := abort_eq w
    rw [hcut] at hlocked ⊢
    exact ⟨hlocked, hw.unused, hw.opened, fun j => (hw.calls j).frame fun _ _ hb => hb, hw.own⟩
  | tick delay =>
    simp only [BulkSnapshots.step] at h
    split at h <;> cases h
    exact ⟨hlocked, hw.unused, hw.opened, fun j => (hw.calls j).frame fun _ _ hb => hb, hw.own⟩

theorem inv_init : Inv C init :=
  ⟨fun _ h => (nomatch h), fun _ _ _ => rfl, fun _ h => (nomatch h), fun _ => trivial, fun _ h => nomatch h⟩

/-- In every interleaving of queries, reconnects and aborts, whatever the delays, a statement reads the snapshots
that its own query chose, as long as `_tables_in` finds every table that a statement reads. -/
theorem read_own_snapshots (C : Config) (as : List Action) (h : Each (step C) (Found C) init as) :
    Always (step C) Own init as :=
  always_of_each (I := Inv C) (fun _ _ _ => Inv.step) (fun _ hw => hw.own) inv_init h

/-! ## A view that is left over -/

/-- A literal that Spark takes for a name. -/
def hidden : List Char := "SELECT * FROM IDENTIFIER('bulk_' || 'events') LIMIT 10".toList

/-- Statements read the tables that are found in them, but for this one, which reads `events`. -/
def spark : Config where
  reads sql := if sql = hidden then ["events".toList] else tablesIn sql
  queryTimeoutS := 900

/-- Thread `i` runs a query of one table, each step of it answered as it should be. -/
def query (i : Nat) (sql : List Char) : List Action :=
  [.query i sql false, .act i .next, .act i .next, .act i .next, .act i (.viewed .done), .act i (.answered (some true)),
    .act i (.send true), .act i .returned, .act i .next]

def visible : List Char := "SELECT * FROM bulk_events LIMIT 10".toList

theorem read_own_snapshots_two : Always (step spark) Own init (.connect true :: query 0 visible ++ query 1 visible) :=
  read_own_snapshots spark _ (by decide +kernel)

/-- The statement reads the snapshot that the query before it had chosen, and has chosen none. -/
theorem leftover_read : ¬ ∀ as, Always (step spark) Own init as := by
  intro h
  have hrun : (exec (step spark) init (.connect true :: query 0 visible ++
      [.query 1 hidden false, .act 1 .next, .act 1 (.send true)])).map (·.sent.head?) =
      some (some ⟨⟨hidden, false, []⟩, [], some [("events".toList, ⟨"events".toList, 0, 1⟩)]⟩) := by
    decide +kernel
  obtain ⟨w, hw, hsent⟩ := Option.map_eq_some_iff.1 hrun
  have hmem := List.mem_of_mem_head? (Option.mem_def.2 hsent)
  obtain ⟨c, hc, -⟩ := (h _).last hw _ hmem _ rfl _ List.mem_cons_self
  cases hc

end HtapStack.BulkSnapshots
