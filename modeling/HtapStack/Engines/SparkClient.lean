import HtapStack.Lib.PyStr
import HtapStack.Lib.Runs
import Mathlib.Data.List.Infix
import Mathlib.Logic.Function.Basic
/-!
# A broken connection

The two Spark clients of `backend/app/db/spark_client.py`, each over a Thrift
connection of its own, and `_run` of `backend/app/routes/query.py`, which
connects before a query when the client says that it is not connected.

A call is what is left of it to do (`Call`): one constructor for each thing it
does to the client under its lock, and what it goes on to do after each answer.
Calls of several threads take turns, so a run is any interleaving.

`never_reused_of_answered`: no statement is sent on a connection on which an
earlier one ended in a transport error, as long as each transport error is one
that the connector's `execute_query` answers by dropping the connection, or one
that `abort` caused with nobody left to send on that connection (`Answered`).
The bulk path drops nothing, so a scan that times out leaves its broken
connection to the next query (`bulk_reuses`).

Left out: the texts of the reports, and the figures a bulk read measures.
-/

namespace HtapStack.SparkClient
open Runs

/-! ## Statements and what they answer -/

def registeredTables : List (List Char) :=
  ["drone_latest_status".toList, "drone_events_by_entity".toList, "events".toList]

def bulkViewPrefix : List Char := "bulk_".toList

def staleViewMarkers : List (List Char) :=
  ["TABLE_OR_VIEW_NOT_FOUND".toList, "cannot be found".toList, "does not exist".toList, "UNRESOLVED_".toList]

/-- A `TTransportException`, or any other exception with its text. -/
inductive Exn where
  | transport
  | other (text : List Char)
  deriving DecidableEq, Repr

def Exn.stale : Exn → Bool
  | .transport => false
  | .other text => staleViewMarkers.any fun marker => decide (marker <:+: text)

def notConnected : Exn := .other "Spark Thrift Server not connected".toList

inductive Statement where
  | view (table : List Char)
  | bulkView (table : List Char)
  | query (sql : List Char)
  deriving DecidableEq, Repr

/-- What running and fetching raises, what closing the cursor raises, and
whether `abort` took the socket away in the meantime. -/
structure Reply where
  body : Option Exn
  close : Option Exn
  cut : Bool
  deriving DecidableEq, Repr

/-- The cursor is closed in a `finally`, so what closing it raises goes first. -/
def Reply.raised (r : Reply) : Option Exn := r.close.or r.body

def Reply.transport (r : Reply) : Bool := r.body == some .transport || r.close == some .transport

/-- What a call comes to: its rows, or the error it reports. -/
inductive Report where
  | rows
  | cancelled
  | stoppedAnswering
  | notConnected
  | failed (e : Exn)
  | connected
  deriving DecidableEq, Repr

/-! ## Calls -/

inductive Call where
  | done (report : Report)
  | ifConnected (yes no : Call)
  /-- The locked part of `connect`, and whether it worked. -/
  | connect (next : Bool → Call)
  /-- `execute` or `execute_ddl`. -/
  | send (statement : Statement) (next : Option Exn → Call)
  | readAborted (next : Bool → Call)
  /-- `_close_locked`. -/
  | close (next : Call)
  /-- `_query_lock`. -/
  | acquire (next : Call)
  | release (next : Call)
  /-- A question to the Sidecar, which may raise. -/
  | sidecar (next : Option Exn → Call)

/-- `_register_views`: whatever a registration raises is printed. -/
def registerViews (next : Call) : List (List Char) → Call
  | [] => next
  | table :: tables => .send (.view table) fun _ => registerViews next tables

def connect (registers : Bool) (next : Call) : Call :=
  .connect fun ok => if ok && registers then registerViews next registeredTables else next

def stopped (aborted : Bool) : Report := if aborted then .cancelled else .stoppedAnswering

/-- `SparkThriftClient.execute_query`. -/
def executeQuery (sql : List Char) : Call :=
  .send (.query sql) fun
    | none => .done .rows
    | some .transport => .readAborted fun aborted => .close (.done (stopped aborted))
    | some e =>
      if e.stale then
        registerViews (.send (.query sql) fun
          | none => .done .rows
          | some e => .done (.failed e)) registeredTables
      else .done (.failed e)

/-- `_run_statement`. -/
def runStatement (sql : List Char) : Call :=
  .send (.query sql) fun
    | none => .release (.done .rows)
    | some .transport => .readAborted fun aborted => .release (.done (stopped aborted))
    | some e => .release (.done (.failed e))

/-- The next thing to do, or the exception out of the locked block. -/
def orRaise (next : Call) : Option Exn → Call
  | none => next
  | some e => .release (.done (.failed e))

/-- `_register_bulk_view`, which asks the Sidecar whether an old snapshot will serve. -/
def registerBulkView (table : List Char) (reuse : Bool) (next : Call) : Call :=
  let ddl := .send (.bulkView table) (orRaise next)
  if reuse then .sidecar (orRaise ddl) else ddl

/-- The loop of the bulk `execute_query`: a view and its size for each table. -/
def bulkViews (sql : List Char) (reuse : Bool) : List (List Char) → Call
  | [] => runStatement sql
  | table :: tables => registerBulkView table reuse (.sidecar (orRaise (bulkViews sql reuse tables)))

def tablesIn (sql : List Char) : List (List Char) :=
  registeredTables.filter fun t => decide (bulkViewPrefix ++ t <:+: Py.lower sql)

/-- `SparkBulkClient.execute_query`. -/
def bulkExecuteQuery (sql : List Char) (reuse : Bool) : Call := .acquire (bulkViews sql reuse (tablesIn sql))

inductive Path where
  | connector
  | bulk
  deriving DecidableEq, Repr

/-- `register_connector_views`. -/
def Path.registers : Path → Bool
  | .connector => true
  | .bulk => false

def Path.executeQuery : Path → List Char → Bool → Call
  | .connector, sql, _ => SparkClient.executeQuery sql
  | .bulk, sql, reuse => bulkExecuteQuery sql reuse

/-- `_run`. -/
def run (path : Path) (sql : List Char) (reuse : Bool) : Call :=
  let query := path.executeQuery sql reuse
  .ifConnected query (SparkClient.connect path.registers (.ifConnected query (.done .notConnected)))

/-! ## The client and its calls -/

/-- `_conn` and `_socket` are set and cleared together. -/
structure Client where
  conn : Option Nat
  connected : Bool
  aborted : Bool
  deriving DecidableEq, Repr

def Client.init : Client := ⟨none, false, false⟩

def Client.closeLocked (c : Client) : Client := { c with conn := none, connected := false }

/-- `abort` leaves `_conn` where it is. -/
def Client.abort (c : Client) : Client :=
  if c.conn.isSome then { c with connected := false, aborted := true } else c

/-- A statement that went out on a connection, and how it ended. -/
structure Sent where
  conn : Nat
  statement : Statement
  reply : Reply
  deriving DecidableEq, Repr

/-- `sent` is history, the last statement first; no code reads it. -/
structure World where
  client : Client
  nextConn : Nat
  queryLock : Option Nat
  calls : Nat → Call
  sent : List Sent

def init : World := ⟨Client.init, 0, none, fun _ => .done .connected, []⟩

def World.set (w : World) (i : Nat) (call : Call) : World := { w with calls := Function.update w.calls i call }

inductive Action where
  /-- `_run` is called on thread `i`, for a query of this path. -/
  | query (i : Nat) (sql : List Char) (reuse : Bool)
  /-- `connect` is called, as at startup. -/
  | connect (i : Nat)
  | opened (i : Nat) (ok : Bool)
  | ended (i : Nat) (reply : Reply)
  | answered (i : Nat) (raised : Option Exn)
  /-- Any other step of the call on thread `i`. -/
  | advance (i : Nat)
  | abort

def World.begin (w : World) (i : Nat) (call : Call) : Option World :=
  match w.calls i with
  | .done _ => some (w.set i call)
  | _ => none

/-- The locked part of `connect`. A failure closes the connection there was. -/
def World.open (w : World) : Bool → World
  | true => { w with client := ⟨some w.nextConn, true, false⟩, nextConn := w.nextConn + 1 }
  | false => { w with client := w.client.closeLocked }

def World.record (w : World) (conn : Nat) (statement : Statement) (reply : Reply) : World :=
  { w with
    client := if reply.cut then w.client.abort else w.client
    sent := ⟨conn, statement, reply⟩ :: w.sent }

def World.advance (w : World) (i : Nat) : Option World :=
  match w.calls i with
  | .ifConnected yes no => some (w.set i (if w.client.connected then yes else no))
  | .readAborted next => some (w.set i (next w.client.aborted))
  | .close next => some ({ w with client := w.client.closeLocked }.set i next)
  | .acquire next => if w.queryLock.isNone then some ({ w with queryLock := some i }.set i next) else none
  | .release next => some ({ w with queryLock := none }.set i next)
  | _ => none

def World.ended (w : World) (i : Nat) (reply : Reply) : Option World :=
  match w.calls i with
  | .send statement next =>
    match w.client.conn with
    | none => some (w.set i (next (some SparkClient.notConnected)))
    | some conn => some ((w.record conn statement reply).set i (next reply.raised))
  | _ => none

def step (path : Path) (w : World) : Action → Option World
  | .query i sql reuse => w.begin i (run path sql reuse)
  | .connect i => w.begin i (SparkClient.connect path.registers (.done .connected))
  | .opened i ok =>
    match w.calls i with
    | .connect next => some ((w.open ok).set i (next ok))
    | _ => none
  | .ended i reply => w.ended i reply
  | .answered i raised =>
    match w.calls i with
    | .sidecar next => some (w.set i (next raised))
    | _ => none
  | .advance i => w.advance i
  | .abort => some { w with client := w.client.abort }

/-- No statement went out on a connection after one that ended there in a
transport error. -/
def NeverReused (w : World) : Prop :=
  w.sent.Pairwise fun later earlier => earlier.reply.transport = true → later.conn ≠ earlier.conn

instance (w : World) : Decidable (NeverReused w) := by unfold NeverReused; infer_instance

/-! ## What answers a transport error -/

/-- The next thing that the call does to the client is to drop the connection. -/
def Call.Closes : Call → Prop
  | .close _ => True
  | .readAborted next => ∀ aborted, (next aborted).Closes
  | _ => False

/-- The next thing that the call does to a client that is not connected is to
send a statement all the same. -/
def Call.Aims : Call → Prop
  | .send _ _ => True
  | .ifConnected _ no => no.Aims
  | .readAborted next => ∃ aborted, (next aborted).Aims
  | .acquire next | .release next => next.Aims
  | .sidecar next => ∃ raised, (next raised).Aims
  | .done _ | .connect _ | .close _ => False

/-- What is left of a call when its statement has ended. -/
def Call.after (r : Reply) : Call → Call
  | .send _ next => next r.raised
  | call => call

/-- `abort` caused it, and nobody is left to send on that connection. -/
structure Settled (w : World) (i : Nat) (r : Reply) : Prop where
  cut : r.cut = true
  own : ¬ ((w.calls i).after r).Aims
  others : ∀ j, j ≠ i → ¬ (w.calls j).Aims

/-- A statement goes out while no call is about to drop the connection, and if
it ends in a transport error, its call goes on to drop it or the error is settled. -/
def Answered (w : World) : Action → Prop
  | .ended i r => w.client.conn ≠ none → (∀ j, ¬ (w.calls j).Closes) ∧
      (r.transport = true → ((w.calls i).after r).Closes ∨ Settled w i r)
  | _ => True

/-- A statement ended on the connection in a transport error. -/
def World.Broken (w : World) (conn : Nat) : Prop := ∃ s ∈ w.sent, s.conn = conn ∧ s.reply.transport = true

structure Inv (w : World) : Prop where
  never : NeverReused w
  old : ∀ s ∈ w.sent, s.conn < w.nextConn
  current : ∀ conn, w.client.conn = some conn → conn < w.nextConn
  handled : ∀ conn, w.client.conn = some conn → w.Broken conn →
    (∃ i, (w.calls i).Closes) ∨ w.client.connected = false ∧ ∀ i, ¬ (w.calls i).Aims

theorem not_broken_next {w : World} (hold : ∀ s ∈ w.sent, s.conn < w.nextConn) : ¬ w.Broken w.nextConn := by
  rintro ⟨s, hs, hconn, -⟩
  have := hold s hs
  omega

/-! ## The calls of the source -/

theorem run_not_aims (path : Path) (sql : List Char) (reuse : Bool) : ¬ (run path sql reuse).Aims := by
  simp [run, connect, Call.Aims]

theorem connect_not_aims (registers : Bool) (next : Call) : ¬ (connect registers next).Aims := by
  simp [connect, Call.Aims]

/-! ## Steps -/

theorem set_closes {w : World} {i : Nat} {call : Call} (h : ¬ (w.calls i).Closes ∨ call.Closes)
    (hc : ∃ j, (w.calls j).Closes) : ∃ j, ((w.set i call).calls j).Closes := by
  obtain ⟨j, hj⟩ := hc
  by_cases hji : j = i
  · subst hji
    obtain h | h := h
    · exact absurd hj h
    · exact ⟨j, by simpa [World.set] using h⟩
  · exact ⟨j, by simpa [World.set, hji] using hj⟩

theorem set_aims {w : World} {i : Nat} {call : Call} (h : ¬ (w.calls i).Aims → ¬ call.Aims)
    (ha : ∀ j, ¬ (w.calls j).Aims) : ∀ j, ¬ ((w.set i call).calls j).Aims := by
  intro j
  by_cases hji : j = i
  · subst hji
    simpa [World.set] using h (ha j)
  · simpa [World.set, hji] using ha j

/-- A step of one call that leaves the client and the history as they are. -/
theorem Inv.set {w : World} {i : Nat} {call : Call} (hI : Inv w) (hc : ¬ (w.calls i).Closes ∨ call.Closes)
    (ha : w.client.connected = false → ¬ (w.calls i).Aims → ¬ call.Aims) : Inv (w.set i call) where
  never := hI.never
  old := hI.old
  current := hI.current
  handled := by
    intro conn hconn hb
    obtain h | ⟨hdown, h⟩ := hI.handled conn hconn hb
    · exact .inl (set_closes hc h)
    · exact .inr ⟨hdown, set_aims (ha hdown) h⟩

/-- With no connection, or a new one, nothing is left to handle. -/
theorem Inv.of_healthy {w v : World} (hI : Inv w) (hsent : v.sent = w.sent) (hnext : w.nextConn ≤ v.nextConn)
    (hconn : ∀ conn, v.client.conn = some conn → conn < v.nextConn ∧ ¬ w.Broken conn) : Inv v where
  never := by unfold NeverReused; rw [hsent]; exact hI.never
  old := by
    intro s hs
    have := hI.old s (hsent ▸ hs)
    omega
  current conn h := (hconn conn h).1
  handled := by
    rintro conn h ⟨s, hs, hb⟩
    exact absurd ⟨s, hsent ▸ hs, hb⟩ (hconn conn h).2

theorem Inv.abort {w : World} (hI : Inv w) : Inv { w with client := w.client.abort } := by
  have hconn : w.client.abort.conn = w.client.conn := by unfold Client.abort; split <;> rfl
  refine ⟨hI.never, hI.old, fun conn h => hI.current conn (hconn ▸ h), fun conn h hb => ?_⟩
  have h : w.client.conn = some conn := hconn ▸ h
  obtain hc | ⟨-, ha⟩ := hI.handled conn h hb
  · exact .inl hc
  · exact .inr ⟨by simp [Client.abort, h], ha⟩

/-- A statement goes out only on a connection that is not broken. -/
theorem Inv.healthy {w : World} (hI : Inv w) {i conn : Nat} {st : Statement} {next : Option Exn → Call}
    (hcall : w.calls i = .send st next) (hconn : w.client.conn = some conn)
    (hclose : ∀ j, ¬ (w.calls j).Closes) : ¬ w.Broken conn := by
  intro hb
  obtain ⟨j, hj⟩ | ⟨-, ha⟩ := hI.handled conn hconn hb
  · exact hclose j hj
  · exact ha i (by rw [hcall]; trivial)

theorem ended_cases {w v : World} {i : Nat} {r : Reply} (h : w.ended i r = some v) :
    ∃ st next, w.calls i = .send st next ∧
      (w.client.conn = none ∧ v = w.set i (next (some notConnected)) ∨
        ∃ conn, w.client.conn = some conn ∧ v = (w.record conn st r).set i (next r.raised)) := by
  unfold World.ended at h
  cases hcall : w.calls i with
  | send st next =>
    cases hconn : w.client.conn with
    | none => exact ⟨st, next, rfl, .inl ⟨rfl, by simpa [hcall, hconn] using h.symm⟩⟩
    | some conn => exact ⟨st, next, rfl, .inr ⟨conn, rfl, by simpa [hcall, hconn] using h.symm⟩⟩
  | _ => simp [hcall] at h

theorem record_conn {w : World} {conn : Nat} {st : Statement} {r : Reply} :
    (w.record conn st r).client.conn = w.client.conn := by
  unfold World.record Client.abort
  split <;> [split; skip] <;> rfl

theorem Inv.ended {w v : World} {i : Nat} {r : Reply} (hI : Inv w) (hC : Answered w (.ended i r))
    (h : w.ended i r = some v) : Inv v := by
  obtain ⟨st, next, hcall, ⟨hconn, rfl⟩ | ⟨conn, hconn, rfl⟩⟩ := ended_cases h
  · exact hI.of_healthy rfl le_rfl fun conn h => by cases hconn.symm.trans h
  · obtain ⟨hclose, hanswer⟩ := hC (by simp [hconn])
    have hb := hI.healthy hcall hconn hclose
    have hlt := hI.current conn hconn
    have hsame : ∀ c, (w.record conn st r).client.conn = some c → c = conn := fun c hc => by
      rw [record_conn, hconn] at hc
      exact (Option.some.inj hc).symm
    refine ⟨?_, ?_, fun c hc => hsame c hc ▸ hlt, ?_⟩
    · -- no statement before it on this connection broke it
      exact List.pairwise_cons.2 ⟨fun s hs ht heq => hb ⟨s, hs, heq.symm, ht⟩, hI.never⟩
    · intro s hs
      obtain rfl | hs := List.mem_cons.1 hs
      · exact hlt
      · exact hI.old s hs
    · rintro c hc ⟨s, hs, hsc, ht⟩
      cases hsame c hc
      obtain rfl | hs := List.mem_cons.1 hs
      · obtain h | h := hanswer ht
        · rw [hcall] at h
          exact .inl ⟨i, by simpa [World.set, Call.after] using h⟩
        · refine .inr ⟨by simp [World.set, World.record, h.cut, Client.abort, hconn], fun j => ?_⟩
          have hown := h.own
          rw [hcall] at hown
          by_cases hji : j = i
          · subst hji
            simpa [World.set, Call.after] using hown
          · simpa [World.set, World.record, hji] using h.others j hji
      · exact absurd ⟨s, hs, hsc, ht⟩ hb

theorem Inv.advance {w v : World} {i : Nat} (hI : Inv w) (h : w.advance i = some v) : Inv v := by
  unfold World.advance at h
  cases hcall : w.calls i with
  | ifConnected yes no =>
    simp only [hcall, Option.some.injEq] at h
    subst h
    refine hI.set (.inl (by simp [hcall, Call.Closes])) fun hdown ha => ?_
    rw [hcall] at ha
    simpa [hdown, Call.Aims] using ha
  | readAborted next =>
    simp only [hcall, Option.some.injEq] at h
    subst h
    refine hI.set ?_ fun _ ha => ?_
    · by_cases hc : (w.calls i).Closes
      · rw [hcall] at hc
        exact .inr (hc _)
      · exact .inl hc
    · rw [hcall] at ha
      exact fun h => ha ⟨_, h⟩
  | close next =>
    simp only [hcall, Option.some.injEq] at h
    subst h
    exact hI.of_healthy rfl le_rfl (by simp [World.set, Client.closeLocked])
  | acquire next =>
    simp only [hcall, Option.ite_none_right_eq_some, Option.some.injEq] at h
    obtain ⟨-, rfl⟩ := h
    exact Inv.set (w := { w with queryLock := some i }) ⟨hI.never, hI.old, hI.current, hI.handled⟩
      (.inl (by simp [hcall, Call.Closes])) fun _ ha => by simpa [hcall, Call.Aims] using ha
  | release next =>
    simp only [hcall, Option.some.injEq] at h
    subst h
    exact Inv.set (w := { w with queryLock := none }) ⟨hI.never, hI.old, hI.current, hI.handled⟩
      (.inl (by simp [hcall, Call.Closes])) fun _ ha => by simpa [hcall, Call.Aims] using ha
  | _ => simp [hcall] at h

theorem Inv.begin {w v : World} {i : Nat} {call : Call} (hI : Inv w) (hcall : ¬ call.Aims)
    (h : w.begin i call = some v) : Inv v := by
  unfold World.begin at h
  split at h <;> cases h
  rename_i hdone
  exact hI.set (.inl (by simp [hdone, Call.Closes])) fun _ _ => hcall

theorem Inv.open {w : World} (hI : Inv w) (i : Nat) (call : Call) (ok : Bool) : Inv ((w.open ok).set i call) := by
  cases ok with
  | true =>
    refine hI.of_healthy rfl (Nat.le_succ _) fun conn h => ?_
    obtain rfl : w.nextConn = conn := by simpa [World.set, World.open] using h
    exact ⟨Nat.lt_succ_self _, not_broken_next hI.old⟩
  | false => exact hI.of_healthy rfl le_rfl (by simp [World.set, World.open, Client.closeLocked])

theorem inv_init : Inv init := ⟨.nil, by simp [init], by simp [init, Client.init], by simp [init, Client.init]⟩

theorem inv_step {path : Path} {w v : World} {a : Action} (hI : Inv w) (hC : Answered w a)
    (h : step path w a = some v) : Inv v := by
  cases a with
  | query i sql reuse => exact hI.begin (run_not_aims path sql reuse) h
  | connect i => exact hI.begin (connect_not_aims _ _) h
  | opened i ok =>
    simp only [step] at h
    split at h <;> cases h
    exact hI.open i _ ok
  | ended i r => exact hI.ended hC h
  | answered i raised =>
    simp only [step] at h
    split at h <;> cases h
    rename_i next hcall
    refine hI.set (.inl (by simp [hcall, Call.Closes])) fun _ ha => ?_
    rw [hcall] at ha
    exact fun h => ha ⟨raised, h⟩
  | advance i => exact hI.advance h
  | abort =>
    cases h
    exact hI.abort

/-- A broken connection is never reused as long as every transport error is
answered: in any interleaving of the calls, connects and aborts. -/
theorem never_reused_of_answered (path : Path) (as : List Action) (h : Each (step path) Answered init as) :
    Always (step path) NeverReused init as :=
  always_of_each (fun _ _ _ hI hC hs => inv_step hI hC hs) (fun _ hI => hI.never) inv_init h

/-! ## One call at a time -/

instance Call.decidableCloses : (call : Call) → Decidable call.Closes
  | .close _ => isTrue trivial
  | .readAborted next =>
    have := fun aborted => decidableCloses (next aborted)
    inferInstanceAs (Decidable (∀ aborted, (next aborted).Closes))
  | .done _ | .ifConnected _ _ | .connect _ | .send _ _ | .acquire _ | .release _ | .sidecar _ => isFalse id

/-- The thread that the action belongs to; a cancel of the run belongs to none. -/
def Action.thread : Action → Option Nat
  | .query i _ _ | .connect i | .opened i _ | .ended i _ | .answered i _ | .advance i => some i
  | .abort => none

/-- A step leaves the calls of other threads as they are. -/
theorem step_calls {path : Path} {w v : World} {a : Action} {j : Nat} (h : step path w a = some v)
    (hj : a.thread ≠ some j) : v.calls j = w.calls j := by
  have hset (u : World) (i : Nat) (call : Call) (hi : some i ≠ some j) : (u.set i call).calls j = u.calls j := by
    have hji : j ≠ i := fun h => hi (congrArg some h.symm)
    simp [World.set, hji]
  cases a with
  | query i | connect i =>
    simp only [step, World.begin] at h
    split at h <;> cases h
    exact hset w i _ hj
  | opened i ok =>
    simp only [step] at h
    split at h <;> cases h
    rw [hset (w.open ok) i _ hj]
    cases ok <;> rfl
  | ended i r =>
    obtain ⟨st, next, -, ⟨-, rfl⟩ | ⟨conn, -, rfl⟩⟩ := ended_cases h
    · exact hset w i _ hj
    · exact hset (w.record conn st r) i _ hj
  | answered i =>
    simp only [step] at h
    split at h <;> cases h
    exact hset w i _ hj
  | advance i =>
    simp only [step, World.advance] at h
    split at h
    case h_4 =>
      split at h <;> cases h
      exact hset { w with queryLock := some i } i _ hj
    all_goals cases h
    · exact hset w i _ hj
    · exact hset w i _ hj
    · exact hset { w with client := w.client.closeLocked } i _ hj
    · exact hset { w with queryLock := none } i _ hj
  | abort =>
    cases h
    rfl

def Alone (w : World) : Prop := ∀ i, i ≠ 0 → ∃ report, w.calls i = .done report

/-- One thread makes every call, and each transport error is one whose call goes
on to drop the connection. -/
def OneAtATime (w : World) (a : Action) : Prop :=
  (a.thread = none ∨ a.thread = some 0) ∧
    ∀ i r, a = .ended i r → r.transport = true → ((w.calls i).after r).Closes

instance : ∀ w a, Decidable (OneAtATime w a)
  | w, a =>
    have : Decidable (∀ i r, a = .ended i r → r.transport = true → ((w.calls i).after r).Closes) :=
      match a with
      | .ended i r => decidable_of_iff (r.transport = true → ((w.calls i).after r).Closes)
          ⟨fun h _ _ ha => by cases ha; exact h, fun h => h i r rfl⟩
      | .query .. | .connect _ | .opened .. | .answered .. | .advance _ | .abort => isTrue (by rintro _ _ ⟨⟩)
    inferInstanceAs (Decidable (_ ∧ _))

theorem alone_step {path : Path} {w v : World} {a : Action} (hw : Alone w) (ha : OneAtATime w a)
    (h : step path w a = some v) : Alone v := by
  intro i hi
  rw [step_calls h ?_]
  · exact hw i hi
  · obtain ha | ha := ha.1
    · simp [ha]
    · simpa [ha] using Ne.symm hi

theorem answered_of_alone {path : Path} {w v : World} {a : Action} (hw : Alone w) (ha : OneAtATime w a)
    (h : step path w a = some v) : Answered w a := by
  cases a with
  | ended i r =>
    refine fun _ => ⟨fun j => ?_, fun ht => .inl (ha.2 i r rfl ht)⟩
    obtain ⟨st, next, hcall, -⟩ := ended_cases h
    by_cases hj : j = 0
    · -- the thread that sends is not about to drop the connection
      obtain rfl : i = 0 := by simpa [Action.thread] using ha.1
      simp [hj, hcall, Call.Closes]
    · obtain ⟨report, hj⟩ := hw j hj
      simp [hj, Call.Closes]
  | _ => trivial

theorem each_answered_of_alone {path : Path} {as : List Action} (h : Each (step path) OneAtATime init as) :
    Each (step path) Answered init as :=
  h.imp (fun _ _ _ => alone_step) (fun _ _ _ => answered_of_alone) fun _ _ => ⟨_, rfl⟩

/-! ## One run of each path -/

def Reply.ok : Reply := ⟨none, none, false⟩
def Reply.timedOut : Reply := ⟨some .transport, none, false⟩

/-- The connector connects, registers its views, and its query times out. -/
def timedOutQuery (sql : List Char) : List Action :=
  [.query 0 sql false, .advance 0, .opened 0 true, .ended 0 .ok, .ended 0 .ok, .ended 0 .ok, .advance 0,
    .ended 0 .timedOut, .advance 0, .advance 0]

theorem never_reused_timedOutQuery :
    Always (step .connector) NeverReused init (timedOutQuery "SELECT 1".toList ++ timedOutQuery "SELECT 2".toList) :=
  never_reused_of_answered .connector _ (each_answered_of_alone (by decide))

/-- The bulk path's SELECT times out, and the next query's view is sent on the
same connection. -/
def bulkTwice (sql : List Char) : List Action :=
  [.query 0 sql false, .advance 0, .opened 0 true, .advance 0, .advance 0, .ended 0 .ok, .answered 0 none,
    .ended 0 .timedOut, .advance 0, .advance 0, .query 0 sql false, .advance 0, .advance 0, .ended 0 .ok]

theorem bulk_reuses : ∃ as w, exec (step .bulk) init as = some w ∧ ¬ NeverReused w := by
  refine ⟨bulkTwice "SELECT * FROM bulk_events".toList, _, rfl, ?_⟩
  decide

end HtapStack.SparkClient
