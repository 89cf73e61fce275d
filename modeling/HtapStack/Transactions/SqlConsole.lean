import HtapStack.Lib.Runs
import HtapStack.Lib.TxnBlock
import Mathlib.Logic.Function.Basic
/-!
# The SQL console

`backend/app/routes/sql_console.py` over the client of
`backend/app/db/accord_sql_client.py`, whose one connection every request runs its
strings on: a request proves the connection, takes the console's lock or is refused,
and sends its strings one by one. A string that raises drops the connection. The
schema explorer's queries go over the same connection, without the lock.

- `requests_isolated`: as long as no string sent leaves a transaction block open,
  nothing that a request sends runs in a block of another request, and no request
  decides on what another one wrote, whatever fails and whoever moves next.
- `open_block_shared`: a string that leaves a block open puts what the next request
  sends into it.

The server's session is that of `TxnBlock`; how it reads a string is a parameter.

Left out: how long a string took.
-/

namespace HtapStack.SqlConsole
open Runs TxnBlock

abbrev Text := List Char
abbrev Sql := Text
abbrev Conn := Option (Session Nat)

/-- `parse` is how the server reads a string. `quirks` are the probes with their controls. -/
structure Config where
  parse : Sql → List Stmt
  schemaStatements : List Sql
  seedStatements : List Sql
  resetStatements : List Sql
  quirks : List (Sql × Sql)

/-! ## The client -/

/-- `_open`, which raises unless the server answers. -/
def openConn (opens : Bool) : Conn := if opens then some .fresh else none

/-- `SELECT 1` is refused in a failed block. -/
def answers (s : Session Nat) (probe : Bool) : Bool :=
  match s.block with
  | .failed _ => false
  | _ => probe

/-- `ensure_ready`, which returns whether there is a connection. -/
def ensureReady (conn : Conn) (probe opens : Bool) : Conn :=
  match conn with
  | some s => if answers s probe then some s else openConn opens
  | none => openConn opens

/-- What a string meets: whether a connection can be opened if there is none, how its statements fare, what the
cursor shows of the first result (no `description` if its statement returns no rows, none fetched if that raises), and
what an exception says. -/
structure Outcome where
  opens : Bool
  fates : List Fate
  description : Option (List Text)
  fetched : Option (List (List (Option Text)))
  error : Text

abbrev Result := Except Text (List Text × List (List (Option Text)))

/-- What `execute` makes of the server's answer. A connection that is dropped undoes what it has not committed. -/
def reply (i : Nat) (a : Answer Nat) (o : Outcome) : Conn × List (Event Nat) × Result :=
  let dropped := (none, a.events ++ [.ended i a.session.writers], .error o.error)
  if a.raised then dropped
  else
    match o.description, o.fetched with
    | none, _ => (some a.session, a.events, .ok ([], []))
    | some columns, some rows => (some a.session, a.events, .ok (columns, rows))
    | some _, none => dropped

/-- `execute`, for request `i`. -/
def execute (C : Config) (i : Nat) (conn : Conn) (sql : Sql) (o : Outcome) : Conn × List (Event Nat) × Result :=
  match conn.or (openConn o.opens) with
  | none => (none, [], .error o.error)
  | some s => reply i (s.message i (C.parse sql) o.fates) o

/-! ## The routes -/

/-- `MAX_ROWS`. -/
def maxRows : Nat := 500

structure SqlStatementResult where
  sql : Sql
  columns : List Text
  rows : List (List (Option Text))
  rowCount : Nat
  error : Option Text
  deriving DecidableEq, Repr

/-- `_run_one`. -/
def runOne (sql : Sql) : Result → SqlStatementResult
  | .error error => ⟨sql, [], [], 0, some error⟩
  | .ok (columns, rows) => ⟨sql, columns, rows.take maxRows, rows.length, none⟩

structure SqlConsoleResult where
  statements : List SqlStatementResult
  errorCount : Nat
  deriving DecidableEq, Repr

/-- The end of `_run_many`. An error that says nothing is not counted. -/
def consoleResult (results : List SqlStatementResult) : SqlConsoleResult :=
  ⟨results, results.countP fun r => r.error.any (!·.isEmpty)⟩

inductive Route where
  | execute (sql : Sql)
  | schema
  | reset
  | quirks
  | tables

/-- `min_length=1`. -/
def Route.Admitted : Route → Prop
  | .execute sql => sql ≠ []
  | _ => True

instance (route : Route) : Decidable route.Admitted := by
  cases route <;> unfold Route.Admitted <;> infer_instance

def countSql (table : String) : Sql := "SELECT COUNT(*) AS n FROM ".toList ++ table.toList ++ ";".toList

/-- The strings that a route sends. -/
def Route.strings (C : Config) : Route → List Sql
  | .execute sql => [sql]
  | .schema => C.schemaStatements ++ C.seedStatements
  | .reset => C.resetStatements ++ C.schemaStatements ++ C.seedStatements
  | .quirks => C.quirks.flatMap fun quirk => [quirk.1, quirk.2]
  | .tables => ["operators", "drones", "zones", "flights", "flight_legs"].map countSql

inductive Response where
  | unavailable
  | conflict
  | result (r : SqlConsoleResult)
  deriving DecidableEq, Repr

/-- Where a request is, with the strings it has still to send. `exploring` is one to the schema explorer. -/
inductive Line where
  | absent
  | exploring
  | requested (strings : List Sql)
  | ready (strings : List Sql)
  | running (strings : List Sql) (results : List SqlStatementResult)
  | answered (response : Response)

/-- `conn` is the client's `_conn` and `lock` the holder of the routes' `_lock`. -/
structure World where
  conn : Conn
  lock : Option Nat
  lines : Nat → Line
  log : List (Event Nat)

def init : World := ⟨none, none, fun _ => .absent, []⟩

def World.set (w : World) (i : Nat) (line : Line) : World := { w with lines := Function.update w.lines i line }

/-- A call of `execute` for request `i`. -/
def World.sends (C : Config) (w : World) (i : Nat) (sql : Sql) (o : Outcome) : World :=
  { w with
    conn := (SqlConsole.execute C i w.conn sql o).1
    log := w.log ++ (SqlConsole.execute C i w.conn sql o).2.1 }

/-- What happens next. -/
inductive Action where
  /-- `connect`, when the backend starts. -/
  | connect (opens : Bool)
  /-- `/status`. -/
  | status (probe opens : Bool)
  | request (i : Nat) (route : Route)
  /-- `_require_connection`. -/
  | require (i : Nat) (probe opens : Bool)
  | acquire (i : Nat)
  | execute (i : Nat) (o : Outcome)
  | release (i : Nat)
  /-- The schema explorer sends a query. -/
  | explore (i : Nat) (sql : Sql) (o : Outcome)

def step (C : Config) (w : World) : Action → Option World
  | .connect opens => some { w with conn := openConn opens }
  | .status probe opens => some { w with conn := ensureReady w.conn probe opens }
  | .request i route =>
    match w.lines i with
    | .absent => if route.Admitted then some (w.set i (.requested (route.strings C))) else none
    | _ => none
  | .require i probe opens =>
    match w.lines i with
    | .requested strings =>
      let conn := ensureReady w.conn probe opens
      some (World.set { w with conn := conn } i (if conn.isSome then .ready strings else .answered .unavailable))
    | _ => none
  | .acquire i =>
    match w.lines i, w.lock with
    | .ready strings, none => some (World.set { w with lock := some i } i (.running strings []))
    | .ready _, some _ => some (w.set i (.answered .conflict))
    | _, _ => none
  | .execute i o =>
    match w.lines i with
    | .running (sql :: strings) results =>
      some ((w.sends C i sql o).set i
        (.running strings (results ++ [runOne sql (SqlConsole.execute C i w.conn sql o).2.2])))
    | _ => none
  | .release i =>
    match w.lines i with
    | .running [] results => some (World.set { w with lock := none } i (.answered (.result (consoleResult results))))
    | _ => none
  | .explore i sql o =>
    match w.lines i with
    | .absent | .exploring => some ((w.sends C i sql o).set i .exploring)
    | _ => none

/-! ## Statements -/

/-- No statement has run in a block of another request, and none has ended what another one wrote. -/
def Isolated (w : World) : Prop := ∀ e ∈ w.log, e.Own

/-- The string closes the block that it opens. -/
def Closes (C : Config) (sql : Sql) : Prop := leavesOpen false (C.parse sql) = false

/-- What is sent over the connection closes what it opens. -/
def Whole (C : Config) (_ : World) : Action → Prop
  | .request _ route => ∀ sql ∈ route.strings C, Closes C sql
  | .explore _ sql _ => Closes C sql
  | _ => True

instance (C : Config) (sql : Sql) : Decidable (Closes C sql) := inferInstanceAs (Decidable (_ = _))

instance (C : Config) (w : World) (a : Action) : Decidable (Whole C w a) := by
  cases a <;> unfold Whole <;> infer_instance

section
variable {C : Config} {w v : World} {i : Nat}

/-! ## One string -/

theorem openConn_fresh {opens : Bool} {s : Session Nat} (h : openConn opens = some s) : s = .fresh := by
  unfold openConn at h
  split at h <;> cases h
  rfl

theorem ensureReady_fresh {conn : Conn} (hconn : ∀ s, conn = some s → s = .fresh) {probe opens : Bool} {s : Session Nat}
    (h : ensureReady conn probe opens = some s) : s = .fresh := by
  unfold ensureReady at h
  split at h
  · split at h
    · exact hconn s h
    · exact openConn_fresh h
  · exact openConn_fresh h

/-- The connection is dropped, or what ran has run to its end. -/
theorem reply_cases (i : Nat) (a : Answer Nat) (o : Outcome) :
    reply i a o = (none, a.events ++ [.ended i a.session.writers], .error o.error) ∨
      a.raised = false ∧ ∃ result, reply i a o = (some a.session, a.events, .ok result) := by
  unfold reply
  cases a.raised with
  | true => exact .inl rfl
  | false =>
    cases o.description with
    | none => exact .inr ⟨rfl, _, rfl⟩
    | some columns =>
      cases o.fetched with
      | none => exact .inl rfl
      | some rows => exact .inr ⟨rfl, _, rfl⟩

/-- A string that closes what it opens leaves a connection as good as new, or none. -/
theorem execute_closes {conn : Conn} (hconn : ∀ s, conn = some s → s = .fresh) {sql : Sql} (hsql : Closes C sql)
    (o : Outcome) :
    (∀ s, (execute C i conn sql o).1 = some s → s = .fresh) ∧ ∀ e ∈ (execute C i conn sql o).2.1, e.Own := by
  unfold execute
  cases hopened : conn.or (openConn o.opens) with
  | none => exact ⟨fun _ h => (nomatch h), fun _ h => nomatch h⟩
  | some s =>
    have hs : s = .fresh := by
      rcases Option.or_eq_some_iff.1 hopened with h | ⟨-, h⟩
      · exact hconn s h
      · exact openConn_fresh h
    subst hs
    obtain ⟨hown, hof⟩ := message_own (of_fresh i) (C.parse sql) o.fates
    rcases reply_cases i (Session.fresh.message i (C.parse sql) o.fates) o with h | ⟨hraised, result, h⟩
    · simp only [h]
      refine ⟨fun _ h => (nomatch h), List.forall_mem_append.2 ⟨hown, fun e he => ?_⟩⟩
      rw [List.mem_singleton.1 he]
      exact hof.writers
    · simp only [h]
      exact ⟨fun _ h => (Option.some.inj h).symm.trans (message_closed in_fresh hsql hraised), hown⟩

/-! ## Steps -/

def Line.strings : Line → List Sql
  | .requested strings | .ready strings | .running strings _ => strings
  | _ => []

/-- Between any two strings the connection is as good as new. -/
structure Inv (C : Config) (w : World) : Prop where
  conn : ∀ s, w.conn = some s → s = .fresh
  lines : ∀ i, ∀ sql ∈ (w.lines i).strings, Closes C sql
  isolated : Isolated w

theorem set_lines_self (w : World) (i : Nat) (line : Line) : (w.set i line).lines i = line := Function.update_self ..

theorem set_lines_of_ne (w : World) {i j : Nat} (h : j ≠ i) (line : Line) : (w.set i line).lines j = w.lines j :=
  Function.update_of_ne h ..

theorem Inv.set (hw : Inv C w) {line : Line} (hline : ∀ sql ∈ line.strings, Closes C sql) : Inv C (w.set i line) where
  conn := hw.conn
  lines j := by
    rcases eq_or_ne j i with rfl | hji
    · rw [set_lines_self]
      exact hline
    · rw [set_lines_of_ne w hji]
      exact hw.lines j
  isolated := hw.isolated

theorem Inv.relock (hw : Inv C w) (lock : Option Nat) : Inv C { w with lock := lock } :=
  ⟨hw.conn, hw.lines, hw.isolated⟩

theorem Inv.ready (hw : Inv C w) (probe opens : Bool) : Inv C { w with conn := ensureReady w.conn probe opens } :=
  ⟨fun _ => ensureReady_fresh hw.conn, hw.lines, hw.isolated⟩

theorem Inv.sends (hw : Inv C w) {sql : Sql} (hsql : Closes C sql) (o : Outcome) : Inv C (w.sends C i sql o) := by
  obtain ⟨hconn, hown⟩ := execute_closes (i := i) hw.conn hsql o
  exact ⟨hconn, hw.lines, List.forall_mem_append.2 ⟨hw.isolated, hown⟩⟩

theorem Inv.step {a : Action} (hw : Inv C w) (hwhole : Whole C w a) (h : step C w a = some v) : Inv C v := by
  cases a with
  | connect opens =>
    cases h
    exact ⟨fun _ => openConn_fresh, hw.lines, hw.isolated⟩
  | status probe opens =>
    cases h
    exact hw.ready probe opens
  | request i route =>
    simp only [SqlConsole.step] at h
    split at h
    · split at h <;> cases h
      exact hw.set hwhole
    · cases h
  | require i probe opens =>
    have hline := hw.lines i
    simp only [SqlConsole.step] at h
    split at h
    · next strings hi =>
      cases h
      rw [hi] at hline
      refine (hw.ready probe opens).set ?_
      split
      · exact hline
      · exact fun _ hsql => nomatch hsql
    · cases h
  | acquire i =>
    have hline := hw.lines i
    simp only [SqlConsole.step] at h
    split at h
    · next hi _ =>
      cases h
      rw [hi] at hline
      exact (hw.relock _).set hline
    · cases h
      exact hw.set fun _ hsql => nomatch hsql
    · cases h
  | execute i o =>
    have hline := hw.lines i
    simp only [SqlConsole.step] at h
    split at h
    · next hi =>
      cases h
      rw [hi] at hline
      obtain ⟨hsql, hstrings⟩ := List.forall_mem_cons.1 hline
      exact (hw.sends hsql o).set hstrings
    · cases h
  | release i =>
    simp only [SqlConsole.step] at h
    split at h
    · cases h
      exact (hw.relock _).set fun _ hsql => nomatch hsql
    · cases h
  | explore i sql o =>
    simp only [SqlConsole.step] at h
    split at h
    · cases h
      exact (hw.sends hwhole o).set fun _ hsql => nomatch hsql
    · cases h
      exact (hw.sends hwhole o).set fun _ hsql => nomatch hsql
    · cases h

/-! ## Runs -/

theorem inv_init (C : Config) : Inv C init :=
  ⟨fun _ h => (nomatch h), fun _ _ h => (nomatch h), fun _ h => nomatch h⟩

/-- Requests whose strings close what they open are isolated, whatever fails and whoever moves next. -/
theorem requests_isolated (C : Config) (as : List Action) (h : Each (SqlConsole.step C) (Whole C) init as) :
    Always (SqlConsole.step C) Isolated init as :=
  always_of_each (I := Inv C) (fun _ _ _ => Inv.step) (fun _ hw => hw.isolated) (inv_init C) h

/-- A statement, by its first word. -/
def kind (statement : List Char) : Option Stmt :=
  let text := statement.dropWhile (·.isWhitespace)
  if text.isEmpty then none
  else if "BEGIN".toList.isPrefixOf text then some .begin
  else if "COMMIT".toList.isPrefixOf text then some (.commit false)
  else if "ROLLBACK".toList.isPrefixOf text then some (.rollback false)
  else some .plain

/-- A server that reads strings without quoted semicolons. -/
def plainServer : Config := ⟨fun sql => (sql.splitOn ';').filterMap kind, [], [], [], []⟩

def rollbackPreset : Sql :=
  "BEGIN;\nINSERT INTO flights (flight_id) VALUES (9099);\nROLLBACK;\nSELECT flight_id FROM flights;".toList

/-- Nothing fails, and the last statement has no result. -/
def allOk : Outcome := ⟨true, [], none, none, []⟩

/-- The second request is refused, as the first one's string loses the connection. -/
theorem requests_isolated_two : Always (SqlConsole.step plainServer) Isolated init
    [.request 0 (.execute rollbackPreset), .request 1 .tables, .require 0 true true, .require 1 true true, .acquire 0,
      .acquire 1, .execute 0 { allOk with fates := [.ok, .lost] }, .release 0] :=
  requests_isolated plainServer _ (by decide +kernel)

/-! ## A block left open -/

/-- One request to `/execute`, served with nobody in its way. -/
def serve (i : Nat) (sql : Sql) : List Action :=
  [.request i (.execute sql), .require i true true, .acquire i, .execute i allOk, .release i]

/-- What it leaves, once its string has been answered with `r`. -/
def World.served (w : World) (i : Nat) (sql : Sql) (r : Conn × List (Event Nat) × Result) : World :=
  World.set { w with conn := r.1, lock := none, log := w.log ++ r.2.1 } i
    (.answered (.result (consoleResult [runOne sql r.2.2])))

theorem exec_serve {s : Session Nat} {sql : Sql} (hsql : sql ≠ []) (hline : w.lines i = .absent)
    (hlock : w.lock = none) (hconn : ensureReady w.conn true true = some s) :
    exec (SqlConsole.step C) w (serve i sql) =
      some (w.served i sql (reply i (s.message i (C.parse sql) []) allOk)) := by
  simp only [serve, exec, SqlConsole.step, hline, Route.Admitted, hsql, Option.bind_some, World.set,
    Function.update_self, Function.update_idem, hconn, hlock, Route.strings, World.sends, execute, ne_eq,
    not_false_eq_true, if_true, Option.isSome_some, Option.some_or, List.nil_append, World.served]
  rfl

/-- A string that leaves a block open puts the next request's statements into it. -/
theorem open_block_shared (sql next : Sql) (hsql : sql ≠ []) (hnext : next ≠ [])
    (hopen : leavesOpen false (C.parse sql) = true) (hparse : C.parse next ≠ []) :
    ¬ Always (SqlConsole.step C) Isolated init (serve 0 sql ++ serve 1 next) := by
  intro h
  obtain ⟨hok, opener, hblock⟩ := message_opened (r := 0) (R := Nat) in_fresh hopen
  have hopener : opener = 0 := (message_own (of_fresh 0) (C.parse sql) []).2.opener opener (by rw [hblock]; rfl)
  subst hopener
  have hfirst : reply 0 (Session.fresh.message 0 (C.parse sql) []) allOk =
      (some (Session.fresh.message 0 (C.parse sql) []).session, (Session.fresh.message 0 (C.parse sql) []).events,
        .ok ([], [])) := by
    rw [reply, hok]
    rfl
  have hserved := exec_serve (C := C) (w := init) (i := 0) hsql rfl rfl rfl
  rw [hfirst] at hserved
  generalize Session.fresh.message 0 (C.parse sql) [] = a at hserved hblock
  -- The probe answers in the open block, so the connection is kept.
  have hready : ensureReady (some a.session) true true = some a.session := by simp [ensureReady, answers, hblock]
  have hrun := (exec_append hserved).trans (exec_serve (i := 1) hnext rfl rfl hready)
  have hran := ran_mem_message 1 a.session [] hparse
  rw [hblock] at hran
  have hmem : Event.ran 1 (some 0) ∈ (reply 1 (a.session.message 1 (C.parse next) []) allOk).2.1 := by
    rcases reply_cases 1 (a.session.message 1 (C.parse next) []) allOk with hr | ⟨-, result, hr⟩
    · rw [hr]
      exact List.mem_append_left _ hran
    · rw [hr]
      exact hran
  cases h.last hrun _ (List.mem_append_right _ hmem) 0 rfl

/-- The second request takes back what the first one was told has been done. -/
theorem open_block_rolled_back : ¬ ∀ as, Always (SqlConsole.step plainServer) Isolated init as := fun h =>
  open_block_shared "BEGIN;\nUPDATE zones SET capacity = 0 WHERE zone_id = 3003;".toList "ROLLBACK;".toList
    (by decide) (by decide) (by decide +kernel) (by decide +kernel) (h _)

end

end HtapStack.SqlConsole
