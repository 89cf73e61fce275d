import HtapStack.Lib.Cql
import HtapStack.Lib.Runs
/-!
# Session timelines

The first Accord demonstration of `backend/app/routes/transactions.py`: append
an event to a session's timeline if the session is open, its sequence number has
not been applied and the one before it has. `timeline_in_order`: whatever
sessions are opened and whatever steps are attempted, in any order, a session's
timeline is a prefix of the sequence numbers and its rows never change.

Left out: how long a step took, and the repeats that are only timed.
-/

namespace HtapStack.Session
open Cql Runs

structure TimelineRow where
  eventId : Nat
  eventTime : Int
  eventType : String
  payload : String
  deriving DecidableEq, Repr

/-- The three transactional tables. The first two hold nothing but their keys. -/
structure Db where
  sessionsOpen : Table (String × Nat) Unit
  sessionSeqApplied : Table (String × Nat × Int) Unit
  sessionTimeline : Table (String × Nat × Int) TimelineRow

def empty : Db := ⟨∅, ∅, ∅⟩

/-! ## The statement -/

/-- `LET session_ok = (SELECT session_id FROM sessions_open WHERE ...)`. -/
def sessionOk (user : String) (session : Nat) : Let Db where
  name := "session_ok"
  read db := (db.sessionsOpen.lookup (user, session)).map fun _ => [("session_id", some (.uuid session))]

/-- `LET name = (SELECT seq FROM session_seq_applied WHERE ...)`. -/
def seqApplied (name : String) (user : String) (session : Nat) (seq : Int) : Let Db where
  name := name
  read db := (db.sessionSeqApplied.lookup (user, session, seq)).map fun _ => [("seq", some (.bigint seq))]

def insertTimeline (user : String) (session : Nat) (seq : Int) (eventId : Nat) (eventTime : Int)
    (eventType payload : String) (db : Db) : Db :=
  { db with sessionTimeline :=
      db.sessionTimeline.insert (user, session, seq) ⟨eventId, eventTime, eventType, payload⟩ }

def insertApplied (user : String) (session : Nat) (seq : Int) (db : Db) : Db :=
  { db with sessionSeqApplied := db.sessionSeqApplied.insert (user, session, seq) () }

/-- The transaction that appends one event. `seq = 0` has no predecessor, so the
third guard, its projection and its condition are there for `seq > 0` only. -/
def applyCql (seq : Int) : Binder (Txn Db) := do
  let sessionOk ← sessionOk <$> bindText <*> bindUuid
  let already ← seqApplied "already" <$> bindText <*> bindUuid <*> bindBigint
  let prevOk ← if seq > 0 then
      (fun u s q => [seqApplied "prev_ok" u s q]) <$> bindText <*> bindUuid <*> bindBigint
    else pure []
  let timeline ← insertTimeline <$> bindText <*> bindUuid <*> bindBigint <*> bindUuid <*> bindTimestamp
    <*> bindText <*> bindText
  let applied ← insertApplied <$> bindText <*> bindUuid <*> bindBigint
  let condition := Cond.and (.rowIsNotNull "session_ok") (.rowIsNull "already")
  pure {
    lets := [sessionOk, already] ++ prevOk
    select := [("session_ok", "session_id"), ("already", "seq")] ++
      if seq > 0 then [("prev_ok", "seq")] else []
    cond := if seq > 0 then .and condition (.rowIsNotNull "prev_ok") else condition
    writes := fun db => applied (timeline db) }

/-- Bind values for `applyCql`, in the order the statement reads them. -/
def applyParams (user : String) (session : Nat) (seq : Int) (row : TimelineRow) : List Value :=
  [Value.text user, .uuid session, .text user, .uuid session, .bigint seq] ++
  (if seq > 0 then [Value.text user, .uuid session, .bigint (seq - 1)] else []) ++
  [Value.text user, .uuid session, .bigint seq, .uuid row.eventId, .timestamp row.eventTime,
    .text row.eventType, .text row.payload] ++
  [Value.text user, .uuid session, .bigint seq]

/-- Why the `IF` did not fire, read out of the projection. -/
def reason (seq : Int) (projection : Dict) : String :=
  if projection.isEmpty then
    "the transaction projected nothing, so its guards cannot be read"
  else if (projection.get "session_ok.session_id").isNone then
    "the session is not open"
  else if (projection.get "already.seq").isSome then
    "seq=" ++ toString seq ++ " was already applied, so the replay changed nothing"
  else if seq > 0 ∧ (projection.get "prev_ok.seq").isNone then
    "seq=" ++ toString (seq - 1) ++ " has not been applied, so seq=" ++ toString seq ++ " would leave a gap"
  else ""

/-! ## The transaction bound -/

/-- `applyCql` with `applyParams` in place of its `?`. -/
def applyTxn (user : String) (session : Nat) (seq : Int) (row : TimelineRow) : Txn Db where
  lets := [sessionOk user session, seqApplied "already" user session seq] ++
    if seq > 0 then [seqApplied "prev_ok" user session (seq - 1)] else []
  select := [("session_ok", "session_id"), ("already", "seq")] ++
    if seq > 0 then [("prev_ok", "seq")] else []
  cond := if seq > 0 then
      .and (.and (.rowIsNotNull "session_ok") (.rowIsNull "already")) (.rowIsNotNull "prev_ok")
    else .and (.rowIsNotNull "session_ok") (.rowIsNull "already")
  writes db := insertApplied user session seq
    (insertTimeline user session seq row.eventId row.eventTime row.eventType row.payload db)

theorem applyCql_params (user : String) (session : Nat) (seq : Int) (row : TimelineRow) :
    applyCql seq (applyParams user session seq row) = some (applyTxn user session seq row, []) := by
  by_cases h : seq > 0
  · simp only [applyCql, applyParams, applyTxn, if_pos h]; rfl
  · simp only [applyCql, applyParams, applyTxn, if_neg h]; rfl

/-- Every parameter fits its column exactly when the sequence number does. -/
theorem bound_apply (user : String) (session : Nat) (seq : Int) (row : TimelineRow) :
    bound (applyCql seq) (applyParams user session seq row) =
      if (applyParams user session seq row).all Value.fits then some (applyTxn user session seq row)
      else none := by
  simp only [bound, applyCql_params]

/-! ## What the guard asks -/

/-- The `IF`, in terms of the tables it reads. -/
def Appendable (db : Db) (user : String) (session : Nat) (seq : Int) : Prop :=
  (user, session) ∈ db.sessionsOpen ∧ (user, session, seq) ∉ db.sessionSeqApplied ∧
    (0 < seq → (user, session, seq - 1) ∈ db.sessionSeqApplied)

theorem applies_apply {db : Db} {user : String} {session : Nat} {seq : Int} {row : TimelineRow} :
    (applyTxn user session seq row).applies db = true ↔ Appendable db user session seq := by
  unfold Txn.applies Appendable
  by_cases h : seq > 0
  · simp [applyTxn, h, Cond.eval, Txn.env, sessionOk, seqApplied, ← AList.lookup_isSome, and_assoc]
  · simp [applyTxn, h, Cond.eval, Txn.env, sessionOk, seqApplied, ← AList.lookup_isSome]

/-- The explanation is empty exactly when the append goes through. -/
theorem reason_apply {db : Db} {user : String} {session : Nat} {seq : Int} {row : TimelineRow} :
    reason seq ((applyTxn user session seq row).projection db) = "" ↔ Appendable db user session seq := by
  unfold reason Appendable
  by_cases h : seq > 0 <;>
  cases h₁ : db.sessionsOpen.lookup (user, session) <;>
  cases h₂ : db.sessionSeqApplied.lookup (user, session, seq) <;>
  cases h₃ : db.sessionSeqApplied.lookup (user, session, seq - 1) <;>
  simp [applyTxn, Txn.projection, Txn.env, sessionOk, seqApplied, Env.col, h, h₁, h₂, h₃,
    ← AList.lookup_isSome]

/-! ## Sessions and steps, in any order -/

inductive Action where
  /-- `_open_session`. -/
  | openSession (user : String) (session : Nat)
  /-- `session_step`, or a step of the scripted run: `seq` is not negative. -/
  | sessionStep (user : String) (session seq : Nat) (row : TimelineRow)

def step (db : Db) : Action → Option Db
  | .openSession user session =>
    some { db with sessionsOpen := db.sessionsOpen.insert (user, session) () }
  | .sessionStep user session seq row =>
    (bound (applyCql seq) (applyParams user session seq row)).map (·.commit db)

/-- What a step can do: open a session, append one row, or nothing. -/
theorem step_effect {db db' : Db} {a : Action} (h : step db a = some db') :
    (∃ user session, db' = { db with sessionsOpen := db.sessionsOpen.insert (user, session) () }) ∨
    (∃ user session, ∃ seq : Nat, ∃ row : TimelineRow, Appendable db user session seq ∧
      db' = insertApplied user session seq
        (insertTimeline user session seq row.eventId row.eventTime row.eventType row.payload db)) ∨
    db' = db := by
  cases a with
  | openSession user session => exact .inl ⟨user, session, by simpa [step] using h.symm⟩
  | sessionStep user session seq row =>
    right
    simp only [step, bound_apply, Option.map_eq_some_iff] at h
    obtain ⟨t, ht, rfl⟩ := h
    split at ht
    · obtain rfl : applyTxn user session seq row = t := by simpa using ht
      unfold Txn.commit
      by_cases happ : (applyTxn user session seq row).applies db = true
      · rw [if_pos happ]
        exact .inl ⟨user, session, seq, row, applies_apply.1 happ, rfl⟩
      · rw [if_neg happ]
        exact .inr rfl
    · cases ht

/-! ## The timeline -/

/-- The sequence numbers applied to each session are `0 .. n-1`, they are those
of its timeline, and a session with any was opened. -/
def InOrder (db : Db) : Prop :=
  ∀ user session, ∃ n : Nat, ∀ seq : Int,
    ((user, session, seq) ∈ db.sessionSeqApplied ↔ 0 ≤ seq ∧ seq < n) ∧
    ((user, session, seq) ∈ db.sessionTimeline ↔ (user, session, seq) ∈ db.sessionSeqApplied) ∧
    ((user, session, seq) ∈ db.sessionTimeline → (user, session) ∈ db.sessionsOpen)

/-- Every row of `db` is still there in `db'`, unchanged. -/
def Keeps (db db' : Db) : Prop :=
  ∀ key row, db.sessionTimeline.lookup key = some row → db'.sessionTimeline.lookup key = some row

theorem inOrder_empty : InOrder empty := by
  refine fun user session => ⟨0, fun seq => ⟨?_, ?_, ?_⟩⟩
  · simp only [empty, AList.notMem_empty, false_iff]
    omega
  · simp [empty]
  · simp [empty]

/-- The guard leaves one number that may be appended: the next one. -/
theorem Appendable.next {db : Db} {user : String} {session seq n : Nat}
    (h : Appendable db user session seq)
    (hn : ∀ q : Int, (user, session, q) ∈ db.sessionSeqApplied ↔ 0 ≤ q ∧ q < n) : seq = n := by
  obtain ⟨-, hnot, hprev⟩ := h
  rw [hn] at hnot
  by_cases h0 : 0 < seq
  · have := (hn _).1 (hprev (by omega))
    omega
  · omega

theorem inOrder_step {db db' : Db} {a : Action} (hI : InOrder db) (h : step db a = some db') :
    InOrder db' := by
  obtain ⟨user, session, rfl⟩ | ⟨user, session, seq, row, happ, rfl⟩ | rfl := step_effect h
  · intro u s
    obtain ⟨n, hn⟩ := hI u s
    refine ⟨n, fun q => ⟨(hn q).1, (hn q).2.1, fun hmem => ?_⟩⟩
    exact AList.mem_insert _ |>.2 (.inr ((hn q).2.2 hmem))
  · intro u s
    obtain ⟨n, hn⟩ := hI u s
    -- The session appended to is one longer; every other keeps its numbers.
    by_cases hus : u = user ∧ s = session
    · obtain ⟨rfl, rfl⟩ := hus
      obtain rfl := happ.next fun q => (hn q).1
      refine ⟨seq + 1, fun q => ?_⟩
      have hq := hn q
      simp only [insertApplied, insertTimeline, AList.mem_insert, Prod.mk.injEq, true_and]
      refine ⟨?_, ?_, fun _ => happ.1⟩
      · rw [hq.1]
        omega
      · rw [hq.2.1]
    · have hne : ∀ q : Int, (u, s, q) ≠ (user, session, (seq : Int)) := by
        rintro q ⟨⟩
        exact hus ⟨rfl, rfl⟩
      refine ⟨n, fun q => ?_⟩
      simpa only [insertApplied, insertTimeline, AList.mem_insert, hne, false_or] using hn q
  · exact hI

theorem keeps_step {db db' : Db} {a : Action} (hI : InOrder db) (h : step db a = some db') :
    Keeps db db' := by
  obtain ⟨user, session, rfl⟩ | ⟨user, session, seq, row, happ, rfl⟩ | rfl := step_effect h
  · exact fun _ _ hrow => hrow
  · intro key r hrow
    obtain ⟨n, hn⟩ := hI user session
    -- A row under that key would have its number applied, which the guard excludes.
    have hne : key ≠ (user, session, (seq : Int)) := by
      rintro rfl
      exact happ.2.1 ((hn seq).2.1.1 (AList.lookup_isSome.1 (by simp [hrow])))
    simpa [insertApplied, insertTimeline, AList.lookup_insert_ne hne] using hrow
  · exact fun _ _ hrow => hrow

/-- Along every run the timelines are in order, and from every state on, every
run keeps the rows that are there. -/
theorem timeline_in_order (as : List Action) :
    Always step (fun db => InOrder db ∧ ∀ bs, Always step (Keeps db) db bs) empty as := by
  refine always_of_inv (I := InOrder) (fun _ _ _ => inOrder_step) (fun db hI => ⟨hI, fun bs => ?_⟩)
    inOrder_empty as
  refine always_of_inv (I := fun db' => InOrder db' ∧ Keeps db db') ?_ (fun _ h => h.2)
    ⟨hI, fun _ _ h => h⟩ bs
  rintro t a u ⟨hIt, hkt⟩ hstep
  exact ⟨inOrder_step hIt hstep, fun k r hr => keeps_step hIt hstep k r (hkt k r hr)⟩

end HtapStack.Session
