import HtapStack.Lib.Keyed
import HtapStack.Transactions.Contention
import HtapStack.Transactions.Session
/-!
# A session is a log

`_run_step` of `backend/app/routes/transactions.py` runs one transaction of a
session and reports what it did, and `session_demo` runs six steps in an order that
shows each answer, then times more of them in a session of its own.

- `session_is_a_log`: whatever is tried in a session, in any order and whatever
  other sessions do meanwhile, the answers are those of a log that takes an entry at
  its end only, and the timeline is that log.
- `session_demo_exact`: so the six steps are answered as the page tells them, and
  every one of the steps that are timed is applied.

Left out: the statement's text and its projection in the report, how long a step
took, and the twin table that plain writes are timed on.
-/

namespace HtapStack.SessionLog
open Cql Session
open Contention (Outcome)

/-! ## One step -/

/-- The fields of `TransactionStep` that tell what a step did. -/
structure TransactionStep where
  action : String
  applied : Bool
  reason : String
  error : String
  timelineRows : Nat
  deriving DecidableEq

/-- `_timeline_rows`: a partition of `session_timeline`, in the order of `seq`. -/
def timelineRows (db : Db) (user : String) (session : Nat) : List (Int × TimelineRow) :=
  (db.sessionTimeline.entries.filterMap fun e =>
    if e.1.1 = user ∧ e.1.2.1 = session then some (e.1.2.2, e.2) else none).insertionSort fun a b => a.1 ≤ b.1

/-- A step to try: its number, the row it would write, how its call ends, and what
others do before the timeline is read. -/
structure Attempt where
  action : String
  seq : Nat
  row : TimelineRow
  outcome : Outcome
  meanwhile : List Action

/-- Requests of others. One that the driver cannot bind changes nothing. -/
def acts (db : Db) (as : List Action) : Db := as.foldl (fun db a => (step db a).getD db) db

/-- `_open_session`. -/
def opening (user : String) (session : Nat) (db : Db) : Db :=
  { db with sessionsOpen := db.sessionsOpen.insert (user, session) () }

/-- What is told of a step after which the tables are `db`. -/
def report (user : String) (session : Nat) (a : Attempt) (applied : Bool) (reason error : String) (db : Db) :
    Db × TransactionStep :=
  let db := acts db a.meanwhile
  (db, ⟨a.action, applied, reason, error, (timelineRows db user session).length⟩)

/-- How the call goes, of the transaction bound or of none. -/
def answer (unfit : Nat → String) (user : String) (session : Nat) (db : Db) (a : Attempt) :
    Option (Txn Db) → Db × TransactionStep
  | none => report user session a false "" (unfit a.seq) db
  | some t =>
    match a.outcome with
    | .raised message took => report user session a false "" message (if took then t.commit db else db)
    | .returned =>
      let reason := reason a.seq (t.projection db)
      report user session a (decide (reason = "")) reason "" (t.commit db)

/-- `_run_step`. What the driver says of a number that is no `bigint` is `unfit`. -/
def runStep (unfit : Nat → String) (user : String) (session : Nat) (db : Db) (a : Attempt) : Db × TransactionStep :=
  answer unfit user session db a (bound (applyCql a.seq) (applyParams user session a.seq a.row))

/-! ## The log -/

/-- Why an entry is not taken: the log has one there, or has none before it. -/
def verdict (log : List TimelineRow) (seq : Nat) : String :=
  if seq < log.length then "seq=" ++ toString (seq : Int) ++ " was already applied, so the replay changed nothing"
  else if log.length < seq then
    "seq=" ++ toString ((seq : Int) - 1) ++ " has not been applied, so seq=" ++ toString (seq : Int) ++
      " would leave a gap"
  else ""

def appended (log : List TimelineRow) (a : Attempt) : List TimelineRow :=
  if a.seq = log.length then log ++ [a.row] else log

def told (a : Attempt) (applied : Bool) (reason error : String) (log : List TimelineRow) :
    List TimelineRow × TransactionStep := (log, ⟨a.action, applied, reason, error, log.length⟩)

/-- A number that the driver can bind. -/
def IsBigint (seq : Nat) : Prop := seq < 0x8000000000000000

instance instDecidableIsBigint (seq : Nat) : Decidable (IsBigint seq) := Nat.decLt seq 0x8000000000000000

/-- What a session is for: a log that takes an entry at its end. -/
def append (unfit : Nat → String) (log : List TimelineRow) (a : Attempt) : List TimelineRow × TransactionStep :=
  if IsBigint a.seq then
    match a.outcome with
    | .raised message took => told a false "" message (if took then appended log a else log)
    | .returned => told a (decide (a.seq = log.length)) (verdict log a.seq) "" (appended log a)
  else told a false "" (unfit a.seq) log

/-- The log as `_timeline_rows` reads it. -/
def numbered (log : List TimelineRow) : List (Int × TimelineRow) := log.zipIdx.map fun e => ((e.2 : Int), e.1)

/-- The tables hold the log of an open session. -/
structure Holds (user : String) (session : Nat) (db : Db) (log : List TimelineRow) : Prop where
  opened : (user, session) ∈ db.sessionsOpen
  applied : ∀ q : Int, (user, session, q) ∈ db.sessionSeqApplied ↔ 0 ≤ q ∧ q < log.length
  rows : ∀ q : Int, db.sessionTimeline.lookup (user, session, q) = if 0 ≤ q then log[q.toNat]? else none

/-! ## What others do -/

/-- A request of another session. -/
def Elsewhere (user : String) (session : Nat) : Action → Prop
  | .openSession u s => (u, s) ≠ (user, session)
  | .sessionStep u s _ _ => (u, s) ≠ (user, session)

/-- The tables have the same of a session. -/
structure Same (user : String) (session : Nat) (db db' : Db) : Prop where
  opened : (user, session) ∈ db'.sessionsOpen ↔ (user, session) ∈ db.sessionsOpen
  applied : ∀ q : Int, (user, session, q) ∈ db'.sessionSeqApplied ↔ (user, session, q) ∈ db.sessionSeqApplied
  rows : ∀ q : Int, db'.sessionTimeline.lookup (user, session, q) = db.sessionTimeline.lookup (user, session, q)

variable {unfit : Nat → String} {user u : String} {session s : Nat} {db db' : Db} {log : List TimelineRow}

theorem Same.refl (db : Db) : Same user session db db := ⟨Iff.rfl, fun _ => Iff.rfl, fun _ => rfl⟩

theorem Same.trans {db'' : Db} (h : Same user session db db') (h' : Same user session db' db'') :
    Same user session db db'' :=
  ⟨h'.opened.trans h.opened, fun q => (h'.applied q).trans (h.applied q), fun q => (h'.rows q).trans (h.rows q)⟩

theorem same_open (hus : (u, s) ≠ (user, session)) (db : Db) : Same user session db (opening u s db) :=
  ⟨(AList.mem_insert _).trans (or_iff_right (Ne.symm hus)), fun _ => Iff.rfl, fun _ => rfl⟩

theorem same_commit {seq : Nat} {row : TimelineRow} (hus : (u, s) ≠ (user, session)) (db : Db) :
    Same user session db ((applyTxn u s seq row).commit db) := by
  unfold Txn.commit
  split
  · have hne : ∀ q : Int, (user, session, q) ≠ (u, s, (seq : Int)) := by
      rintro q ⟨⟩
      exact hus rfl
    refine ⟨Iff.rfl, fun q => ?_, fun q => ?_⟩
    · exact (AList.mem_insert _).trans (or_iff_right (hne q))
    · exact AList.lookup_insert_ne (hne q)
  · exact .refl db

theorem same_step {a : Action} (ha : Elsewhere user session a) (db : Db) :
    Same user session db ((step db a).getD db) := by
  cases a with
  | openSession u s => exact same_open ha db
  | sessionStep u s seq row =>
    simp only [step, bound_apply]
    split
    · exact same_commit ha db
    · exact .refl db

theorem same_acts {as : List Action} (has : ∀ a ∈ as, Elsewhere user session a) (db : Db) :
    Same user session db (acts db as) := by
  induction as generalizing db with
  | nil => exact .refl db
  | cons a as ih =>
    obtain ⟨ha, hrest⟩ := List.forall_mem_cons.1 has
    exact (same_step ha db).trans (ih hrest _)

/-- The driver binds a step exactly if its number is a `bigint`. -/
theorem bound_attempt (user : String) (session : Nat) (a : Attempt) :
    bound (applyCql a.seq) (applyParams user session a.seq a.row) =
      if IsBigint a.seq then some (applyTxn user session a.seq a.row) else none := by
  have hfits : (applyParams user session a.seq a.row).all Value.fits = true ↔ IsBigint a.seq := by
    unfold IsBigint
    by_cases hpos : 0 < a.seq
    · simp [applyParams, Value.fits, hpos]
      omega
    · have hseq : a.seq = 0 := by omega
      simp [applyParams, Value.fits, hseq]
  rw [bound_apply]
  exact if_congr hfits rfl rfl

theorem same_runStep (hus : (u, s) ≠ (user, session)) {a : Attempt}
    (hmeanwhile : ∀ b ∈ a.meanwhile, Elsewhere user session b) (db : Db) :
    Same user session db (runStep unfit u s db a).1 := by
  unfold runStep
  rw [bound_attempt]
  by_cases hfits : IsBigint a.seq
  · rw [if_pos hfits, answer]
    cases a.outcome with
    | raised message took =>
      cases took with
      | false => exact same_acts hmeanwhile db
      | true => exact (same_commit hus db).trans (same_acts hmeanwhile _)
    | returned => exact (same_commit hus db).trans (same_acts hmeanwhile _)
  · rw [if_neg hfits]
    exact same_acts hmeanwhile db

theorem same_run (unfit : Nat → String) (hus : (u, s) ≠ (user, session)) (attempts : List Attempt)
    (hmeanwhile : ∀ a ∈ attempts, ∀ b ∈ a.meanwhile, Elsewhere user session b) (db : Db) :
    Same user session db (Keyed.run (runStep unfit u s) db attempts).1 := by
  induction attempts generalizing db with
  | nil => exact .refl db
  | cons a as ih =>
    obtain ⟨ha, hrest⟩ := List.forall_mem_cons.1 hmeanwhile
    have hstep : Same user session db (runStep unfit u s db a).1 := same_runStep hus ha db
    rw [Keyed.run]
    exact hstep.trans (ih hrest (runStep unfit u s db a).1)

/-! ## One step of the log -/

theorem Holds.same (h : Holds user session db log) (hsame : Same user session db db') : Holds user session db' log :=
  ⟨hsame.opened.2 h.opened, fun q => (hsame.applied q).trans (h.applied q), fun q => (hsame.rows q).trans (h.rows q)⟩

/-- The tables have nothing of a session that was never opened. -/
structure Fresh (user : String) (session : Nat) (db : Db) : Prop where
  applied : ∀ q : Int, (user, session, q) ∉ db.sessionSeqApplied
  rows : ∀ q : Int, db.sessionTimeline.lookup (user, session, q) = none

theorem fresh_of_inOrder (hdb : InOrder db) (hclosed : (user, session) ∉ db.sessionsOpen) :
    Fresh user session db := by
  obtain ⟨n, hn⟩ := hdb user session
  have hnone : ∀ q : Int, (user, session, q) ∉ db.sessionTimeline := fun q hq => hclosed ((hn q).2.2 hq)
  exact ⟨fun q => mt (hn q).2.1.2 (hnone q), fun q => AList.lookup_eq_none.2 (hnone q)⟩

theorem Fresh.same (h : Fresh user session db) (hsame : Same user session db db') : Fresh user session db' :=
  ⟨fun q => mt (hsame.applied q).1 (h.applied q), fun q => (hsame.rows q).trans (h.rows q)⟩

/-- Once it is opened, its log is empty. -/
theorem Fresh.open (h : Fresh user session db) : Holds user session (opening user session db) [] := by
  refine ⟨(AList.mem_insert _).2 (.inl rfl), fun q => ?_, fun q => ?_⟩
  · refine (iff_false_left (h.applied q)).2 ?_
    rw [List.length_nil]
    omega
  · rw [List.getElem?_nil, ite_self]
    exact h.rows q

variable {seq : Nat} {row : TimelineRow}

theorem Holds.appendable (h : Holds user session db log) : Appendable db user session seq ↔ seq = log.length := by
  unfold Appendable
  rw [h.applied, h.applied, and_iff_right h.opened]
  omega

/-- The projection says which of the rows that the guards read are there. -/
theorem projection_get (seq : Nat) (row : TimelineRow) (hopened : (user, session) ∈ db.sessionsOpen) :
    let projection := (applyTxn user session seq row).projection db
    projection.isEmpty = false ∧ (projection.get "session_ok.session_id").isNone = false ∧
      ((projection.get "already.seq").isSome ↔ (user, session, (seq : Int)) ∈ db.sessionSeqApplied) ∧
      (0 < seq → ((projection.get "prev_ok.seq").isNone ↔
        (user, session, (seq : Int) - 1) ∉ db.sessionSeqApplied)) := by
  obtain ⟨_, hopen⟩ := Option.isSome_iff_exists.1 (AList.lookup_isSome.2 hopened)
  cases happlied : db.sessionSeqApplied.lookup (user, session, (seq : Int)) <;>
  cases hprev : db.sessionSeqApplied.lookup (user, session, (seq : Int) - 1) <;>
  by_cases hpos : 0 < seq <;>
  simp [applyTxn, Txn.projection, Txn.env, sessionOk, seqApplied, Env.col, hpos, hopen, happlied, hprev,
    ← AList.lookup_isSome]

/-- So the reason that is read off it is the log's. -/
theorem Holds.reason (h : Holds user session db log) :
    reason seq ((applyTxn user session seq row).projection db) = verdict log seq := by
  obtain ⟨hsome, hopened, halready, hprev⟩ := projection_get seq row h.opened
  rw [h.applied] at halready
  unfold Session.reason verdict
  rw [hsome, hopened, if_neg Bool.false_ne_true, if_neg Bool.false_ne_true]
  by_cases hlt : seq < log.length
  · rw [if_pos (halready.2 (by omega)), if_pos hlt]
  · rw [if_neg (mt halready.1 (by omega)), if_neg hlt]
    refine if_congr ?_ rfl rfl
    constructor
    · rintro ⟨hpos, hnone⟩
      have := (hprev (by omega)).1 hnone
      rw [h.applied] at this
      omega
    · intro hgap
      refine ⟨by omega, (hprev (by omega)).2 ?_⟩
      rw [h.applied]
      omega

theorem Holds.append (h : Holds user session db log) :
    Holds user session ((applyTxn user session seq row).commit db)
      (if seq = log.length then log ++ [row] else log) := by
  unfold Txn.commit
  by_cases hseq : seq = log.length
  · rw [if_pos (applies_apply.2 (h.appendable.2 hseq)), if_pos hseq]
    subst hseq
    refine ⟨h.opened, fun q => ?_, fun q => ?_⟩
    · rw [List.length_append, List.length_singleton]
      refine (AList.mem_insert _).trans ?_
      show _ ∨ (user, session, q) ∈ db.sessionSeqApplied ↔ _
      rw [h.applied, Prod.mk.injEq, Prod.mk.injEq, and_iff_right rfl, and_iff_right rfl]
      omega
    · by_cases hq : q = log.length
      · subst hq
        rw [if_pos (by omega), Int.toNat_natCast, List.getElem?_concat_length]
        exact AList.lookup_insert _
      · have hne : (user, session, q) ≠ (user, session, (log.length : Int)) := by
          rintro ⟨⟩
          exact hq rfl
        refine (AList.lookup_insert_ne hne).trans ?_
        rw [h.rows q]
        split
        · rename_i hpos
          rcases Nat.lt_or_ge q.toNat log.length with hlt | hge
          · rw [List.getElem?_append_left hlt]
          · rw [List.getElem?_eq_none hge, List.getElem?_eq_none]
            rw [List.length_append, List.length_singleton]
            omega
        · rfl
  · rw [if_neg (mt (applies_apply.1 · |> h.appendable.1) hseq), if_neg hseq]
    exact h

/-! ## The timeline read -/

theorem mem_numbered {q : Int} {r : TimelineRow} :
    (q, r) ∈ numbered log ↔ (if 0 ≤ q then log[q.toNat]? else none) = some r := by
  simp only [numbered, List.mem_map, Prod.mk.injEq, Prod.exists, List.mem_zipIdx_iff_getElem?]
  constructor
  · rintro ⟨r, i, hr, rfl, rfl⟩
    rw [if_pos (by omega), Int.toNat_natCast, hr]
  · intro hr
    split at hr
    · rename_i hpos
      exact ⟨r, q.toNat, hr, Int.toNat_of_nonneg hpos, rfl⟩
    · cases hr

theorem numbered_pairwise (log : List TimelineRow) : (numbered log).Pairwise fun a b => a.1 < b.1 := by
  rw [List.pairwise_iff_getElem]
  intro i j hi hj hij
  simp only [numbered, List.getElem_map, List.getElem_zipIdx]
  omega

/-- The rows of a partition, as they lie. -/
theorem mem_partition {q : Int} {r : TimelineRow} :
    (q, r) ∈ (db.sessionTimeline.entries.filterMap fun e =>
        if e.1.1 = user ∧ e.1.2.1 = session then some (e.1.2.2, e.2) else none) ↔
      db.sessionTimeline.lookup (user, session, q) = some r := by
  rw [List.mem_filterMap, ← Option.mem_def, AList.mem_lookup_iff]
  constructor
  · rintro ⟨⟨⟨u, s, p⟩, v⟩, he, heq⟩
    simp only [Option.ite_none_right_eq_some, Option.some.injEq, Prod.mk.injEq] at heq
    obtain ⟨⟨rfl, rfl⟩, rfl, rfl⟩ := heq
    exact he
  · intro he
    exact ⟨_, he, if_pos ⟨rfl, rfl⟩⟩

theorem nodup_partition : (db.sessionTimeline.entries.filterMap fun e =>
    if e.1.1 = user ∧ e.1.2.1 = session then some (e.1.2.2, e.2) else none).Nodup := by
  refine db.sessionTimeline.nodupKeys.nodup.filterMap ?_
  rintro ⟨⟨u, s, q⟩, r⟩ ⟨⟨u', s', q'⟩, r'⟩ ⟨p, v⟩ h h'
  simp only [Option.mem_def, Option.ite_none_right_eq_some, Option.some.injEq, Prod.mk.injEq] at h h'
  obtain ⟨⟨rfl, rfl⟩, rfl, rfl⟩ := h
  obtain ⟨⟨rfl, rfl⟩, rfl, rfl⟩ := h'
  rfl

theorem Holds.timelineRows (h : Holds user session db log) : timelineRows db user session = numbered log := by
  have : Std.Total fun a b : Int × TimelineRow => a.1 ≤ b.1 := ⟨fun a b => le_total a.1 b.1⟩
  have : IsTrans (Int × TimelineRow) fun a b => a.1 ≤ b.1 := ⟨fun _ _ _ => le_trans⟩
  have hlog := numbered_pairwise log
  have hperm : (SessionLog.timelineRows db user session).Perm (numbered log) := by
    refine (List.perm_insertionSort _ _).trans ((List.perm_ext_iff_of_nodup nodup_partition ?_).2 ?_)
    · apply hlog.imp
      rintro a _ hlt rfl
      exact lt_irrefl _ hlt
    · rintro ⟨q, r⟩
      rw [mem_numbered, ← h.rows q, mem_partition]
  refine List.Perm.eq_of_pairwise ?_ (List.pairwise_insertionSort _ _) (hlog.imp le_of_lt) hperm
  -- Rows of one number are the same row, since the log has each number once.
  rintro ⟨q, r⟩ ⟨q', r'⟩ hr hr' hle hge
  obtain rfl : q = q' := le_antisymm hle hge
  rw [hperm.mem_iff, mem_numbered] at hr
  rw [mem_numbered, hr] at hr'
  rw [Option.some.inj hr']

/-! ## Whatever is tried -/

theorem Holds.length (h : Holds user session db log) :
    (SessionLog.timelineRows db user session).length = log.length := by
  rw [h.timelineRows, numbered, List.length_map, List.length_zipIdx]

theorem holds_report {a : Attempt} {applied : Bool} {reason error : String}
    (hmeanwhile : ∀ b ∈ a.meanwhile, Elsewhere user session b) (h : Holds user session db log) :
    Holds user session (report user session a applied reason error db).1 (told a applied reason error log).1 ∧
      (report user session a applied reason error db).2 = (told a applied reason error log).2 := by
  have hacts := h.same (same_acts hmeanwhile db)
  refine ⟨hacts, ?_⟩
  rw [report, hacts.length]
  rfl

/-- A step is answered as the log answers it. -/
theorem holds_runStep (h : Holds user session db log) (a : Attempt)
    (hmeanwhile : ∀ b ∈ a.meanwhile, Elsewhere user session b) :
    Holds user session (runStep unfit user session db a).1 (append unfit log a).1 ∧
      (runStep unfit user session db a).2 = (append unfit log a).2 := by
  unfold runStep append
  rw [bound_attempt]
  by_cases hfits : IsBigint a.seq
  · rw [if_pos hfits, if_pos hfits, answer]
    cases a.outcome with
    | raised message took =>
      refine holds_report hmeanwhile ?_
      cases took with
      | false => exact h
      | true => exact h.append
    | returned =>
      have happlied : decide (reason a.seq ((applyTxn user session a.seq a.row).projection db) = "") =
          decide (a.seq = log.length) := decide_eq_decide.2 (reason_apply.trans h.appendable)
      dsimp only
      rw [happlied, h.reason]
      exact holds_report hmeanwhile h.append
  · rw [if_neg hfits, if_neg hfits]
    exact holds_report hmeanwhile h

theorem holds_run (unfit : Nat → String) (h : Holds user session db log) (attempts : List Attempt)
    (hmeanwhile : ∀ a ∈ attempts, ∀ b ∈ a.meanwhile, Elsewhere user session b) :
    Holds user session (Keyed.run (runStep unfit user session) db attempts).1
        (Keyed.run (append unfit) log attempts).1 ∧
      (Keyed.run (runStep unfit user session) db attempts).2 = (Keyed.run (append unfit) log attempts).2 := by
  apply Keyed.run_refines _ h attempts hmeanwhile
  intro db log a h ha
  exact holds_runStep h a ha

/-! ## The demonstration -/

/-- What a call of `_run_step` finds: the identifier and the time that it takes for its
row, how it ends, and what others do during it. -/
structure Call where
  eventId : Nat
  eventTime : Int
  outcome : Outcome
  meanwhile : List Action

/-- `_run_step` with the event type and the payload that it has by default. -/
def Call.attempt (c : Call) (action : String) (seq : Nat) : Attempt :=
  ⟨action, seq, ⟨c.eventId, c.eventTime, "session.step", "{}"⟩, c.outcome, c.meanwhile⟩

/-- `session_id.hex[:8]`. -/
def hex8 (session : Nat) : String :=
  String.ofList (((Nat.toDigits 16 session).leftpad 32 '0').take 8)

def demoUser (session : Nat) : String := "txn-demo-" ++ hex8 session

def measureUser (session : Nat) : String := "txn-demo-measure-" ++ hex8 session

/-- The steps after the opening. -/
def sequence (calls : Nat → Call) : List Attempt :=
  [(calls 0).attempt "apply seq=0" 0, (calls 1).attempt "replay seq=0" 0,
    (calls 2).attempt "attempt seq=2 out of order" 2, (calls 3).attempt "apply seq=1" 1,
    (calls 4).attempt "apply seq=2" 2]

def inTurn (calls : Nat → Call) (n : Nat) : List Attempt :=
  (List.range n).map fun seq => (calls seq).attempt ("apply seq=" ++ toString seq) seq

/-- `_repeat_applied`: how many of the repeats were applied. The first step is not one of them. -/
def repeatApplied (unfit : Nat → String) (session : Nat) (calls : Nat → Call) (repeats : Nat) (db : Db) : Nat × Db :=
  if repeats = 0 then (0, db)
  else
    let user := measureUser session
    let run := Keyed.run (runStep unfit user session) (opening user session db) (inTurn calls (repeats + 1))
    (run.2.tail.countP (·.2.applied), run.1)

structure TransactionDemoResult where
  steps : List TransactionStep
  timeline : List (Int × TimelineRow)
  repeats : Nat

/-- `session_demo`, on two sessions of its own. -/
def sessionDemo (unfit : Nat → String) (session measure : Nat) (calls measured : Nat → Call) (repeats : Nat)
    (db : Db) : TransactionDemoResult :=
  let user := demoUser session
  let run := Keyed.run (runStep unfit user session) (opening user session db) (sequence calls)
  let repeated := repeatApplied unfit measure measured repeats run.1
  { steps := ⟨"open the session", true, "", "", 0⟩ :: run.2.map Prod.snd
    timeline := timelineRows repeated.2 user session
    repeats := repeated.1 }

/-- Whatever is tried in a session from its opening on, it is answered as its log answers it, and the timeline
is the log. -/
theorem session_is_a_log (unfit : Nat → String) (db : Db) (hdb : InOrder db) (user : String) (session : Nat)
    (hclosed : (user, session) ∉ db.sessionsOpen) (attempts : List Attempt)
    (hmeanwhile : ∀ a ∈ attempts, ∀ b ∈ a.meanwhile, Elsewhere user session b) :
    let done := Keyed.run (runStep unfit user session) (opening user session db) attempts
    let log := Keyed.run (append unfit) [] attempts
    done.2 = log.2 ∧ timelineRows done.1 user session = numbered log.1 := by
  obtain ⟨hholds, hsteps⟩ := holds_run unfit (fresh_of_inOrder hdb hclosed).open attempts hmeanwhile
  exact ⟨hsteps, hholds.timelineRows⟩

/-- A step that was taken though its call raised, and another session that is opened meanwhile. -/
def interrupted : List Attempt :=
  [⟨"apply seq=0", 0, ⟨1, 0, "session.step", "{}"⟩, .raised "timeout" true, [.openSession "txn-demo" 2]⟩,
    ⟨"replay seq=0", 0, ⟨2, 0, "session.step", "{}"⟩, .returned, []⟩]

theorem session_is_a_log_interrupted :
    timelineRows (Keyed.run (runStep (fun _ => "") "txn-demo" 1) (opening "txn-demo" 1 Session.empty) interrupted).1
        "txn-demo" 1 = numbered [⟨1, 0, "session.step", "{}"⟩] := by
  refine (session_is_a_log (fun _ => "") Session.empty inOrder_empty "txn-demo" 1 (AList.notMem_empty _)
    interrupted ?_).2
  simp [interrupted, Elsewhere]

theorem append_returned (unfit : Nat → String) (log : List TimelineRow) {a : Attempt}
    (hreturned : a.outcome = .returned) (hfits : IsBigint a.seq) :
    append unfit log a = told a (decide (a.seq = log.length)) (verdict log a.seq) "" (appended log a) := by
  rw [append, if_pos hfits, hreturned]

/-- The next number is taken. -/
theorem append_next (unfit : Nat → String) {a : Attempt} (hreturned : a.outcome = .returned) (hfits : IsBigint a.seq)
    (hseq : a.seq = log.length) : append unfit log a = told a true "" "" (log ++ [a.row]) := by
  have hverdict : verdict log a.seq = "" := by
    rw [verdict, if_neg (by omega), if_neg (by omega)]
  rw [append_returned unfit log hreturned hfits, appended, if_pos hseq, hverdict, decide_eq_true hseq]

theorem isBigint_of_le {seq : Nat} (h : seq ≤ 4000) : IsBigint seq :=
  lt_of_le_of_lt h (by decide)

/-- Steps in turn are all applied. -/
theorem append_inTurn (unfit : Nat → String) (calls : Nat → Call) (hreturned : ∀ i, (calls i).outcome = .returned)
    {n : Nat} (hn : n ≤ 4001) :
    let run := Keyed.run (append unfit) [] (inTurn calls n)
    run.1.length = n ∧ run.2.length = n ∧ ∀ x ∈ run.2, x.2.applied = true := by
  induction n with
  | zero => exact ⟨rfl, rfl, fun x hx => absurd hx List.not_mem_nil⟩
  | succ n ih =>
    obtain ⟨hlog, hlength, happlied⟩ := ih (by omega)
    have hnext := append_next unfit (a := (calls n).attempt ("apply seq=" ++ toString n) n) (hreturned n)
      (isBigint_of_le (Nat.le_of_lt_succ hn)) hlog.symm
    dsimp only
    rw [inTurn, List.range_succ, List.map_append, List.map_singleton, ← inTurn, Keyed.run_append, Keyed.run,
      Keyed.run, hnext]
    refine ⟨?_, ?_, ?_⟩
    · exact List.length_append.trans (congrArg (· + 1) hlog)
    · exact List.length_append.trans (congrArg (· + 1) hlength)
    · intro x hx
      rcases List.mem_append.1 hx with hx | hx
      · exact happlied x hx
      · rw [List.mem_singleton.1 hx]
        rfl

theorem run_sequence (unfit : Nat → String) (calls : Nat → Call) (hreturned : ∀ i, (calls i).outcome = .returned) :
    let run := Keyed.run (append unfit) [] (sequence calls)
    run.2.map Prod.snd =
        [⟨"apply seq=0", true, "", "", 1⟩,
          ⟨"replay seq=0", false, "seq=0 was already applied, so the replay changed nothing", "", 1⟩,
          ⟨"attempt seq=2 out of order", false, "seq=1 has not been applied, so seq=2 would leave a gap", "", 1⟩,
          ⟨"apply seq=1", true, "", "", 2⟩, ⟨"apply seq=2", true, "", "", 3⟩] ∧
      run.1 = [((calls 0).attempt "apply seq=0" 0).row, ((calls 3).attempt "apply seq=1" 1).row,
        ((calls 4).attempt "apply seq=2" 2).row] := by
  have hstep (log : List TimelineRow) (i : Nat) (action : String) (seq : Nat) (hseq : seq ≤ 2) :=
    append_returned unfit log (a := (calls i).attempt action seq) (hreturned i)
      (isBigint_of_le (by omega : seq ≤ 4000))
  set first := ((calls 0).attempt "apply seq=0" 0).row
  set second := ((calls 3).attempt "apply seq=1" 1).row
  have h₀ : append unfit [] ((calls 0).attempt "apply seq=0" 0) = ([first], _) := hstep [] 0 _ 0 (by omega)
  have hreplay : verdict [first] 0 = "seq=0 was already applied, so the replay changed nothing" :=
    (if_pos Nat.zero_lt_one).trans (by decide)
  have hgap : verdict [first] 2 = "seq=1 has not been applied, so seq=2 would leave a gap" :=
    (if_neg (by simp)).trans ((if_pos Nat.one_lt_two).trans (by decide))
  have h₁ : append unfit [first] ((calls 1).attempt "replay seq=0" 0) =
      ([first], ⟨_, false, verdict [first] 0, "", 1⟩) := hstep [first] 1 "replay seq=0" 0 (by omega)
  have h₂ : append unfit [first] ((calls 2).attempt "attempt seq=2 out of order" 2) =
      ([first], ⟨_, false, verdict [first] 2, "", 1⟩) := hstep [first] 2 "attempt seq=2 out of order" 2 (by omega)
  have h₃ : append unfit [first] ((calls 3).attempt "apply seq=1" 1) = ([first, second], _) :=
    hstep [first] 3 _ 1 (by omega)
  have h₄ : append unfit [first, second] ((calls 4).attempt "apply seq=2" 2) = ([first, second, _], _) :=
    hstep [first, second] 4 _ 2 (by omega)
  simp only [sequence, Keyed.run, h₀, h₁, h₂, h₃, h₄, hreplay, hgap]
  exact ⟨rfl, trivial⟩

/-- The repeats are all applied, and leave another session alone. -/
theorem repeatApplied_spec (unfit : Nat → String) {measure : Nat} {measured : Nat → Call}
    (hus : (measureUser measure, measure) ≠ (user, session))
    (hfresh : Fresh (measureUser measure) measure db)
    (hmeasured : ∀ i, (measured i).outcome = .returned ∧ ∀ b ∈ (measured i).meanwhile,
      Elsewhere user session b ∧ Elsewhere (measureUser measure) measure b) {repeats : Nat}
    (hrepeats : repeats ≤ 4000) :
    (repeatApplied unfit measure measured repeats db).1 = repeats ∧
      Same user session db (repeatApplied unfit measure measured repeats db).2 := by
  have hinTurn : ∀ a ∈ inTurn measured (repeats + 1), ∀ b ∈ a.meanwhile,
      Elsewhere user session b ∧ Elsewhere (measureUser measure) measure b := by
    intro a ha
    obtain ⟨i, -, rfl⟩ := List.mem_map.1 ha
    exact (hmeasured i).2
  unfold repeatApplied
  split
  · rename_i hzero
    exact ⟨hzero.symm, .refl db⟩
  · obtain ⟨-, hsteps⟩ := holds_run unfit hfresh.open (inTurn measured (repeats + 1))
      fun a ha b hb => (hinTurn a ha b hb).2
    obtain ⟨-, hlength, happlied⟩ := append_inTurn unfit measured (fun i => (hmeasured i).1)
      (by omega : repeats + 1 ≤ 4001)
    constructor
    · dsimp only
      rw [hsteps, List.countP_eq_length.2 fun x hx => happlied x (List.mem_of_mem_tail hx), List.length_tail,
        hlength]
      rfl
    · exact (same_open hus db).trans (same_run unfit hus _ (fun a ha b hb => (hinTurn a ha b hb).1) _)

/-- Whatever other sessions do meanwhile, the demonstration is answered as the page tells it. -/
theorem session_demo_exact (unfit : Nat → String) (db : Db) (hdb : InOrder db) (session measure : Nat)
    (hne : session ≠ measure) (hclosed : (demoUser session, session) ∉ db.sessionsOpen)
    (hclosed' : (measureUser measure, measure) ∉ db.sessionsOpen) (calls measured : Nat → Call)
    (hcalls : ∀ i, (calls i).outcome = .returned ∧ ∀ b ∈ (calls i).meanwhile,
      Elsewhere (demoUser session) session b ∧ Elsewhere (measureUser measure) measure b)
    (hmeasured : ∀ i, (measured i).outcome = .returned ∧ ∀ b ∈ (measured i).meanwhile,
      Elsewhere (demoUser session) session b ∧ Elsewhere (measureUser measure) measure b)
    (repeats : Nat) (hrepeats : repeats ≤ 4000) :
    let result := sessionDemo unfit session measure calls measured repeats db
    result.steps =
        [⟨"open the session", true, "", "", 0⟩, ⟨"apply seq=0", true, "", "", 1⟩,
          ⟨"replay seq=0", false, "seq=0 was already applied, so the replay changed nothing", "", 1⟩,
          ⟨"attempt seq=2 out of order", false, "seq=1 has not been applied, so seq=2 would leave a gap", "", 1⟩,
          ⟨"apply seq=1", true, "", "", 2⟩, ⟨"apply seq=2", true, "", "", 3⟩] ∧
      result.timeline = numbered [⟨(calls 0).eventId, (calls 0).eventTime, "session.step", "{}"⟩,
        ⟨(calls 3).eventId, (calls 3).eventTime, "session.step", "{}"⟩,
        ⟨(calls 4).eventId, (calls 4).eventTime, "session.step", "{}"⟩] ∧
      result.repeats = repeats := by
  have hsessions : (measureUser measure, measure) ≠ (demoUser session, session) := by
    intro h
    exact hne (Prod.mk.inj h).2.symm
  have hsequence : ∀ a ∈ sequence calls, ∀ b ∈ a.meanwhile,
      Elsewhere (demoUser session) session b ∧ Elsewhere (measureUser measure) measure b := by
    intro a ha
    simp only [sequence, List.mem_cons, List.not_mem_nil, or_false] at ha
    rcases ha with rfl | rfl | rfl | rfl | rfl
    all_goals exact (hcalls _).2
  obtain ⟨hholds, hsteps⟩ := holds_run unfit (fresh_of_inOrder hdb hclosed).open (sequence calls)
    fun a ha b hb => (hsequence a ha b hb).1
  obtain ⟨htold, hlog⟩ := run_sequence unfit calls fun i => (hcalls i).1
  -- The session that is measured is as fresh after the steps of the other one.
  have hfresh := ((fresh_of_inOrder hdb hclosed').same (same_open hsessions.symm db)).same
    (same_run unfit hsessions.symm (sequence calls) (fun a ha b hb => (hsequence a ha b hb).2) _)
  dsimp only [sessionDemo]
  have hrepeated := repeatApplied_spec unfit hsessions hfresh hmeasured hrepeats
  obtain ⟨hcount, hsame⟩ := hrepeated
  refine ⟨?_, ?_, hcount⟩
  · rw [hsteps, htold]
  · rw [(hholds.same hsame).timelineRows, hlog]
    rfl

/-- On empty tables, with another session opened during every call. -/
theorem session_demo_exact_default :
    let call : Call := ⟨7, 0, .returned, [.openSession "analyst" 3]⟩
    (sessionDemo (fun _ => "") 1 2 (fun _ => call) (fun _ => call) 20 Session.empty).repeats = 20 := by
  intro call
  have hcall : ∀ _ : Nat, call.outcome = .returned ∧ ∀ b ∈ call.meanwhile,
      Elsewhere (demoUser 1) 1 b ∧ Elsewhere (measureUser 2) 2 b := by
    simp [call, Elsewhere]
  exact (session_demo_exact (fun _ => "") Session.empty inOrder_empty 1 2 (by decide) (AList.notMem_empty _)
    (AList.notMem_empty _) (fun _ => call) (fun _ => call) hcall hcall 20 (by decide)).2.2

end HtapStack.SessionLog
