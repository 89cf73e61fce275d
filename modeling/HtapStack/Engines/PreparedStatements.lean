import HtapStack.Lib.Runs
import Mathlib.Data.Rat.Defs
import Mathlib.Logic.Function.Basic
/-!
# Prepared statements and their sessions

`connect`, `session` and `execute_transaction` of `CassandraClient` in
`backend/app/db/cassandra_client.py`, line by line: calls on any number of threads
take turns, and the two locks are all that keeps them apart. `connect` replaces the
session, and only then empties the cache of prepared statements; a transaction takes
the session first, and the cache's lock later.

`executed_on_own_session`: every prepared statement is executed on the session that
prepared it, as long as each transaction looks its statement up while the cache was
last emptied for the session that it took (`Current`). `reconnect_between`: else a
transaction that a reconnect overtook leaves its statement in the new cache.

Left out: parameters, rows and consistency levels.
-/

namespace HtapStack.PreparedStatements
open Runs

abbrev Session := Nat

structure Prepared where
  cql : List Char
  session : Session
  deriving DecidableEq, Repr

/-- The line a call is at. A `connect` is one of its own, or of a transaction that found no connection. -/
inductive Line where
  | finished
  | enter (force : Bool) (caller : Option (List Char))
  /-- Connected already, or too soon after the last attempt? -/
  | throttle (force : Bool) (caller : Option (List Char))
  | openCluster (force : Bool) (caller : Option (List Char))
  | clear (caller : Option (List Char))
  | setConnected (caller : Option (List Char))
  /-- The two lines of the handler. -/
  | setDisconnected (force : Bool) (caller : Option (List Char))
  | dropSession (force : Bool) (caller : Option (List Char))
  | leave (raised : Bool) (caller : Option (List Char))
  /-- The three lines of `session`, of a transaction. -/
  | checkConnected (cql : List Char)
  | checkSession (cql : List Char)
  | readSession (cql : List Char)
  | enterPrepare (cql : List Char) (session : Session)
  | lookup (cql : List Char) (session : Session)
  | prepare (cql : List Char) (session : Session)
  | store (prepared : Prepared) (session : Session)
  /-- With a statement, or with the exception that preparing it raised. -/
  | leavePrepare (session : Session) (prepared : Option Prepared)
  | execute (session : Session) (prepared : Prepared)
  deriving DecidableEq, Repr

/-- `emptiedFor` is the session there was when the cache was last emptied, and `executed` what was executed
on which session; no code reads them. -/
structure World where
  session : Option Session
  connected : Bool
  lastAttempt : ℚ
  prepared : List Char → Option Prepared
  lock : Option Nat
  prepareLock : Option Nat
  nextSession : Session
  emptiedFor : Option Session
  calls : Nat → Line
  executed : List (Session × Prepared)

def init : World := ⟨none, false, 0, fun _ => none, none, none, 0, none, fun _ => .finished, []⟩

/-- `RECONNECT_INTERVAL_S`. -/
def reconnectIntervalS : ℚ := 10

def World.set (w : World) (i : Nat) (line : Line) : World := { w with calls := Function.update w.calls i line }

/-- Where a call goes on after `connect`, which raises only when it is forced. -/
def afterConnect (raised : Bool) : Option (List Char) → Line
  | some cql => if raised then .finished else .checkSession cql
  | none => .finished

/-- The call on thread `i` does its line. The clock shows `now`, and `ok` says whether Cassandra answers. -/
def World.advance (w : World) (i : Nat) (now : ℚ) (ok : Bool) : Option World :=
  match w.calls i with
  | .finished => none
  | .enter force caller =>
    if w.lock.isNone then some ({ w with lock := some i }.set i (.throttle force caller)) else none
  | .throttle force caller =>
    if !force && (w.connected || decide (now - w.lastAttempt < reconnectIntervalS)) then
      some (w.set i (.leave false caller))
    else some ({ w with lastAttempt := now }.set i (.openCluster force caller))
  | .openCluster force caller =>
    if ok then
      some ({ w with session := some w.nextSession, nextSession := w.nextSession + 1 }.set i (.clear caller))
    else some (w.set i (.setDisconnected force caller))
  | .clear caller =>
    if w.prepareLock.isNone then
      some ({ w with prepared := fun _ => none, emptiedFor := w.session }.set i (.setConnected caller))
    else none
  | .setConnected caller => some ({ w with connected := true }.set i (.leave false caller))
  | .setDisconnected force caller => some ({ w with connected := false }.set i (.dropSession force caller))
  | .dropSession force caller => some ({ w with session := none }.set i (.leave force caller))
  | .leave raised caller => some ({ w with lock := none }.set i (afterConnect raised caller))
  | .checkConnected cql => some (w.set i (if w.connected then .checkSession cql else .enter false (some cql)))
  | .checkSession cql => some (w.set i (if w.session.isNone then .finished else .readSession cql))
  | .readSession cql =>
    match w.session with
    | some session => some (w.set i (.enterPrepare cql session))
    -- Dropped since the check: the call fails where it first uses it.
    | none => some (w.set i .finished)
  | .enterPrepare cql session =>
    if w.prepareLock.isNone then some ({ w with prepareLock := some i }.set i (.lookup cql session)) else none
  | .lookup cql session =>
    match w.prepared cql with
    | some prepared => some (w.set i (.leavePrepare session (some prepared)))
    | none => some (w.set i (.prepare cql session))
  | .prepare cql session =>
    some (w.set i (if ok then .store ⟨cql, session⟩ session else .leavePrepare session none))
  | .store prepared session =>
    some ({ w with prepared := Function.update w.prepared prepared.cql (some prepared) }.set i
      (.leavePrepare session (some prepared)))
  | .leavePrepare session prepared =>
    some ({ w with prepareLock := none }.set i (prepared.elim .finished (.execute session)))
  | .execute session prepared => some ({ w with executed := (session, prepared) :: w.executed }.set i .finished)

inductive Action where
  | connect (i : Nat) (force : Bool)
  | transaction (i : Nat) (cql : List Char)
  | advance (i : Nat) (now : ℚ) (ok : Bool)

/-- A thread that has finished its call may start another. -/
def World.begin (w : World) (i : Nat) (line : Line) : Option World :=
  if w.calls i = .finished then some (w.set i line) else none

def step (w : World) : Action → Option World
  | .connect i force => w.begin i (.enter force none)
  | .transaction i cql => w.begin i (.checkConnected cql)
  | .advance i now ok => w.advance i now ok

/-- Every statement was executed on the session that prepared it. -/
def Matched (w : World) : Prop := ∀ x ∈ w.executed, x.2.session = x.1

instance (w : World) : Decidable (Matched w) := inferInstanceAs (Decidable (∀ x ∈ w.executed, _))

/-- A transaction that is about to look its statement up took the session for which the cache was last emptied. -/
def Line.current (w : World) : Line → Bool
  | .lookup _ session => w.emptiedFor == some session
  | _ => true

/-- Whoever looks a statement up is current. -/
def Current (w : World) : Action → Prop
  | .advance i _ _ => (w.calls i).current w = true
  | _ => True

instance (w : World) (a : Action) : Decidable (Current w a) :=
  match a with
  | .advance _ _ _ => inferInstanceAs (Decidable (_ = true))
  | .connect _ _ | .transaction _ _ => isTrue trivial

/-! ## What a call knows -/

/-- Between its two locks' lines a transaction holds the cache's lock; what it prepares is of the session that
the cache is for, and what it executes is of its own. -/
def Good (w : World) (i : Nat) : Line → Prop
  | .lookup _ _ => w.prepareLock = some i
  | .prepare _ session => w.prepareLock = some i ∧ w.emptiedFor = some session
  | .store prepared session =>
    w.prepareLock = some i ∧ w.emptiedFor = some session ∧ prepared.session = session
  | .leavePrepare session prepared => w.prepareLock = some i ∧ ∀ p ∈ prepared, p.session = session
  | .execute session prepared => prepared.session = session
  | _ => True

structure Inv (w : World) : Prop where
  cache : ∀ cql p, w.prepared cql = some p → w.emptiedFor = some p.session
  calls : ∀ i, Good w i (w.calls i)
  matched : Matched w

/-- A step of thread `i` leaves the cache's lock and what the cache is for as they are, or takes or gives back
the lock, or empties the cache while nobody holds it. -/
def Frame (w v : World) (i : Nat) : Prop :=
  w.prepareLock = none ∨ v.emptiedFor = w.emptiedFor ∧ (v.prepareLock = w.prepareLock ∨ w.prepareLock = some i)

variable {w v : World} {i j : Nat} {line : Line}

/-- What another call knows stays true. -/
theorem Good.frame (h : Good w j line) (hij : j ≠ i) (hframe : Frame w v i) : Good v j line := by
  -- Only a call that holds the cache's lock knows something that a step could change.
  have hheld (hlock : w.prepareLock = some j) : v.prepareLock = some j ∧ v.emptiedFor = w.emptiedFor := by
    rcases hframe with hnone | ⟨hemptied, hsame | hmine⟩
    · rw [hlock] at hnone
      cases hnone
    · exact ⟨hsame.trans hlock, hemptied⟩
    · rw [hlock] at hmine
      exact absurd (Option.some.inj hmine) hij
  cases line with
  | lookup cql session => exact (hheld h).1
  | prepare cql session => exact ⟨(hheld h.1).1, (hheld h.1).2.trans h.2⟩
  | store prepared session => exact ⟨(hheld h.1).1, (hheld h.1).2.trans h.2.1, h.2.2⟩
  | leavePrepare session prepared => exact ⟨(hheld h.1).1, h.2⟩
  | execute session prepared => exact h
  | _ => trivial

theorem Good.set {line' : Line} (h : Good v j line') : Good (v.set i line) j line' := by
  cases line' <;> exact h

@[simp] theorem set_calls_self : (w.set i line).calls i = line := Function.update_self _ _ _

theorem set_calls_of_ne (h : j ≠ i) : (w.set i line).calls j = w.calls j := Function.update_of_ne h _ _

/-- A step that changes no more than its frame, and ends at a line that the call may be at. -/
theorem Inv.set (hw : Inv w) (hcalls : v.calls = w.calls) (hframe : Frame w v i) (hgood : Good v i line)
    (hcache : ∀ cql p, v.prepared cql = some p → v.emptiedFor = some p.session) (hmatched : Matched v) :
    Inv (v.set i line) where
  cache := hcache
  calls j := by
    rcases eq_or_ne j i with rfl | hij
    · rw [set_calls_self]
      exact hgood.set
    · rw [set_calls_of_ne hij, hcalls]
      exact ((hw.calls j).frame hij hframe).set
  matched := hmatched

/-- A step that touches neither the cache, nor its lock, nor what was executed. -/
theorem Inv.quiet (hw : Inv w) (hcalls : v.calls = w.calls) (hlock : v.prepareLock = w.prepareLock)
    (hemptied : v.emptiedFor = w.emptiedFor) (hprepared : v.prepared = w.prepared)
    (hexecuted : v.executed = w.executed) (hgood : Good v i line) : Inv (v.set i line) :=
  hw.set hcalls (.inr ⟨hemptied, .inl hlock⟩) hgood (by rw [hprepared, hemptied]; exact hw.cache)
    (by rw [Matched, hexecuted]; exact hw.matched)

/-! ## One line -/

/-- What a line of a call keeps, if a transaction at its lookup is current. -/
theorem Inv.advance (hw : Inv w) {now : ℚ} {ok : Bool} (hcurrent : Current w (.advance i now ok))
    (h : w.advance i now ok = some v) : Inv v := by
  have hgood := hw.calls i
  have hcurrent : (w.calls i).current w = true := hcurrent
  unfold World.advance at h
  cases hline : w.calls i with (rw [hline] at h hgood hcurrent; dsimp only at h)
  | finished => cases h
  | enter force caller =>
    split at h <;> cases h
    exact hw.quiet rfl rfl rfl rfl rfl trivial
  | throttle force caller =>
    split at h <;> cases h
    · exact hw.quiet rfl rfl rfl rfl rfl trivial
    · exact hw.quiet rfl rfl rfl rfl rfl trivial
  | openCluster force caller =>
    split at h <;> cases h
    · exact hw.quiet rfl rfl rfl rfl rfl trivial
    · exact hw.quiet rfl rfl rfl rfl rfl trivial
  | clear caller =>
    split at h <;> cases h
    next hfree =>
      exact hw.set rfl (.inl (Option.isNone_iff_eq_none.1 hfree)) trivial (fun _ _ hp => nomatch hp) hw.matched
  | setConnected caller | setDisconnected force caller | dropSession force caller =>
    cases h
    exact hw.quiet rfl rfl rfl rfl rfl trivial
  | leave raised caller =>
    cases h
    refine hw.quiet rfl rfl rfl rfl rfl ?_
    cases caller <;> cases raised <;> trivial
  | checkConnected cql | checkSession cql =>
    cases h
    refine hw.quiet rfl rfl rfl rfl rfl ?_
    split <;> trivial
  | readSession cql =>
    split at h <;> cases h
    · exact hw.quiet rfl rfl rfl rfl rfl trivial
    · exact hw.quiet rfl rfl rfl rfl rfl trivial
  | enterPrepare cql session =>
    split at h <;> cases h
    next hfree =>
      exact hw.set rfl (.inl (Option.isNone_iff_eq_none.1 hfree)) rfl hw.cache hw.matched
  | lookup cql session =>
    have hsession : w.emptiedFor = some session := beq_iff_eq.1 hcurrent
    split at h <;> cases h
    · next prepared hprepared =>
      refine hw.quiet rfl rfl rfl rfl rfl ⟨hgood, ?_⟩
      rintro p ⟨⟩
      exact Option.some.inj ((hw.cache cql prepared hprepared).symm.trans hsession)
    · exact hw.quiet rfl rfl rfl rfl rfl ⟨hgood, hsession⟩
  | prepare cql session =>
    cases h
    refine hw.quiet rfl rfl rfl rfl rfl ?_
    split
    · exact ⟨hgood.1, hgood.2, rfl⟩
    · exact ⟨hgood.1, fun _ hp => nomatch hp⟩
  | store prepared session =>
    cases h
    obtain ⟨hlock, hsession, hown⟩ := hgood
    refine hw.set rfl (.inr ⟨rfl, .inl rfl⟩) ⟨hlock, ?_⟩ ?_ hw.matched
    · rintro p ⟨⟩
      exact hown
    · intro cql p hp
      dsimp only at hp ⊢
      rcases eq_or_ne cql prepared.cql with rfl | hne
      · rw [Function.update_self] at hp
        cases hp
        exact hsession.trans (congrArg some hown.symm)
      · rw [Function.update_of_ne hne] at hp
        exact hw.cache cql p hp
  | leavePrepare session prepared =>
    cases h
    refine hw.set rfl (.inr ⟨rfl, .inr hgood.1⟩) ?_ hw.cache hw.matched
    cases prepared with
    | none => trivial
    | some p => exact hgood.2 p rfl
  | execute session prepared =>
    cases h
    exact hw.set rfl (.inr ⟨rfl, .inl rfl⟩) trivial hw.cache (List.forall_mem_cons.2 ⟨hgood, hw.matched⟩)

theorem Inv.begin (hw : Inv w) (hgood : Good w i line) (h : w.begin i line = some v) : Inv v := by
  unfold World.begin at h
  split at h <;> cases h
  exact hw.quiet rfl rfl rfl rfl rfl hgood

theorem Inv.step {a : Action} (hw : Inv w) (hcurrent : Current w a) (h : step w a = some v) : Inv v := by
  cases a with
  | connect i force => exact hw.begin (show Good w i (.enter force none) from trivial) h
  | transaction i cql => exact hw.begin (show Good w i (.checkConnected cql) from trivial) h
  | advance i now ok => exact hw.advance hcurrent h

/-! ## Runs -/

theorem inv_init : Inv init := ⟨fun _ _ h => (nomatch h), fun _ => trivial, fun _ h => nomatch h⟩

/-- In every interleaving in which each lookup is by a transaction that is current, every statement is
executed on the session that prepared it. -/
theorem executed_on_own_session (as : List Action) (h : Each step Current init as) : Always step Matched init as :=
  always_of_each (I := Inv) (fun _ _ _ => Inv.step) (fun _ hw => hw.matched) inv_init h

/-- Thread `i` does so many lines, Cassandra answering. -/
def advances (i lines : Nat) : List Action := List.replicate lines (.advance i 0 true)

def statement : List Char := "BEGIN TRANSACTION".toList

/-- A connection, and a transaction that prepares its statement. While a reconnect is on its way another begins, and
takes the new session. -/
def reconnected : List Action :=
  [.connect 0 true] ++ advances 0 6 ++ [.transaction 1 statement] ++ advances 1 9 ++
    [.connect 0 true] ++ advances 0 3 ++ [.transaction 2 statement] ++ advances 2 2 ++ advances 0 3 ++ advances 2 7

theorem executed_on_own_session_twice : Always step Matched init reconnected ∧
    (exec step init reconnected).map (·.executed) = some [(1, ⟨statement, 1⟩), (0, ⟨statement, 0⟩)] :=
  ⟨executed_on_own_session reconnected (by decide +kernel), by decide +kernel⟩

/-! ## A reconnect in between -/

/-- After the first transaction has taken its session there is a reconnect, and a second transaction after it. -/
def overtaken : List Action :=
  [.connect 0 true] ++ advances 0 6 ++ [.transaction 1 statement] ++ advances 1 3 ++
    [.connect 0 true] ++ advances 0 6 ++ advances 1 6 ++ [.transaction 2 statement] ++ advances 2 7

/-- The second executes on the new session what the first prepared on the old. -/
theorem reconnect_between : ¬ ∀ as, Always step Matched init as := by
  intro h
  have hrun : (exec step init overtaken).map (·.executed) = some [(1, ⟨statement, 0⟩), (0, ⟨statement, 0⟩)] := by
    decide +kernel
  obtain ⟨w, hw, hexecuted⟩ := Option.map_eq_some_iff.1 hrun
  have hmatched := (h overtaken).last hw
  rw [Matched, hexecuted] at hmatched
  exact absurd (hmatched (1, ⟨statement, 0⟩) List.mem_cons_self) (by decide)

end HtapStack.PreparedStatements
