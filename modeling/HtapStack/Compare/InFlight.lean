import HtapStack.Lib.Runs
/-!
# The comparison in flight

The module globals of `backend/app/routes/query.py` through which comparisons
and the cancel meet: the one-at-a-time lock, the record of what is running, and
the cancel flag. `_begin_run` takes the lock, clears the flag and writes the
record; `_end_run` undoes it in the order record, flag, lock. Each of these is a
step of its own, because `cancel_comparison` reads and writes the same globals
without the lock.

Left out: the run's clock and its results.
-/

namespace HtapStack.Compare

inductive Engine where
  | cassandra
  | presto
  | spark
  | sparkBulk
  | cqlite
  deriving DecidableEq, Repr

inductive Mode where
  | sequential
  | parallel
  deriving DecidableEq, Repr

/-- `_in_flight`. A Python dict has an identity: `run` is the request it is of. -/
structure RunRecord where
  run : Nat
  mode : Mode
  engines : List Engine
  sparkStatements : List String
  deriving DecidableEq, Repr

/-- `lock` says which run acquired it, which the lock itself does not know. -/
structure Globals where
  lock : Option Nat
  inFlight : Option RunRecord
  cancelRequested : Bool
  deriving DecidableEq, Repr

def Globals.init : Globals := ⟨none, none, false⟩

/-- What is left of `_begin_run` once it has the lock. -/
inductive BeginPc where
  | clear
  | record
  | respond
  deriving DecidableEq, Repr

/-- What is left of `_end_run`. -/
inductive EndPc where
  | forget
  | clear
  | release
  deriving DecidableEq, Repr

namespace Globals

/-- `_comparison_lock.acquire(blocking=False)`. -/
def acquire (g : Globals) (run : Nat) : Option Globals :=
  match g.lock with
  | none => some { g with lock := some run }
  | some _ => none

/-- One statement of `_begin_run`, and what is left of it. -/
def beginStep (g : Globals) (record : RunRecord) : BeginPc → Globals × Option BeginPc
  | .clear => ({ g with cancelRequested := false }, some .record)
  | .record => ({ g with inFlight := some record }, some .respond)
  | .respond => (g, none)

/-- One statement of `_end_run`, and what is left of it. -/
def endStep (g : Globals) : EndPc → Globals × Option EndPc
  | .forget => ({ g with inFlight := none }, some .clear)
  | .clear => ({ g with cancelRequested := false }, some .release)
  | .release => ({ g with lock := none }, none)

end Globals

/-! ## What a cancel does -/

/-- The two lists that a cancel picks from: the Presto coordinator's queries and
the Thrift Server's jobs. -/
inductive Listing where
  | queries
  | jobs
  deriving DecidableEq, Repr

/-- The steps of `cancel_comparison` after it has read the record, each of which
leaves the run, other runs and other statements free to move before the next. -/
inductive CancelStep where
  | setFlag
  | list (l : Listing)
  | kill (l : Listing) (id : Nat)
  /-- `abort` of the client behind this path. -/
  | abort (engine : Engine)
  deriving DecidableEq, Repr

/-- What `cancel_comparison` goes through for the run it found. The kills are
added once the lists are there. -/
def cancelPlan (run : RunRecord) : List CancelStep :=
  [CancelStep.setFlag] ++
  (if Engine.presto ∈ run.engines then [CancelStep.list .queries] else []) ++
  (if Engine.spark ∈ run.engines then [CancelStep.abort .spark] else []) ++
  (if Engine.sparkBulk ∈ run.engines then [CancelStep.abort .sparkBulk] else []) ++
  (if Engine.cqlite ∈ run.engines then [CancelStep.abort .cqlite] else []) ++
  (if run.sparkStatements ≠ [] then [CancelStep.list .jobs] else [])

/-- Where a cancel stands. -/
inductive CancelPc where
  | idle
  | acting (run : RunRecord) (todo : List CancelStep)
  | returned
  deriving DecidableEq, Repr

/-- With the plan done, the cancel returns. -/
def CancelPc.of (run : RunRecord) : List CancelStep → CancelPc
  | [] => .returned
  | todo => .acting run todo

/-- An exception in one of the `try` blocks: what is left of the block is skipped. -/
def CancelStep.isKill : CancelStep → Bool
  | .kill .. => true
  | _ => false

def skipBlock (todo : List CancelStep) : List CancelStep := todo.dropWhile CancelStep.isKill

theorem CancelPc.of_eq_acting {run run' : RunRecord} {todo todo' : List CancelStep}
    (h : CancelPc.of run todo = .acting run' todo') : run' = run ∧ todo' = todo := by
  cases todo with
  | nil => cases h
  | cons s todo => cases h; exact ⟨rfl, rfl⟩

theorem mem_of_mem_skipBlock {s : CancelStep} {todo : List CancelStep} (h : s ∈ skipBlock todo) : s ∈ todo :=
  (List.dropWhile_sublist _).subset h

/-- Only kills are skipped. -/
theorem mem_skipBlock {s : CancelStep} {todo : List CancelStep} (h : s ∈ todo) (hk : s.isKill = false) :
    s ∈ skipBlock todo := by
  induction todo with
  | nil => cases h
  | cons s' todo ih =>
    unfold skipBlock at ih ⊢
    rw [List.dropWhile_cons]
    split
    · rcases List.mem_cons.1 h with rfl | h
      · simp_all
      · exact ih h
    · exact h

theorem kill_notMem_cancelPlan (run : RunRecord) (l : Listing) (id : Nat) : .kill l id ∉ cancelPlan run := by
  simp [cancelPlan, apply_ite (CancelStep.kill l id ∈ ·)]

end HtapStack.Compare
