import HtapStack.Compare.InFlight
import Mathlib.Logic.Function.Basic
/-!
# What a cancel misses

One comparison and one cancel of it, in `backend/app/routes/query.py`. A path
goes through `_run`: it is reached (in the sequential mode only while the flag is
clear), finds its client connected or connects it, issues its statement and
waits. The cancel acts on one kind of client after the other, and on none of
Cassandra's.

`complete_of_stoppable`: once the cancel has returned no path issues its
statement, and every path then unfinished is stopped or reported as cancelled,
as long as each path can be stopped where the cancel meets it (`Stoppable`). A
path between the test of the flag and its statement cannot, nor can, in the
parallel mode, a path whose thread the baseline still holds up.

Left out: the probes, and other statements on the same clients. `late` and
`unfinished` are history that no code reads.
-/

namespace HtapStack.Completeness
open Compare Runs

/-- How a path ended: with rows, with an error of its own, or because the cancel
stopped it. -/
inductive Outcome where
  | answered
  | failed
  | aborted
  deriving DecidableEq, Repr

inductive Leg where
  | waiting
  /-- In `_run`, before its client was found connected. -/
  | starting
  /-- About to execute its statement. -/
  | ready
  /-- The statement is at the engine. -/
  | issued
  /-- The statement was stopped at the engine. -/
  | cut
  | finished (outcome : Outcome)
  deriving DecidableEq, Repr

/-- A client's connection. The socket of an aborted one is still there, closed. -/
inductive Socket where
  | none
  | live
  | closed
  deriving DecidableEq, Repr

/-- Where the request stands. It answers with whether it was cancelled. -/
inductive Phase where
  | baseline
  | legs
  | responded (cancelled : Bool)
  deriving DecidableEq, Repr

structure World where
  phase : Phase
  cancelRequested : Bool
  leg : Engine → Leg
  socket : Engine → Socket
  cancel : CancelPc
  /-- The paths that issued their statement after the cancel had returned. -/
  late : List Engine
  /-- The paths that were unfinished when it returned. -/
  unfinished : List Engine

/-- The run is in flight; some clients are connected already. -/
def init (connected : Engine → Bool) : World :=
  ⟨.baseline, false, fun _ => .waiting, fun e => if connected e then .live else .none, .idle, [], []⟩

inductive Action where
  /-- The baseline is done. -/
  | begin
  /-- `_run_sequence` or `_run_together` comes to a path. -/
  | start (e : Engine)
  /-- The path's client is connected, or connects. -/
  | connect (e : Engine) (ok : Bool)
  | issue (e : Engine)
  /-- The engine answers, or refuses. -/
  | finish (e : Engine) (ok : Bool)
  /-- A stopped statement reports so. -/
  | stopped (e : Engine)
  | respond
  /-- The cancel reads `_in_flight`. -/
  | find
  | cancel (works raises : Bool)

def Leg.isFinished : Leg → Bool
  | .finished _ => true
  | _ => false

/-- Whether the loop over the paths comes to `e` now. One at a time, the paths
before it are finished and the flag is clear; together, their threads are
started and the flag is not asked. -/
def reaches (run : RunRecord) (w : World) (e : Engine) : Bool :=
  let before := run.engines.takeWhile (· != e)
  run.engines.contains e && match run.mode with
  | .sequential => !w.cancelRequested && before.all fun e => (w.leg e).isFinished
  | .parallel => before.all fun e => w.leg e != .waiting

/-- Whether the loop is over: each path is finished, or, one at a time, the next
one was not started because of the flag. -/
def loopOver (run : RunRecord) (w : World) : Bool :=
  run.engines.all fun e => (w.leg e).isFinished ||
    (run.mode == .sequential && w.cancelRequested && w.leg e == .waiting)

def World.setLeg (w : World) (e : Engine) (l : Leg) : World :=
  { w with leg := Function.update w.leg e l }

/-- A statement at the engine is stopped. -/
def World.cut (w : World) (e : Engine) : World :=
  if w.leg e = .issued then w.setLeg e .cut else w

/-- An open socket is closed, under a statement or before it. -/
def World.close (w : World) (e : Engine) : World :=
  if w.socket e = .live then { w.cut e with socket := Function.update w.socket e .closed } else w

/-- The Spark path that a job is of. -/
def jobEngine : Nat → Engine
  | 0 => .spark
  | _ => .sparkBulk

/-- What one step of the cancel does, and what it adds to the rest of the plan. -/
def World.act (w : World) : CancelStep → World × List CancelStep
  | .setFlag => ({ w with cancelRequested := true }, [])
  | .list .queries => (w, if w.leg .presto = .issued then [.kill .queries 0] else [])
  | .kill .queries _ => (w.cut .presto, [])
  | .abort .cqlite => (w.cut .cqlite, [])
  | .abort e => (w.close e, [])
  | .list .jobs => (w, ([0, 1].filter fun j => w.leg (jobEngine j) == .issued || w.leg (jobEngine j) == .cut).map
      (.kill .jobs ·))
  | .kill .jobs j => (w.cut (jobEngine j), [])

/-- The cancel goes on with `todo`, or returns. -/
def World.goOn (run : RunRecord) (w : World) (todo : List CancelStep) : World :=
  { w with
    cancel := .of run todo
    unfinished := if todo = [] then run.engines.filter fun e => !(w.leg e).isFinished else w.unfinished }

/-- A step of the cancel, which may not work, and what is left of the plan. -/
def World.next (w : World) (works raises : Bool) (s : CancelStep) (todo : List CancelStep) :
    World × List CancelStep :=
  let (w, kills) := if works then w.act s else (w, [])
  (w, if raises then skipBlock todo else kills ++ todo)

def step (run : RunRecord) (w : World) : Action → Option World
  | .begin => if w.phase = .baseline then some { w with phase := .legs } else none
  | .start e =>
    if w.phase = .legs ∧ w.leg e = .waiting ∧ reaches run w e = true then some (w.setLeg e .starting)
    else none
  | .connect e ok =>
    if w.leg e = .starting then
      if w.socket e = .live then some (w.setLeg e .ready)
      else if ok then some { w.setLeg e .ready with socket := Function.update w.socket e .live }
      else some (w.setLeg e (.finished .failed))
    else none
  | .issue e =>
    if w.leg e = .ready then
      match w.socket e with
      | .live => some { w.setLeg e .issued with late := if w.cancel = .returned then e :: w.late else w.late }
      | .closed => some (w.setLeg e (.finished .aborted))
      | .none => some (w.setLeg e (.finished .failed))
    else none
  | .finish e ok =>
    if w.leg e = .issued then some (w.setLeg e (.finished (if ok then .answered else .failed))) else none
  | .stopped e => if w.leg e = .cut then some (w.setLeg e (.finished .aborted)) else none
  | .respond =>
    if w.phase = .legs ∧ loopOver run w = true then some { w with phase := .responded w.cancelRequested }
    else none
  | .find => if w.cancel = .idle then some (w.goOn run (cancelPlan run)) else none
  | .cancel works raises =>
    match w.cancel with
    | .acting _ (s :: todo) =>
      if s = .setFlag ∧ (works = false ∨ raises = true) then none
      else some ((w.next works raises s todo).1.goOn run (w.next works raises s todo).2)
    | _ => none

/-! ## What it means to be complete -/

/-- No path issued its statement after the cancel had returned. A path that was
unfinished then has not ended but by being stopped; and if it was never started,
the response says that the run was cancelled. -/
def Complete (run : RunRecord) (w : World) : Prop :=
  w.late = [] ∧ ∀ e ∈ run.engines, e ∈ w.unfinished →
    (∀ o, w.leg e = .finished o → o = .aborted) ∧
      (w.leg e = .waiting → ∀ c, w.phase = .responded c → c = true)

/-- The cancel's step finds its path where it can stop it: not reached yet, one
at a time; at the engine; about to execute on a socket that is closed; or over.
And a step that is needed works. -/
def InReach (run : RunRecord) (w : World) (works raises : Bool) : CancelStep → Prop
  | .list .queries =>
    match w.leg .presto with
    | .waiting => run.mode = .sequential
    | .issued => works = true ∧ raises = false
    | .starting | .ready => False
    | .cut | .finished _ => True
  | .kill .queries _ => w.leg .presto = .issued → works = true
  | .abort e =>
    match w.leg e with
    | .waiting => run.mode = .sequential
    | .issued => works = true
    | .ready => works = true ∧ w.socket e = .live ∧ e ≠ .cqlite
    | .starting => False
    | .cut | .finished _ => True
  | .setFlag | .list .jobs | .kill .jobs _ => True

/-- Each step of the cancel is in reach of its path, and when the last is taken
no Cassandra path is under way. -/
def Stoppable (run : RunRecord) (w : World) : Action → Prop
  | .cancel works raises =>
    match w.cancel with
    | .acting _ (s :: todo) => InReach run w works raises s ∧
        ((w.next works raises s todo).2 = [] → .cassandra ∈ run.engines →
          (w.leg .cassandra).isFinished = true ∨ w.leg .cassandra = .waiting ∧ run.mode = .sequential)
    | _ => True
  | _ => True

instance (run : RunRecord) (w : World) (works raises : Bool) (s : CancelStep) :
    Decidable (InReach run w works raises s) := by
  unfold InReach
  split <;> first | infer_instance | split <;> infer_instance

instance (run : RunRecord) (w : World) (a : Action) : Decidable (Stoppable run w a) := by
  unfold Stoppable
  split
  · split <;> infer_instance
  · infer_instance

/-! ## What a step does to one path -/

/-- The path is of the run, whose loop has begun and is not stopped by the flag. -/
def MayStart (run : RunRecord) (w : World) (e : Engine) : Prop :=
  e ∈ run.engines ∧ w.phase = .legs ∧ (run.mode = .sequential → w.cancelRequested = false)

/-- A path's leg and socket before and after a step, if it may start or not. -/
inductive LegMove (may : Prop) : Leg → Socket → Leg → Socket → Prop
  | stay {l s} : LegMove may l s l s
  | start {s} (h : may) : LegMove may .waiting s .starting s
  | connect {s} : LegMove may .starting s .ready .live
  | refused {s} : LegMove may .starting s (.finished .failed) s
  | issue : LegMove may .ready .live .issued .live
  | dead : LegMove may .ready .closed (.finished .aborted) .closed
  | gone : LegMove may .ready .none (.finished .failed) .none
  | finish {s o} : LegMove may .issued s (.finished o) s
  | stopped {s} : LegMove may .cut s (.finished .aborted) s
  | cut {s} : LegMove may .issued s .cut s
  | close {l} : LegMove may l .live (if l = .issued then .cut else l) .closed

/-- A path that is over, or may not start, stays as it is. -/
theorem LegMove.over {may p : Prop} {l l' : Leg} {s s' : Socket} (hm : LegMove may l s l' s') (hno : ¬ may)
    (h : l.isFinished = true ∨ l = .waiting ∧ p) : l'.isFinished = true ∨ l' = .waiting ∧ p := by
  cases hm with
  | stay => exact h
  | start hs => exact absurd hs hno
  | close => cases l <;> simp_all [Leg.isFinished]
  | _ => simp_all [Leg.isFinished]

variable {run : RunRecord} {w w' : World}

theorem setLeg_leg (w : World) (e e' : Engine) (l : Leg) :
    (w.setLeg e l).leg e' = if e' = e then l else w.leg e' := Function.update_apply ..

theorem cut_leg (w : World) (e e' : Engine) :
    (w.cut e).leg e' = if e' = e ∧ w.leg e' = .issued then .cut else w.leg e' := by
  unfold World.cut
  by_cases he : e' = e
  · subst he
    by_cases hl : w.leg e' = .issued
    · rw [if_pos hl, setLeg_leg, if_pos rfl, if_pos ⟨rfl, hl⟩]
    · rw [if_neg hl, if_neg fun h => hl h.2]
  · simp only [he, false_and, if_false]
    split
    · rw [setLeg_leg, if_neg he]
    · rfl

theorem cut_socket (w : World) (e : Engine) : (w.cut e).socket = w.socket := by
  unfold World.cut
  split <;> rfl

theorem cut_move {may : Prop} (w : World) (e e' : Engine) :
    LegMove may (w.leg e') (w.socket e') ((w.cut e).leg e') ((w.cut e).socket e') := by
  rw [cut_leg, cut_socket]
  split
  · rename_i h
    rw [h.2]
    exact .cut
  · exact .stay

theorem close_move {may : Prop} (w : World) (e e' : Engine) :
    LegMove may (w.leg e') (w.socket e') ((w.close e).leg e') ((w.close e).socket e') := by
  unfold World.close
  split
  · rename_i hs
    simp only [cut_leg]
    by_cases he : e' = e
    · subst he
      simp only [true_and, Function.update_self, hs]
      exact .close
    · simp only [he, false_and, if_false, Function.update_of_ne he]
      exact .stay
  · exact .stay

theorem act_move {may : Prop} (w : World) (s : CancelStep) (e : Engine) :
    LegMove may (w.leg e) (w.socket e) ((w.act s).1.leg e) ((w.act s).1.socket e) := by
  cases s with
  | setFlag => exact .stay
  | list l => cases l <;> exact .stay
  | kill l id => cases l <;> exact cut_move _ _ _
  | abort e' => cases e' <;> first | exact close_move _ _ _ | exact cut_move _ _ _

theorem next_move {may : Prop} (w : World) (works raises : Bool) (s : CancelStep) (todo : List CancelStep)
    (e : Engine) : LegMove may (w.leg e) (w.socket e) ((w.next works raises s todo).1.leg e)
      ((w.next works raises s todo).1.socket e) := by
  cases works with
  | true => exact act_move w s e
  | false => exact .stay

/-- A step moves each path by one move at most, and starts none that may not. -/
theorem step_move {a : Action} (h : step run w a = some w') (e : Engine) :
    LegMove (MayStart run w e) (w.leg e) (w.socket e) (w'.leg e) (w'.socket e) := by
  -- Every step but a connect, a close and a cut moves one path and no socket.
  have hset {e' l l'} (hl : w.leg e' = l) (hm : LegMove (MayStart run w e') l (w.socket e') l' (w.socket e')) :
      LegMove (MayStart run w e) (w.leg e) (w.socket e) ((w.setLeg e' l').leg e) (w.socket e) := by
    rw [setLeg_leg]
    split
    · subst e; rw [hl]; exact hm
    · exact .stay
  cases a with
  | begin | respond =>
    simp only [step] at h
    split at h
    · cases h; exact .stay
    · cases h
  | find =>
    simp only [step] at h
    split at h
    · cases h; exact .stay
    · cases h
  | start e' =>
    simp only [step] at h
    split at h
    · rename_i hg
      cases h
      have hr := hg.2.2
      simp only [reaches, Bool.and_eq_true, List.contains_iff_mem] at hr
      refine hset hg.2.1 (.start ⟨hr.1, hg.1, fun hm => ?_⟩)
      have hr := hr.2
      rw [hm] at hr
      simp only [Bool.and_eq_true, Bool.not_eq_true'] at hr
      exact hr.1
    · cases h
  | connect e' ok =>
    simp only [step] at h
    split at h
    · rename_i hl
      split at h
      · rename_i hs
        cases h
        refine hset hl ?_
        rw [hs]
        exact .connect
      · split at h
        · cases h
          by_cases he : e = e'
          · subst he
            simp only [setLeg_leg, if_pos, hl, Function.update_self]
            exact .connect
          · simp only [setLeg_leg, he, if_false, Function.update_of_ne he]
            exact .stay
        · cases h
          exact hset hl .refused
    · cases h
  | issue e' =>
    simp only [step] at h
    split at h
    · rename_i hl
      split at h <;> rename_i hs <;> cases h <;> refine hset hl ?_ <;> rw [hs]
      · exact .issue
      · exact .dead
      · exact .gone
    · cases h
  | finish e' ok =>
    simp only [step] at h
    split at h
    · rename_i hl
      cases h
      exact hset hl .finish
    · cases h
  | stopped e' =>
    simp only [step] at h
    split at h
    · rename_i hl
      cases h
      exact hset hl .stopped
    · cases h
  | cancel works raises =>
    simp only [step] at h
    split at h
    · split at h
      · cases h
      · cases h
        exact next_move w works raises _ _ e
    · cases h

theorem next_flag {works raises : Bool} {s : CancelStep} {todo : List CancelStep} (h : w.cancelRequested = true) :
    (w.next works raises s todo).1.cancelRequested = true := by
  have hcut : ∀ e, (w.cut e).cancelRequested = true := fun e => by
    unfold World.cut
    split <;> exact h
  have hclose : ∀ e, (w.close e).cancelRequested = true := fun e => by
    unfold World.close
    split
    · exact hcut e
    · exact h
  cases works with
  | false => exact h
  | true =>
    cases s with
    | setFlag => rfl
    | list l => cases l <;> exact h
    | kill l id => cases l <;> exact hcut _
    | abort e => cases e <;> first | exact hclose _ | exact hcut _

/-! ## Paths that the cancel has caught -/

/-- Whatever happens, the path issues no statement from here on, and ends stopped
if it has not ended yet. -/
def Caught (run : RunRecord) (w : World) (e : Engine) : Prop :=
  match w.leg e with
  | .waiting => run.mode = .sequential ∧ w.cancelRequested = true
  | .ready => w.socket e = .closed
  | .cut | .finished _ => True
  | .starting | .issued => False

/-- The cancel has yet to come to the path. -/
def Pending (w : World) (todo : List CancelStep) : Engine → Prop
  | .presto => .list .queries ∈ todo ∨ w.leg .presto = .issued ∧ ∃ rest, todo = .kill .queries 0 :: rest
  | .cassandra => True
  | e => .abort e ∈ todo

theorem Caught.move {e : Engine} (hc : Caught run w e)
    (hflag : w.cancelRequested = true → w'.cancelRequested = true)
    (hm : LegMove (MayStart run w e) (w.leg e) (w.socket e) (w'.leg e) (w'.socket e)) : Caught run w' e := by
  unfold Caught at hc ⊢
  -- A path that waits is held up by the flag, one at a time.
  have hno : run.mode = .sequential ∧ w.cancelRequested = true → ¬ MayStart run w e := by
    rintro ⟨hm, hf⟩ hs
    rw [hs.2.2 hm] at hf
    cases hf
  generalize w.leg e = l, w.socket e = s, w'.leg e = l', w'.socket e = s' at *
  cases hm with
  | stay => cases l <;> simp_all
  | start h => exact absurd h (hno hc)
  | close => cases l <;> simp_all
  | _ => simp_all

/-- A path that the cancel has yet to come to stays so, or is over before. -/
theorem Pending.move {e : Engine} {todo : List CancelStep} (hp : Pending w todo e)
    (hm : LegMove (MayStart run w e) (w.leg e) (w.socket e) (w'.leg e) (w'.socket e)) :
    Caught run w' e ∨ Pending w' todo e := by
  cases e with
  | presto =>
    rcases hp with hp | ⟨hl, hp⟩
    · exact .inr (.inl hp)
    · have hleg : w'.leg .presto = .issued ∨ Caught run w' .presto := by
        unfold Caught
        rw [hl] at hm
        generalize w.socket .presto = s, w'.leg .presto = l', w'.socket .presto = s' at *
        cases hm <;> simp
      exact hleg.symm.imp_right fun hl' => .inr ⟨hl', hp⟩
  | _ => exact .inr hp

/-! ## The cancel goes on -/

theorem mem_next {s s' : CancelStep} {works raises : Bool} {todo : List CancelStep} (h : s' ∈ todo)
    (hk : s'.isKill = false) : s' ∈ (w.next works raises s todo).2 := by
  unfold World.next
  cases raises with
  | true => exact mem_skipBlock h hk
  | false => exact List.mem_append_right _ h

theorem setFlag_notMem_next {s : CancelStep} {works raises : Bool} {todo : List CancelStep}
    (h : .setFlag ∉ todo) : .setFlag ∉ (w.next works raises s todo).2 := by
  have hact : .setFlag ∉ (w.act s).2 := by
    cases s with
    | list l => cases l <;> simp [World.act, apply_ite (CancelStep.setFlag ∈ ·)]
    | kill l id => cases l <;> exact List.not_mem_nil
    | abort e => cases e <;> exact List.not_mem_nil
    | setFlag => exact List.not_mem_nil
  unfold World.next
  cases raises with
  | true => exact fun hm => h (mem_of_mem_skipBlock hm)
  | false =>
    cases works with
    | true => exact fun hm => (List.mem_append.1 hm).elim hact h
    | false => exact fun hm => (List.mem_append.1 hm).elim List.not_mem_nil h

section
variable {s : CancelStep} {works raises : Bool} {todo : List CancelStep} {e : Engine}

theorem Caught.next (h : Caught run w e) : Caught run (w.next works raises s todo).1 e :=
  h.move next_flag (next_move w works raises s todo e)

/-- Aborting a path's client in reach catches the path. -/
theorem caught_abort (hflag : w.cancelRequested = true) (hlive : w.leg e = .issued → w.socket e = .live)
    (he : e = .spark ∨ e = .sparkBulk ∨ e = .cqlite) (hr : InReach run w works raises (.abort e)) :
    Caught run (w.next works raises (.abort e) todo).1 e := by
  cases hl : w.leg e with
  | waiting =>
    refine Caught.next ?_
    simp only [InReach, hl] at hr
    simp only [Caught, hl]
    exact ⟨hr, hflag⟩
  | starting => simp only [InReach, hl] at hr
  | ready =>
    simp only [InReach, hl] at hr
    obtain ⟨rfl, hs, hne⟩ := hr
    have hclose : w.act (.abort e) = (w.close e, []) := by
      rcases he with rfl | rfl | rfl <;> first | rfl | exact absurd rfl hne
    simp [Caught, World.next, hclose, World.close, hs, cut_leg, hl]
  | issued =>
    simp only [InReach, hl] at hr
    subst hr
    have hcut : ((w.act (.abort e)).1).leg e = .cut := by
      rcases he with rfl | rfl | rfl <;> simp [World.act, World.close, cut_leg, hl, hlive hl]
    simp [Caught, World.next, hcut]
  | cut | finished => exact Caught.next (by simp only [Caught, hl])

/-- Listing the queries in reach catches the Presto path, or its kill is next. -/
theorem caught_list (hflag : w.cancelRequested = true) (hr : InReach run w works raises (.list .queries)) :
    Caught run (w.next works raises (.list .queries) todo).1 .presto ∨
      Pending (w.next works raises (.list .queries) todo).1 (w.next works raises (.list .queries) todo).2 .presto := by
  cases hl : w.leg .presto with
  | waiting =>
    refine .inl (Caught.next ?_)
    simp only [InReach, hl] at hr
    simp only [Caught, hl]
    exact ⟨hr, hflag⟩
  | starting | ready => simp only [InReach, hl] at hr
  | issued =>
    simp only [InReach, hl] at hr
    obtain ⟨rfl, rfl⟩ := hr
    exact .inr (.inr ⟨hl, todo, by simp [World.next, World.act, hl]⟩)
  | cut | finished => exact .inl (Caught.next (by simp only [Caught, hl]))

/-- A step in reach leaves no path behind: each is caught, or still to come to. -/
theorem caught_or_pending_next (hflag : w.cancelRequested = true)
    (hlive : w.leg e = .issued → w.socket e = .live) (hr : InReach run w works raises s)
    (hp : Caught run w e ∨ Pending w (s :: todo) e) :
    Caught run (w.next works raises s todo).1 e ∨
      Pending (w.next works raises s todo).1 (w.next works raises s todo).2 e := by
  have habort (he : e = .spark ∨ e = .sparkBulk ∨ e = .cqlite) (hmem : .abort e ∈ s :: todo) :
      Caught run (w.next works raises s todo).1 e ∨ .abort e ∈ (w.next works raises s todo).2 := by
    rcases List.mem_cons.1 hmem with rfl | hmem
    · exact .inl (caught_abort hflag hlive he hr)
    · exact .inr (mem_next hmem rfl)
  rcases hp with hp | hp
  · exact .inl hp.next
  · cases e with
    | cassandra => exact .inr trivial
    | presto =>
      rcases hp with hp | ⟨hl, todo', htodo⟩
      · rcases List.mem_cons.1 hp with rfl | hp
        · exact caught_list hflag hr
        · exact .inr (.inl (mem_next hp rfl))
      · obtain ⟨rfl, -⟩ := List.cons.inj htodo
        obtain rfl : works = true := hr hl
        refine .inl ?_
        simp [Caught, World.next, World.act, cut_leg, hl]
    | spark => exact habort (.inl rfl) hp
    | sparkBulk => exact habort (.inr (.inl rfl)) hp
    | cqlite => exact habort (.inr (.inr rfl)) hp

end

/-! ## The invariant -/

structure Inv (run : RunRecord) (w : World) : Prop where
  only : ∀ e, w.leg e ≠ .waiting → e ∈ run.engines
  live : ∀ e, w.leg e = .issued → w.socket e = .live
  /-- The run answers when its paths are over, or were held up by the flag. -/
  responded : ∀ c, w.phase = .responded c → ∀ e ∈ run.engines,
    (w.leg e).isFinished = true ∨ w.leg e = .waiting ∧ c = true
  early : w.cancel ≠ .returned → w.late = [] ∧ w.unfinished = []
  acting : ∀ r todo, w.cancel = .acting r todo → todo = cancelPlan run ∨
    w.cancelRequested = true ∧ .setFlag ∉ todo ∧ ∀ e ∈ run.engines, Caught run w e ∨ Pending w todo e
  returned : w.cancel = .returned → w.late = [] ∧ ∀ e ∈ run.engines, Caught run w e ∧
    (e ∈ w.unfinished → ∀ o, w.leg e = .finished o → o = .aborted)

theorem inv_init (connected : Engine → Bool) : Inv run (init connected) where
  only e h := absurd rfl h
  live e h := by cases h
  responded c h := by cases h
  early _ := ⟨rfl, rfl⟩
  acting r todo h := by cases h
  returned h := by cases h

theorem complete_of_inv (hI : Inv run w) : Complete run w := by
  by_cases hr : w.cancel = .returned
  · obtain ⟨hlate, hcaught⟩ := hI.returned hr
    refine ⟨hlate, fun e he hun => ⟨(hcaught e he).2 hun, fun hw c hc => ?_⟩⟩
    rcases hI.responded c hc e he with hf | ⟨-, hc⟩
    · rw [hw] at hf; cases hf
    · exact hc
  · obtain ⟨hlate, hun⟩ := hI.early hr
    refine ⟨hlate, fun e he hmem => ?_⟩
    rw [hun] at hmem
    cases hmem

/-! ## A step keeps the invariant -/

theorem next_frame (w : World) (works raises : Bool) (s : CancelStep) (todo : List CancelStep) :
    (w.next works raises s todo).1.phase = w.phase ∧ (w.next works raises s todo).1.late = w.late ∧
      (w.next works raises s todo).1.unfinished = w.unfinished := by
  have hcut : ∀ e, (w.cut e).phase = w.phase ∧ (w.cut e).late = w.late ∧ (w.cut e).unfinished = w.unfinished :=
    fun e => by unfold World.cut; split <;> exact ⟨rfl, rfl, rfl⟩
  have hclose : ∀ e, (w.close e).phase = w.phase ∧ (w.close e).late = w.late ∧
      (w.close e).unfinished = w.unfinished := fun e => by
    unfold World.close
    split
    · exact hcut e
    · exact ⟨rfl, rfl, rfl⟩
  cases works with
  | false => exact ⟨rfl, rfl, rfl⟩
  | true =>
    cases s with
    | setFlag => exact ⟨rfl, rfl, rfl⟩
    | list l => cases l <;> exact ⟨rfl, rfl, rfl⟩
    | kill l id => cases l <;> exact hcut _
    | abort e => cases e <;> first | exact hclose _ | exact hcut _

/-- The steps that matter to the cancel: it starts, it acts, or something else
happens, among it the run's answer and a path that issues its statement. -/
theorem step_kind {a : Action} (h : step run w a = some w') :
    (w.cancel = .idle ∧ w' = w.goOn run (cancelPlan run)) ∨
    (∃ works raises r s todo, a = .cancel works raises ∧ w.cancel = .acting r (s :: todo) ∧
      (s = .setFlag → works = true ∧ raises = false) ∧
      w' = (w.next works raises s todo).1.goOn run (w.next works raises s todo).2) ∨
    (w'.cancel = w.cancel ∧ w'.cancelRequested = w.cancelRequested ∧ w'.unfinished = w.unfinished ∧
      (∀ c, w'.phase = .responded c →
        w.phase = .responded c ∨ loopOver run w = true ∧ w'.leg = w.leg ∧ c = w.cancelRequested) ∧
      (w'.late = w.late ∨ w.cancel = .returned ∧ ∃ e, w.leg e = .ready ∧ w.socket e = .live)) := by
  cases a with
  | find =>
    simp only [step] at h
    split at h
    · rename_i hc
      cases h
      exact .inl ⟨hc, rfl⟩
    · cases h
  | cancel works raises =>
    simp only [step] at h
    split at h
    · rename_i r s todo hc
      split at h
      · cases h
      · rename_i hs
        cases h
        refine .inr (.inl ⟨works, raises, r, s, todo, rfl, hc, fun hf => ?_, rfl⟩)
        cases works <;> cases raises <;> simp_all
    · cases h
  | begin =>
    simp only [step] at h
    split at h
    · cases h
      exact .inr (.inr ⟨rfl, rfl, rfl, fun c hc => (by cases hc), .inl rfl⟩)
    · cases h
  | respond =>
    simp only [step] at h
    split at h
    · rename_i hg
      cases h
      refine .inr (.inr ⟨rfl, rfl, rfl, fun c hc => .inr ⟨hg.2, rfl, ?_⟩, .inl rfl⟩)
      cases hc
      rfl
    · cases h
  | start e | finish e ok | stopped e =>
    simp only [step] at h
    split at h
    · cases h
      exact .inr (.inr ⟨rfl, rfl, rfl, fun c hc => .inl hc, .inl rfl⟩)
    · cases h
  | connect e ok =>
    simp only [step] at h
    repeat' split at h
    all_goals cases h
    all_goals exact .inr (.inr ⟨rfl, rfl, rfl, fun c hc => .inl hc, .inl rfl⟩)
  | issue e =>
    simp only [step] at h
    split at h
    · rename_i hl
      split at h <;> rename_i hs <;> cases h
      · refine .inr (.inr ⟨rfl, rfl, rfl, fun c hc => .inl hc, ?_⟩)
        by_cases hc : w.cancel = .returned
        · exact .inr ⟨hc, e, hl, hs⟩
        · exact .inl (if_neg hc)
      · exact .inr (.inr ⟨rfl, rfl, rfl, fun c hc => .inl hc, .inl rfl⟩)
      · exact .inr (.inr ⟨rfl, rfl, rfl, fun c hc => .inl hc, .inl rfl⟩)
    · cases h

theorem loopOver_leg {e : Engine} (h : loopOver run w = true) (he : e ∈ run.engines) :
    (w.leg e).isFinished = true ∨ w.leg e = .waiting ∧ w.cancelRequested = true := by
  have h := List.all_eq_true.1 h e he
  simp only [Bool.or_eq_true, Bool.and_eq_true, beq_iff_eq] at h
  exact h.imp_right fun h => ⟨h.2, h.1.2⟩

theorem only_step {a : Action} (hI : Inv run w) (h : step run w a = some w') (e : Engine)
    (hl : w'.leg e ≠ .waiting) : e ∈ run.engines := by
  have hm := step_move h e
  by_cases hw : w.leg e = .waiting
  · rw [hw] at hm
    generalize w.socket e = s, w'.leg e = l', w'.socket e = s' at *
    cases hm with
    | start hs => exact hs.1
    | stay | close => exact absurd rfl hl
  · exact hI.only e hw

theorem live_step {a : Action} (hI : Inv run w) (h : step run w a = some w') (e : Engine)
    (hl : w'.leg e = .issued) : w'.socket e = .live := by
  have hlive := hI.live e
  have hm := step_move h e
  generalize w.leg e = l, w.socket e = s, w'.leg e = l', w'.socket e = s' at *
  cases hm with
  | stay => exact hlive hl
  | issue => rfl
  | close =>
    split at hl
    · cases hl
    · contradiction
  | _ => cases hl

theorem responded_step {a : Action} (hI : Inv run w) (h : step run w a = some w') (c : Bool)
    (hc : w'.phase = .responded c) (e : Engine) (he : e ∈ run.engines) :
    (w'.leg e).isFinished = true ∨ w'.leg e = .waiting ∧ c = true := by
  -- Once the run has answered no path may start.
  have hover (hp : w.phase = .responded c) : (w'.leg e).isFinished = true ∨ w'.leg e = .waiting ∧ c = true := by
    refine (step_move h e).over (fun hs => ?_) (hI.responded c hp e he)
    rw [hs.2.1] at hp
    cases hp
  rcases step_kind h with ⟨-, rfl⟩ | ⟨works, raises, r, s, todo, -, -, -, rfl⟩ | ⟨-, -, -, hph, -⟩
  · exact hover hc
  · exact hover ((next_frame w works raises s todo).1 ▸ hc)
  · rcases hph c hc with hp | ⟨hl, hleg, rfl⟩
    · exact hover hp
    · rw [hleg]
      exact loopOver_leg hl he

/-- A caught path that was not over, and now is, was stopped. -/
theorem Caught.aborted {e : Engine} {o : Outcome} (hc : Caught run w e)
    (hm : LegMove (MayStart run w e) (w.leg e) (w.socket e) (w'.leg e) (w'.socket e))
    (ho : w'.leg e = .finished o) (h : ∀ o, w.leg e = .finished o → o = .aborted) : o = .aborted := by
  unfold Caught at hc
  generalize w.leg e = l, w.socket e = s, w'.leg e = l', w'.socket e = s' at *
  cases hm with
  | stay => exact h o ho
  | close =>
    split at ho
    · cases ho
    · exact h o ho
  | _ => simp_all

/-- The first step sets the flag, and leaves the cancel with every kind of client
of the run still to come to. -/
theorem pending_cancelPlan {e : Engine} (he : e ∈ run.engines) (w : World) : Pending w (cancelPlan run) e := by
  cases e with
  | cassandra => trivial
  | presto => exact .inl (by simp [cancelPlan, he])
  | spark | sparkBulk | cqlite => simp [Pending, cancelPlan, he]

theorem setFlag_notMem_tail {s : CancelStep} {todo : List CancelStep} (h : cancelPlan run = s :: todo) :
    s = .setFlag ∧ .setFlag ∉ todo := by
  unfold cancelPlan at h
  simp only [List.append_assoc, List.singleton_append] at h
  obtain ⟨rfl, rfl⟩ := List.cons.inj h
  simp [apply_ite (CancelStep.setFlag ∈ ·)]

/-- What the step leaves of the cancel, when it is in reach. -/
theorem acting_next {works raises : Bool} {r : RunRecord} {s : CancelStep} {todo : List CancelStep}
    (hI : Inv run w) (hc : w.cancel = .acting r (s :: todo)) (hs : s = .setFlag → works = true ∧ raises = false)
    (hr : InReach run w works raises s) :
    (w.next works raises s todo).1.cancelRequested = true ∧ .setFlag ∉ (w.next works raises s todo).2 ∧
      ∀ e ∈ run.engines, Caught run (w.next works raises s todo).1 e ∨
        Pending (w.next works raises s todo).1 (w.next works raises s todo).2 e := by
  rcases hI.acting r _ hc with htodo | ⟨hflag, hnot, hall⟩
  · obtain ⟨rfl, hnot⟩ := setFlag_notMem_tail htodo.symm
    obtain ⟨rfl, rfl⟩ := hs rfl
    refine ⟨rfl, setFlag_notMem_next hnot, fun e he => .inr ?_⟩
    have hp := pending_cancelPlan he { w with cancelRequested := true }
    rw [← htodo] at hp
    cases e with
    | cassandra => trivial
    | presto =>
      rcases hp with hp | ⟨-, _, hp⟩
      · exact .inl ((List.mem_cons.1 hp).resolve_left nofun)
      · cases hp
    | spark | sparkBulk | cqlite => exact (List.mem_cons.1 hp).resolve_left nofun
  · refine ⟨next_flag hflag, setFlag_notMem_next fun h => hnot (List.mem_cons_of_mem _ h), fun e he => ?_⟩
    exact caught_or_pending_next hflag (hI.live e) hr (hall e he)

/-- When the last step is in reach, every path is caught. -/
theorem caught_of_last {e : Engine} (hflag : w.cancelRequested = true)
    (hcass : e = .cassandra → (w.leg e).isFinished = true ∨ w.leg e = .waiting ∧ run.mode = .sequential)
    (h : Caught run w e ∨ Pending w [] e) : Caught run w e := by
  rcases h with h | h
  · exact h
  · cases e with
    | cassandra =>
      unfold Caught
      rcases hcass rfl with hf | ⟨hw, hm⟩
      · cases hl : w.leg .cassandra <;> simp_all [Leg.isFinished]
      · rw [hw]
        exact ⟨hm, hflag⟩
    | presto =>
      rcases h with h | ⟨-, _, h⟩
      · cases h
      · cases h
    | spark | sparkBulk | cqlite => cases h

theorem early_step {a : Action} (hI : Inv run w) (h : step run w a = some w') (hc : w'.cancel ≠ .returned) :
    w'.late = [] ∧ w'.unfinished = [] := by
  rcases step_kind h with ⟨hidle, rfl⟩ | ⟨works, raises, r, s, todo, -, hact, -, rfl⟩ | ⟨hcc, -, hun, -, hlate⟩
  · exact hI.early (by rw [hidle]; nofun)
  · obtain ⟨-, hlate, hun⟩ := next_frame w works raises s todo
    obtain ⟨hl, hu⟩ := hI.early (by rw [hact]; nofun)
    have htodo : (w.next works raises s todo).2 ≠ [] := fun htodo => hc (by simp [World.goOn, htodo, CancelPc.of])
    refine ⟨hlate.trans hl, ?_⟩
    simp only [World.goOn, htodo, if_false]
    exact hun.trans hu
  · rw [hcc] at hc
    rcases hlate with hlate | ⟨hret, -⟩
    · rw [hlate, hun]
      exact hI.early hc
    · exact absurd hret hc

theorem acting_step {a : Action} (hI : Inv run w) (hs : Stoppable run w a) (h : step run w a = some w')
    (r : RunRecord) (todo : List CancelStep) (hc : w'.cancel = .acting r todo) : todo = cancelPlan run ∨
      w'.cancelRequested = true ∧ .setFlag ∉ todo ∧ ∀ e ∈ run.engines, Caught run w' e ∨ Pending w' todo e := by
  have hmove := step_move h
  rcases step_kind h with ⟨-, rfl⟩ | ⟨works, raises, r', s, rest, rfl, hact, hflag, rfl⟩ | ⟨hcc, hf, -⟩
  · have hc : CancelPc.of run (cancelPlan run) = .acting r todo := hc
    exact .inl (CancelPc.of_eq_acting hc).2
  · have hc : CancelPc.of run _ = .acting r todo := hc
    obtain ⟨-, rfl⟩ := CancelPc.of_eq_acting hc
    simp only [Stoppable, hact] at hs
    exact .inr (acting_next hI hact hflag hs.1)
  · rw [hcc] at hc
    rcases hI.acting r todo hc with htodo | ⟨hset, hnot, hall⟩
    · exact .inl htodo
    -- Something else moved: what is caught stays so, and what is pending may end by itself.
    · refine .inr ⟨hf.trans hset, hnot, fun e he => ?_⟩
      rcases hall e he with hc | hp
      · exact .inl (hc.move hf.trans (hmove e))
      · exact hp.move (hmove e)

theorem returned_step {a : Action} (hI : Inv run w) (hs : Stoppable run w a) (h : step run w a = some w')
    (hc : w'.cancel = .returned) : w'.late = [] ∧ ∀ e ∈ run.engines, Caught run w' e ∧
      (e ∈ w'.unfinished → ∀ o, w'.leg e = .finished o → o = .aborted) := by
  have hmove := step_move h
  rcases step_kind h with ⟨-, rfl⟩ | ⟨works, raises, r, s, todo, rfl, hact, hflag, rfl⟩ | ⟨hcc, hf, hun, -, hlate⟩
  · cases hc
  · simp only [Stoppable, hact] at hs
    obtain ⟨hset, -, hall⟩ := acting_next hI hact hflag hs.1
    have hlast : (w.next works raises s todo).2 = [] := by
      generalize (w.next works raises s todo).2 = rest at hc
      cases rest with
      | nil => rfl
      | cons => cases hc
    refine ⟨(next_frame w works raises s todo).2.1.trans (hI.early (by rw [hact]; nofun)).1, fun e he => ⟨?_, ?_⟩⟩
    · refine caught_of_last hset (fun hcass => ?_) (hlast ▸ hall e he)
      subst hcass
      exact LegMove.over (next_move w works raises s todo _) id (hs.2 hlast he)
    · intro hmem o ho
      simp only [World.goOn, hlast, if_true, List.mem_filter] at hmem ho
      rw [ho] at hmem
      cases hmem.2
  · rw [hcc] at hc
    obtain ⟨hnone, hall⟩ := hI.returned hc
    refine ⟨?_, fun e he => ⟨(hall e he).1.move hf.trans (hmove e), fun hmem o ho => ?_⟩⟩
    · rcases hlate with hlate | ⟨-, e, hl, hlive⟩
      · rw [hlate, hnone]
      · -- A path about to issue is caught, so its socket is closed.
        have hcaught := (hall e (hI.only e (by rw [hl]; nofun))).1
        simp only [Caught, hl, hlive] at hcaught
        cases hcaught
    · rw [hun] at hmem
      exact (hall e he).1.aborted (hmove e) ho ((hall e he).2 hmem)

theorem inv_step {a : Action} (hI : Inv run w) (hs : Stoppable run w a) (h : step run w a = some w') :
    Inv run w' where
  only := only_step hI h
  live := live_step hI h
  responded := responded_step hI h
  early := early_step hI h
  acting := acting_step hI hs h
  returned := returned_step hI hs h

/-- When every step of the cancel finds its path where it can stop it, the cancel
leaves no path of the run behind. -/
theorem complete_of_stoppable (run : RunRecord) (connected : Engine → Bool) (as : List Action)
    (h : Each (step run) (Stoppable run) (init connected) as) :
    Always (step run) (Complete run) (init connected) as :=
  always_of_each (fun _ _ _ => inv_step) (fun _ => complete_of_inv) (inv_init connected) h

/-! ## A cancel in time, and one too early -/

/-- A path up to its statement. -/
def issuing (e : Engine) : List Action := [.start e, .connect e true, .issue e]

/-- The cancel, with so many steps after it has read the record. -/
def cancelled (steps : Nat) : List Action := .find :: List.replicate steps (.cancel true false)

/-- One path after the other, cancelled while Presto works on its query. -/
theorem complete_of_stoppable_issued :
    Always (step ⟨0, .sequential, [.cassandra, .presto, .spark], []⟩)
      (Complete ⟨0, .sequential, [.cassandra, .presto, .spark], []⟩) (init fun _ => false)
      ([Action.begin] ++ issuing .cassandra ++ [Action.finish .cassandra true] ++ issuing .presto ++ cancelled 4 ++
        [.stopped .presto, .respond]) :=
  complete_of_stoppable _ _ _ (by decide)

/-- Cancelled during the baseline of the parallel mode, a path still issues its
statement, and is neither stopped nor reported. -/
theorem baseline_cancel_misses : ¬ Always (step ⟨0, .parallel, [.presto], []⟩)
    (Complete ⟨0, .parallel, [.presto], []⟩) (init fun _ => false)
    (cancelled 2 ++ [Action.begin] ++ issuing .presto) := by
  intro h
  have hrun : (exec (step ⟨0, .parallel, [.presto], []⟩) (init fun _ => false)
      (cancelled 2 ++ [Action.begin] ++ issuing .presto)).map (·.late) = some [.presto] := by decide
  obtain ⟨w, hw, hlate⟩ := Option.map_eq_some_iff.1 hrun
  rw [(h.last hw).1] at hlate
  cases hlate

end HtapStack.Completeness
