import HtapStack.Compare.InFlight
import HtapStack.Lib.PyStr
import Mathlib.Logic.Function.Basic
/-!
# What a cancel hits

`cancel_comparison` of `backend/app/routes/query.py` reads the record of the run
in flight and then acts on what runs share with each other and with everything
else: the flag, the queries of the Presto user, the two Spark connections, the
cqlite reader, and the Spark jobs by their label. Nothing holds the run while it
does, and nothing marks what is the run's.

`isolated_of_undisturbed`: a cancel hits only the run it found as long as,
whenever it takes aim, nothing of anybody else is in the way (`Undisturbed`).
One statement of the console as the same Presto user is enough to break it.

Left out: the report of what a cancel did. `hits` is history that no code reads.
-/

namespace HtapStack.Isolation
open Compare Runs

/-- Whose a statement is: a comparison's, or the console's, a natural-language
question's, another session's. -/
inductive Owner where
  | run (r : Nat)
  | other (k : Nat)
  deriving DecidableEq, Repr

/-- A query that the coordinator has not finished with, under its user's name, or
a running job of the Thrift Server's application, under its description. -/
structure Task where
  id : Nat
  name : String
  owner : Owner
  deriving DecidableEq, Repr

/-- A client's socket. After an abort the object is still there, closed; `found`
is the run that the cancel had found. -/
inductive Socket where
  | none
  | live
  | cut (found : Nat)
  deriving DecidableEq, Repr

/-- One statement at a time on a connection, behind its lock. -/
structure Conn where
  socket : Socket
  executing : Option Owner
  deriving DecidableEq, Repr

/-- Where a run stands: `_begin_run`, its paths, `_end_run`. -/
inductive RunPc where
  | idle
  | beginning (record : RunRecord) (pc : BeginPc)
  | running
  | ending (pc : EndPc)
  | over
  deriving DecidableEq, Repr

/-- Something of `victim` was flagged, killed or aborted by a cancel that had
found the run `found`. -/
structure Hit where
  found : Nat
  victim : Owner
  deriving DecidableEq, Repr

structure World where
  globals : Globals
  runs : Nat → RunPc
  cancels : Nat → CancelPc
  tasks : Listing → List Task
  /-- The connections of `spark` and `sparkBulk`, and cqlite's reader. -/
  conns : Engine → Conn
  nextId : Nat
  hits : List Hit

def init : World :=
  ⟨Globals.init, fun _ => .idle, fun _ => .idle, fun _ => [], fun _ => ⟨.none, none⟩, 0, []⟩

/-- `settings.presto_user`. -/
structure Config where
  prestoUser : String

inductive Action where
  /-- A run asks for the lock and begins, if it is free. -/
  | post (r : Nat) (mode : Mode) (engines : List Engine) (sparkStatements : List String)
  | setUp (r : Nat)
  /-- The run's paths are done with. -/
  | finish (r : Nat)
  | endRun (r : Nat)
  /-- A query or a job appears. -/
  | issue (l : Listing) (name : String) (owner : Owner)
  | finished (l : Listing) (id : Nat)
  /-- A client connects, or the reader opens its tables. -/
  | connect (engine : Engine)
  | execute (engine : Engine) (owner : Owner)
  /-- The statement is over, and may have dropped the connection. -/
  | executed (engine : Engine) (drop : Bool)
  /-- A cancel reads `_in_flight`. -/
  | find (c : Nat)
  /-- A cancel takes its next step. All but setting the flag may fail, with or
  without an exception, and may have worked when it raises. -/
  | cancel (c : Nat) (works raises : Bool)

/-- A run's statements are issued by its paths, while it runs. -/
def Owner.active (w : World) : Owner → Bool
  | .run r => w.runs r == .running
  | .other _ => true

/-- One of the run's paths waits for its statement. -/
def World.working (w : World) (r : Nat) : Bool :=
  [Engine.spark, .sparkBulk, .cqlite].any fun e => (w.conns e).executing == some (.run r)

/-- A run whose clear of the flag is behind it and whose next one is still to
come: setting the flag now flags it. -/
def RunPc.flaggable : RunPc → Bool
  | .idle | .over | .beginning _ .clear | .ending .release => false
  | _ => true

/-- The run that setting the flag flags. -/
def World.flagged (w : World) : Option Owner :=
  w.globals.lock.bind fun r => if (w.runs r).flaggable then some (.run r) else none

def World.hit (w : World) (found : Nat) (victims : List Owner) : World :=
  { w with hits := victims.map (⟨found, ·⟩) ++ w.hits }

def World.setRun (w : World) (g : Globals) (r : Nat) (pc : RunPc) : World :=
  { w with globals := g, runs := Function.update w.runs r pc }

def World.setCancel (w : World) (c : Nat) (pc : CancelPc) : World :=
  { w with cancels := Function.update w.cancels c pc }

def World.setConn (w : World) (e : Engine) (conn : Conn) : World :=
  { w with conns := Function.update w.conns e conn }

/-- `label`: a statement as the job list reports it. -/
def label (statement : String) : List Char := (Py.join [' '] (Py.split statement.toList)).take 300

/-- What a cancel picks from each list: every query of the Presto user, and the
jobs whose label is that of one of the run's statements. -/
def wanted (cfg : Config) (run : RunRecord) : Listing → Task → Bool
  | .queries, t => t.name == cfg.prestoUser
  | .jobs, t => (run.sparkStatements.map label).contains (label t.name)

def World.remove (w : World) (l : Listing) (id : Nat) : World :=
  { w with tasks := Function.update w.tasks l ((w.tasks l).filter fun t => t.id != id) }

def World.issue (w : World) (l : Listing) (name : String) (owner : Owner) : World :=
  { w with
    tasks := Function.update w.tasks l (⟨w.nextId, name, owner⟩ :: w.tasks l), nextId := w.nextId + 1 }

/-- What one step of a cancel does, and what it adds to the rest of the plan. -/
def World.act (cfg : Config) (w : World) (run : RunRecord) : CancelStep → World × List CancelStep
  | .setFlag =>
    ({ w with globals := { w.globals with cancelRequested := true } }.hit run.run w.flagged.toList, [])
  | .list l => (w, ((w.tasks l).filter (wanted cfg run l)).map fun t => .kill l t.id)
  | .kill l id =>
    ((w.remove l id).hit run.run (((w.tasks l).filter fun t => t.id == id).map fun t => t.owner), [])
  | .abort .cqlite => (w.hit run.run (w.conns .cqlite).executing.toList, [])
  | .abort e =>
    match (w.conns e).socket with
    | .live =>
      ((w.setConn e { w.conns e with socket := .cut run.run }).hit run.run (w.conns e).executing.toList, [])
    | _ => (w, [])

/-- The plan after a step. -/
def rest (raises : Bool) (kills todo : List CancelStep) : List CancelStep :=
  if raises then skipBlock todo else kills ++ todo

def step (cfg : Config) (w : World) : Action → Option World
  | .post r mode engines sparkStatements =>
    if w.runs r = .idle then
      match w.globals.acquire r with
      | some g => some (w.setRun g r (.beginning ⟨r, mode, engines, sparkStatements⟩ .clear))
      | none => some (w.setRun w.globals r .over)
    else none
  | .setUp r =>
    match w.runs r with
    | .beginning record pc =>
      match w.globals.beginStep record pc with
      | (g, some pc) => some (w.setRun g r (.beginning record pc))
      | (g, none) => some (w.setRun g r .running)
    | _ => none
  | .finish r =>
    if w.runs r = .running ∧ w.working r = false then some (w.setRun w.globals r (.ending .forget)) else none
  | .endRun r =>
    match w.runs r with
    | .ending pc =>
      match w.globals.endStep pc with
      | (g, some pc) => some (w.setRun g r (.ending pc))
      | (g, none) => some (w.setRun g r .over)
    | _ => none
  | .issue l name owner =>
    if owner.active w then some (w.issue l name owner) else none
  | .finished l id => some (w.remove l id)
  | .connect e =>
    if (w.conns e).executing = none then some (w.setConn e ⟨.live, none⟩) else none
  | .execute e owner =>
    if (w.conns e).executing = none ∧ owner.active w then
      match (w.conns e).socket with
      | .none => none
      | .live => some (w.setConn e ⟨.live, some owner⟩)
      -- The transport is closed, and `_aborted` reports the statement as cancelled.
      | .cut found => some (w.hit found [owner])
    else none
  | .executed e drop =>
    if (w.conns e).executing = none then none
    else some (w.setConn e ⟨if drop then .none else (w.conns e).socket, none⟩)
  | .find c =>
    if w.cancels c = .idle then
      match w.globals.inFlight with
      | some run => some (w.setCancel c (.acting run (cancelPlan run)))
      | none => some (w.setCancel c .returned)
    else none
  | .cancel c works raises =>
    match w.cancels c with
    | .acting run (s :: todo) =>
      if s = .setFlag ∧ (works = false ∨ raises = true) then none
      else
        let (w, kills) := if works then w.act cfg run s else (w, [])
        some (w.setCancel c (.of run (rest raises kills todo)))
    | _ => none

/-! ## Taking aim -/

/-- Nothing of anybody else is where the cancel of `run` takes aim: no other run
can be flagged; what it lists, and whatever executes on the connection it cuts,
is the run's. What it kills it has listed before. -/
def Clear (cfg : Config) (w : World) (run : RunRecord) (raises : Bool) : CancelStep → Prop
  | .setFlag => ∀ r ∈ w.globals.lock, (w.runs r).flaggable = true → r = run.run
  | .list l => raises = false → ∀ t ∈ w.tasks l, wanted cfg run l t = true → t.owner = .run run.run
  | .kill .. => True
  | .abort e => ∀ owner ∈ (w.conns e).executing, (w.conns e).socket = .live ∨ e = .cqlite →
      owner = .run run.run

/-- Each step of a cancel has a clear aim, and a connection that a cancel has cut
is not used by anybody else before it is opened again. -/
def Undisturbed (cfg : Config) (w : World) : Action → Prop
  | .cancel c true raises =>
    match w.cancels c with
    | .acting run (s :: _) => Clear cfg w run raises s
    | _ => True
  | .execute e owner =>
    match (w.conns e).socket with
    | .cut found => owner = .run found
    | _ => True
  | _ => True

instance (cfg : Config) (w : World) (run : RunRecord) (raises : Bool) : ∀ s, Decidable (Clear cfg w run raises s)
  | .setFlag => inferInstanceAs (Decidable (∀ r ∈ w.globals.lock, (w.runs r).flaggable = true → r = run.run))
  | .list l => inferInstanceAs (Decidable (raises = false → ∀ t ∈ w.tasks l, wanted cfg run l t = true →
      t.owner = .run run.run))
  | .kill .. => isTrue trivial
  | .abort e => inferInstanceAs (Decidable (∀ owner ∈ (w.conns e).executing,
      (w.conns e).socket = .live ∨ e = .cqlite → owner = .run run.run))

instance (cfg : Config) (w : World) (a : Action) : Decidable (Undisturbed cfg w a) := by
  unfold Undisturbed
  split <;> try split
  all_goals infer_instance

/-- Whatever a cancel hit was of the run it had found. -/
def Isolated (w : World) : Prop := ∀ h ∈ w.hits, h.victim = .run h.found

/-- Whatever is left of `todo` to kill is the run's. -/
def AimsAt (w : World) (run : RunRecord) (todo : List CancelStep) : Prop :=
  ∀ l id, .kill l id ∈ todo → ∀ t ∈ w.tasks l, t.id = id → t.owner = .run run.run

/-- Whatever a cancel has yet to kill is of the run it had found. -/
def Aimed (w : World) : Prop := ∀ c run todo, w.cancels c = .acting run todo → AimsAt w run todo

/-- An identifier names one task, and is not used again. -/
structure Inv (w : World) : Prop where
  id_lt : ∀ l, ∀ t ∈ w.tasks l, t.id < w.nextId
  id_inj : ∀ l, ∀ t ∈ w.tasks l, ∀ t' ∈ w.tasks l, t.id = t'.id → t = t'
  kill_lt : ∀ c run todo, w.cancels c = .acting run todo → ∀ l id, .kill l id ∈ todo → id < w.nextId

theorem inv_init : Inv init := ⟨nofun, nofun, nofun⟩

theorem isolated_init : Isolated init := nofun

theorem aimed_init : Aimed init := nofun

variable {cfg : Config} {w w' : World}

/-! ## Tasks come and go -/

theorem mem_remove {l l' : Listing} {id : Nat} {t : Task} (h : t ∈ (w.remove l id).tasks l') : t ∈ w.tasks l' := by
  by_cases hl : l' = l
  · subst hl
    simp only [World.remove, Function.update_self] at h
    exact List.mem_filter.1 h |>.1
  · simpa only [World.remove, Function.update_of_ne hl] using h

theorem Inv.remove (hI : Inv w) (l : Listing) (id : Nat) : Inv (w.remove l id) where
  id_lt l' t ht := hI.id_lt l' t (mem_remove ht)
  id_inj l' t ht t' ht' := hI.id_inj l' t (mem_remove ht) t' (mem_remove ht')
  kill_lt := hI.kill_lt

theorem AimsAt.remove {run : RunRecord} {todo : List CancelStep} (h : AimsAt w run todo) (l : Listing) (id : Nat) :
    AimsAt (w.remove l id) run todo :=
  fun l' id' hid t ht => h l' id' hid t (mem_remove ht)

theorem mem_issue {l l' : Listing} {name : String} {owner : Owner} {t : Task}
    (h : t ∈ (w.issue l name owner).tasks l') : l' = l ∧ t = ⟨w.nextId, name, owner⟩ ∨ t ∈ w.tasks l' := by
  by_cases hl : l' = l
  · subst hl
    simp only [World.issue, Function.update_self, List.mem_cons] at h
    exact h.imp_left fun h => ⟨rfl, h⟩
  · simp only [World.issue, Function.update_of_ne hl] at h
    exact .inr h

theorem Inv.issue (hI : Inv w) (l : Listing) (name : String) (owner : Owner) : Inv (w.issue l name owner) where
  id_lt l' t ht := by
    rcases mem_issue ht with ⟨-, rfl⟩ | ht
    · exact Nat.lt_succ_self _
    · exact Nat.lt_succ_of_lt (hI.id_lt l' t ht)
  id_inj l' t ht t' ht' heq := by
    rcases mem_issue ht with ⟨-, rfl⟩ | ht <;> rcases mem_issue ht' with ⟨-, rfl⟩ | ht'
    · rfl
    · exact absurd heq (Nat.ne_of_gt (hI.id_lt l' t' ht'))
    · exact absurd heq (Nat.ne_of_lt (hI.id_lt l' t ht))
    · exact hI.id_inj l' t ht t' ht' heq
  kill_lt c run todo hc l' id hid := Nat.lt_succ_of_lt (hI.kill_lt c run todo hc l' id hid)

/-- A new task has a new identifier, so nobody aims at it. -/
theorem aimed_issue (hI : Inv w) (hA : Aimed w) (l : Listing) (name : String) (owner : Owner) :
    Aimed (w.issue l name owner) := by
  intro c run todo hc l' id hid t ht htid
  rcases mem_issue ht with ⟨-, rfl⟩ | ht
  · exact absurd htid (Nat.ne_of_gt (hI.kill_lt c run todo hc l' id hid))
  · exact hA c run todo hc l' id hid t ht htid

/-! ## A cancel's step -/

theorem Inv.setCancel (hI : Inv w) (c : Nat) {run : RunRecord} {todo : List CancelStep}
    (h : ∀ l id, .kill l id ∈ todo → id < w.nextId) : Inv (w.setCancel c (.of run todo)) where
  id_lt := hI.id_lt
  id_inj := hI.id_inj
  kill_lt c' run' todo' hc' := by
    by_cases hcc : c' = c
    · subst hcc
      simp only [World.setCancel, Function.update_self] at hc'
      obtain ⟨rfl, rfl⟩ := CancelPc.of_eq_acting hc'
      exact h
    · simp only [World.setCancel, Function.update_of_ne hcc] at hc'
      exact hI.kill_lt c' run' todo' hc'

theorem aimed_setCancel {c : Nat} {run : RunRecord} {todo : List CancelStep} (hA : Aimed w) :
    Aimed (w.setCancel c (.of run todo)) ↔ AimsAt w run todo := by
  constructor
  · intro h
    cases todo with
    | nil => exact fun l id hid => by cases hid
    | cons s todo => exact h c run (s :: todo) (Function.update_self ..)
  · intro h c' run' todo' hc'
    by_cases hcc : c' = c
    · subst hcc
      simp only [World.setCancel, Function.update_self] at hc'
      obtain ⟨rfl, rfl⟩ := CancelPc.of_eq_acting hc'
      exact h
    · simp only [World.setCancel, Function.update_of_ne hcc] at hc'
      exact hA c' run' todo' hc'

theorem isolated_hit {found : Nat} {victims : List Owner} (hP : Isolated w) :
    Isolated (w.hit found victims) ↔ ∀ o ∈ victims, o = .run found := by
  constructor
  · exact fun h o ho => h ⟨found, o⟩ (List.mem_append_left _ (List.mem_map.2 ⟨o, ho, rfl⟩))
  · intro h x hx
    rcases List.mem_append.1 hx with hx | hx
    · obtain ⟨o, ho, rfl⟩ := List.mem_map.1 hx
      exact h o ho
    · exact hP x hx

theorem flagged_eq_some {o : Owner} :
    w.flagged = some o ↔ ∃ r, w.globals.lock = some r ∧ (w.runs r).flaggable = true ∧ o = .run r := by
  unfold World.flagged
  rw [Option.bind_eq_some_iff]
  constructor
  · rintro ⟨r, hr, h⟩
    split at h
    · exact ⟨r, hr, ‹_›, (Option.some.inj h).symm⟩
    · cases h
  · rintro ⟨r, hr, hf, rfl⟩
    exact ⟨r, hr, if_pos hf⟩

theorem act_abort {e : Engine} (he : e ≠ .cqlite) (run : RunRecord) :
    w.act cfg run (.abort e) = match (w.conns e).socket with
      | .live => ((w.setConn e { w.conns e with socket := .cut run.run }).hit run.run
          (w.conns e).executing.toList, [])
      | _ => (w, []) := by
  cases e <;> first | rfl | exact absurd rfl he

theorem mem_of_mem_rest {s : CancelStep} {raises : Bool} {todo : List CancelStep} (h : s ∈ rest raises [] todo) :
    s ∈ todo := by
  cases raises with
  | true => exact mem_of_mem_skipBlock h
  | false => exact h

theorem AimsAt.rest {run : RunRecord} {todo : List CancelStep} (h : AimsAt w run todo) (raises : Bool) :
    AimsAt w run (rest raises [] todo) :=
  fun l id hid => h l id (mem_of_mem_rest hid)

theorem inv_act (cfg : Config) {run : RunRecord} {s : CancelStep} {c : Nat} {todo : List CancelStep} (raises : Bool)
    (hI : Inv w) (hc : w.cancels c = .acting run (s :: todo)) :
    Inv (w.act cfg run s).1 ∧ ∀ l id, .kill l id ∈ rest raises (w.act cfg run s).2 todo →
      id < (w.act cfg run s).1.nextId := by
  have htodo : ∀ l id, .kill l id ∈ rest raises [] todo → id < w.nextId := fun l id hid =>
    hI.kill_lt c run _ hc l id (List.mem_cons_of_mem _ (mem_of_mem_rest hid))
  cases s with
  | setFlag => exact ⟨⟨hI.id_lt, hI.id_inj, hI.kill_lt⟩, htodo⟩
  | list l =>
    refine ⟨hI, fun l' id hid => ?_⟩
    cases raises with
    | true => exact htodo l' id hid
    | false =>
      rcases List.mem_append.1 hid with hid | hid
      · obtain ⟨t, ht, hk⟩ := List.mem_map.1 hid
        cases hk
        exact hI.id_lt l t (List.mem_filter.1 ht).1
      · exact htodo l' id hid
  | kill l id =>
    have := hI.remove l id
    exact ⟨⟨this.id_lt, this.id_inj, this.kill_lt⟩, htodo⟩
  | abort e =>
    by_cases he : e = .cqlite
    · subst he
      exact ⟨⟨hI.id_lt, hI.id_inj, hI.kill_lt⟩, htodo⟩
    · rw [act_abort he]
      cases (w.conns e).socket with
      | live => exact ⟨⟨hI.id_lt, hI.id_inj, hI.kill_lt⟩, htodo⟩
      | none | cut => exact ⟨hI, htodo⟩

/-- No step of a cancel adds a task, so no cancel's aim gets worse. -/
theorem aimed_act {run : RunRecord} {s : CancelStep} (hA : Aimed w) : Aimed (w.act cfg run s).1 := by
  cases s with
  | kill l id => exact fun c run todo hc => (hA c run todo hc).remove l id
  | abort e =>
    by_cases he : e = .cqlite
    · subst he; exact hA
    · rw [act_abort he]
      cases (w.conns e).socket <;> exact hA
  | _ => exact hA

/-- A step hits its run, and lists tasks of its run, exactly when its aim is
clear. -/
theorem act_iff_clear {run : RunRecord} {s : CancelStep} {c : Nat} {todo : List CancelStep} (raises : Bool)
    (hI : Inv w) (hP : Isolated w) (hA : Aimed w) (hc : w.cancels c = .acting run (s :: todo)) :
    (Isolated (w.act cfg run s).1 ∧ AimsAt (w.act cfg run s).1 run (rest raises (w.act cfg run s).2 todo)) ↔
      Clear cfg w run raises s := by
  have haim : AimsAt w run (s :: todo) := hA c run _ hc
  have htodo : AimsAt w run (rest raises [] todo) :=
    AimsAt.rest (fun l id hid => haim l id (List.mem_cons_of_mem _ hid)) raises
  cases s with
  | setFlag =>
    refine Iff.trans ⟨fun h => (isolated_hit hP).1 h.1, fun h => ⟨(isolated_hit hP).2 h, htodo⟩⟩ ?_
    constructor
    · intro h r hr hf
      have := h (.run r) (Option.mem_toList.2 (flagged_eq_some.2 ⟨r, hr, hf, rfl⟩))
      cases this
      rfl
    · intro h o ho
      obtain ⟨r, hr, hf, rfl⟩ := flagged_eq_some.1 (Option.mem_toList.1 ho)
      rw [h r hr hf]
  | list l =>
    constructor
    · rintro ⟨-, h⟩ hr t ht hw
      subst hr
      exact h l t.id (List.mem_append_left _ (List.mem_map.2 ⟨t, List.mem_filter.2 ⟨ht, hw⟩, rfl⟩)) t ht rfl
    · refine fun h => ⟨hP, fun l' id hid => ?_⟩
      cases raises with
      | true => exact htodo l' id hid
      | false =>
        -- A kill is of a task just listed, and no other task has its identifier.
        rcases List.mem_append.1 hid with hid | hid
        · obtain ⟨t, ht, hk⟩ := List.mem_map.1 hid
          cases hk
          obtain ⟨ht, hw⟩ := List.mem_filter.1 ht
          intro t' ht' he
          rw [hI.id_inj l t' ht' t ht he]
          exact h rfl t ht hw
        · exact htodo l' id hid
  | kill l id =>
    refine ⟨fun _ => trivial, fun _ => ⟨(isolated_hit hP).2 ?_, htodo.remove l id⟩⟩
    intro o ho
    obtain ⟨t, ht, rfl⟩ := List.mem_map.1 ho
    obtain ⟨ht, hid⟩ := List.mem_filter.1 ht
    exact haim l id List.mem_cons_self t ht (beq_iff_eq.1 hid)
  | abort e =>
    by_cases he : e = .cqlite
    · subst he
      refine Iff.trans ⟨fun h => (isolated_hit hP).1 h.1, fun h => ⟨(isolated_hit hP).2 h, htodo⟩⟩ ?_
      exact ⟨fun h o ho _ => h o (Option.mem_toList.2 ho), fun h o ho => h o (Option.mem_toList.1 ho) (.inr rfl)⟩
    · rw [act_abort he]
      unfold Clear
      cases hs : (w.conns e).socket with
      | live =>
        refine Iff.trans ⟨fun h => (isolated_hit hP).1 h.1, fun h => ⟨(isolated_hit hP).2 h, htodo⟩⟩ ?_
        exact ⟨fun h o ho _ => h o (Option.mem_toList.2 ho), fun h o ho => h o (Option.mem_toList.1 ho) (.inl hs)⟩
      | none | cut =>
        -- Nothing to cut, and so nothing that the aim has to be clear of.
        refine ⟨fun _ o _ h => ?_, fun _ => ⟨hP, htodo⟩⟩
        rcases h with h | h
        · rw [hs] at h; cases h
        · exact absurd h he

/-! ## Every step -/

/-- The effect of each action on what matters here, the cancels' aims. -/
inductive Effect (cfg : Config) (w : World) : Action → World → Prop
  /-- Runs begin and end, connections open and close. -/
  | quiet {a g r k} (hC : Undisturbed cfg w a) :
      Effect cfg w a { w with globals := g, runs := r, conns := k }
  | issue {l name owner} : Effect cfg w (.issue l name owner) (w.issue l name owner)
  | finished {l id} : Effect cfg w (.finished l id) (w.remove l id)
  | cut {e owner found} (hs : (w.conns e).socket = .cut found) :
      Effect cfg w (.execute e owner) (w.hit found [owner])
  | found {c run} (hf : w.globals.inFlight = some run) :
      Effect cfg w (.find c) (w.setCancel c (.of run (cancelPlan run)))
  | notFound {c} : Effect cfg w (.find c) (w.setCancel c .returned)
  | failed {c run s todo raises} (hc : w.cancels c = .acting run (s :: todo)) :
      Effect cfg w (.cancel c false raises) (w.setCancel c (.of run (rest raises [] todo)))
  | worked {c run s todo raises} (hc : w.cancels c = .acting run (s :: todo)) :
      Effect cfg w (.cancel c true raises)
        ((w.act cfg run s).1.setCancel c (.of run (rest raises (w.act cfg run s).2 todo)))

theorem step_effect {a : Action} (h : step cfg w a = some w') : Effect cfg w a w' := by
  cases a with
  | post r mode engines sparkStatements =>
    simp only [step] at h
    split at h
    · split at h <;> cases h <;> exact .quiet trivial
    · cases h
  | setUp r =>
    simp only [step] at h
    split at h
    · split at h <;> cases h <;> exact .quiet trivial
    · cases h
  | finish r =>
    simp only [step] at h
    split at h
    · cases h; exact .quiet trivial
    · cases h
  | endRun r =>
    simp only [step] at h
    split at h
    · split at h <;> cases h <;> exact .quiet trivial
    · cases h
  | issue l name owner =>
    simp only [step] at h
    split at h
    · cases h; exact .issue
    · cases h
  | finished l id => cases h; exact .finished
  | connect e =>
    simp only [step] at h
    split at h
    · cases h; exact .quiet trivial
    · cases h
  | execute e owner =>
    simp only [step] at h
    split at h
    · split at h
      · cases h
      · rename_i hs
        cases h
        exact .quiet (by simp [Undisturbed, hs])
      · rename_i found hs
        cases h
        exact .cut hs
    · cases h
  | executed e drop =>
    simp only [step] at h
    split at h
    · cases h
    · cases h; exact .quiet trivial
  | find c =>
    simp only [step] at h
    split at h
    · split at h
      · rename_i run hf
        cases h
        exact .found hf
      · cases h; exact .notFound
    · cases h
  | cancel c works raises =>
    simp only [step] at h
    split at h
    · rename_i run s todo hc
      split at h
      · cases h
      · cases works <;> cases h
        · exact .failed hc
        · exact .worked hc
    · cases h

theorem inv_step {a : Action} (hI : Inv w) (h : step cfg w a = some w') : Inv w' := by
  cases step_effect h with
  | quiet => exact ⟨hI.id_lt, hI.id_inj, hI.kill_lt⟩
  | issue => exact hI.issue _ _ _
  | finished => exact hI.remove _ _
  | cut => exact ⟨hI.id_lt, hI.id_inj, hI.kill_lt⟩
  | found => exact hI.setCancel _ fun l id hid => absurd hid (kill_notMem_cancelPlan _ _ _)
  | @notFound c =>
    have hreturned : Inv (w.setCancel c (.of ⟨0, .sequential, [], []⟩ [])) := hI.setCancel c nofun
    exact hreturned
  | @failed c run s todo raises hc =>
    exact hI.setCancel c fun l id hid => hI.kill_lt c run _ hc l id (List.mem_cons_of_mem _ (mem_of_mem_rest hid))
  | @worked c run s todo raises hc =>
    obtain ⟨hI', hlt⟩ := inv_act cfg raises hI hc
    exact hI'.setCancel c hlt

theorem aimed_step {a : Action} (hI : Inv w) (hP : Isolated w ∧ Aimed w) (h : step cfg w a = some w') :
    (Isolated w' ∧ Aimed w') ↔ Undisturbed cfg w a := by
  obtain ⟨hP, hA⟩ := hP
  cases step_effect h with
  | quiet hC => exact ⟨fun _ => hC, fun _ => ⟨hP, hA⟩⟩
  | issue => exact ⟨fun _ => trivial, fun _ => ⟨hP, aimed_issue hI hA _ _ _⟩⟩
  | finished => exact ⟨fun _ => trivial, fun _ => ⟨hP, fun c run todo hc => (hA c run todo hc).remove _ _⟩⟩
  | @cut e owner found hs =>
    refine Iff.trans ⟨fun h => (isolated_hit hP).1 h.1, fun h => ⟨(isolated_hit hP).2 h, hA⟩⟩ ?_
    simp [Undisturbed, hs]
  | found =>
    refine ⟨fun _ => trivial, fun _ => ⟨hP, (aimed_setCancel hA).2 fun l id hid => ?_⟩⟩
    exact absurd hid (kill_notMem_cancelPlan _ _ _)
  | @notFound c =>
    have hreturned : Aimed (w.setCancel c (.of ⟨0, .sequential, [], []⟩ [])) := (aimed_setCancel hA).2 nofun
    exact ⟨fun _ => trivial, fun _ => ⟨hP, hreturned⟩⟩
  | @failed c run s todo raises hc =>
    refine ⟨fun _ => trivial, fun _ => ⟨hP, (aimed_setCancel hA).2 ?_⟩⟩
    exact AimsAt.rest (fun l id hid => hA c run _ hc l id (List.mem_cons_of_mem _ hid)) raises
  | @worked c run s todo raises hc =>
    have hclear : Undisturbed cfg w (.cancel c true raises) ↔ Clear cfg w run raises s := by
      simp [Undisturbed, hc]
    rw [hclear, ← act_iff_clear raises hI hP hA hc]
    exact and_congr_right fun _ => aimed_setCancel (aimed_act hA)

/-- If every cancel has a clear aim all along a run, no cancel hits anything but
the run it found; and a run in which one has not is one in which it hits, or has
picked to kill, something else. -/
theorem isolated_of_undisturbed (cfg : Config) (as : List Action) :
    (Each (step cfg) (Undisturbed cfg) init as → Always (step cfg) Isolated init as) ∧
    (Each (step cfg) (Undisturbed cfg) init as ↔ Always (step cfg) (fun w => Isolated w ∧ Aimed w) init as) := by
  have hiff : Always (step cfg) (fun w => Isolated w ∧ Aimed w) init as ↔
      Each (step cfg) (Undisturbed cfg) init as :=
    always_iff_each (fun _ _ _ hI _ h => inv_step hI h) (fun _ _ _ hI hP h => aimed_step hI hP h) inv_init
      ⟨isolated_init, aimed_init⟩ as
  exact ⟨fun h => (hiff.2 h).mono fun _ hP => hP.1, hiff.symm⟩

/-- The settings' default. -/
def missionControl : Config := ⟨"htap-mission-control"⟩

/-- A comparison with a Presto path, and somebody's query as the Presto user. -/
def presto (owner : Owner) : List Action :=
  [.post 0 .sequential [.presto] [], .setUp 0, .setUp 0, .setUp 0,
    .issue .queries "htap-mission-control" owner]

/-- A cancel: find the run, set the flag, list the queries, kill the one there is. -/
def cancelled : List Action :=
  [.find 0, .cancel 0 true false, .cancel 0 true false, .cancel 0 true false]

theorem isolated_own_query : Always (step missionControl) Isolated init (presto (.run 0) ++ cancelled) :=
  (isolated_of_undisturbed missionControl (presto (.run 0) ++ cancelled)).1 (by decide)

/-- A question in natural language runs on the same Presto user: the cancel of
the comparison kills its query. -/
theorem console_query_killed :
    ¬ Always (step missionControl) Isolated init (presto (.other 0) ++ cancelled) := by
  intro h
  have hrun : (exec (step missionControl) init (presto (.other 0) ++ cancelled)).map (·.hits) =
      some [⟨0, .other 0⟩, ⟨0, .run 0⟩] := by decide
  obtain ⟨w, hw, he⟩ := Option.map_eq_some_iff.1 hrun
  have := h.last hw ⟨0, .other 0⟩ (by simp [he])
  cases this

end HtapStack.Isolation
