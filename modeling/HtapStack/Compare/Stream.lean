import HtapStack.Compare.InFlight
import HtapStack.Lib.Generator
import Mathlib.Logic.Function.Basic
/-!
# The streamed comparison

`stream_benchmark` of `backend/app/routes/query.py` takes the comparison lock in
the route, and gives it back in the `finally` of the generator that writes the
response. The generator is driven by the server: pulled line by line, and closed
when the client is gone.

`released_iff`: along every run of any number of requests, only a request that
is still open holds the lock or is in flight, exactly when no generator is
closed before its first line was pulled and no set-up raises behind the lock. A
generator closed that early runs none of its body, so the lock stays taken and
every later comparison is refused.

Left out: what the lines say, and the paths' results.
-/

namespace HtapStack.Stream
open Compare Generator Runs

/-- The points of `lines()` where it is entered. -/
inductive Pc where
  /-- Before the `start` line. -/
  | start
  /-- Before the `baseline` line: the subject and its reference read. -/
  | baseline
  /-- At the head of `_run_sequence`'s loop, with these paths to go. -/
  | sequence (engines : List Engine)
  /-- After the `done` line. -/
  | done
  /-- In the `finally`. -/
  | ending (pc : EndPc)
  deriving DecidableEq, Repr

/-- Every point before the `finally` is covered by it. What `_end_run` does
cannot raise. -/
def lines : Body Pc where
  start := .start
  handler
    | .ending pc => some (.ending pc)
    | _ => some (.ending .forget)

/-- `run_benchmark`, the route that answers with the whole body at once, between
its `_begin_run` and its return. -/
inductive WholePc where
  | working
  | ending (pc : EndPc)
  | returned
  deriving DecidableEq, Repr

inductive Route where
  | stream
  | whole (mode : Mode)
  deriving DecidableEq, Repr

/-- The mode recorded: the streamed route is sequential whatever was asked for. -/
def Route.mode : Route → Mode
  | .stream => .sequential
  | .whole mode => mode

inductive Request where
  | idle
  /-- Answered with a 409. -/
  | refused
  | beginning (route : Route) (engines : List Engine) (sparkStatements : List String) (pc : BeginPc)
  | streaming (engines : List Engine) (gen : Gen Pc)
  | whole (pc : WholePc)
  /-- Set-up raised, so there is no response to iterate. -/
  | failed
  deriving DecidableEq, Repr

structure World where
  globals : Globals
  requests : Nat → Request

def init : World := ⟨Globals.init, fun _ => .idle⟩

def World.set (w : World) (g : Globals) (r : Nat) (q : Request) : World :=
  ⟨g, Function.update w.requests r q⟩

inductive Action where
  /-- A valid request arrives and asks for the lock. -/
  | post (r : Nat) (route : Route) (engines : List Engine) (sparkStatements : List String)
  /-- One statement between the lock and the response object, which may raise. -/
  | setUp (r : Nat) (raises : Bool)
  /-- The server pulls the next line. -/
  | next (r : Nat)
  /-- The generator runs up to its next line, to its end, or raises. -/
  | body (r : Nat) (raises : Bool)
  /-- The server closes the generator. -/
  | close (r : Nat)
  /-- The whole-body route takes its next step, or is done working. -/
  | whole (r : Nat)
  /-- A cancel sets the flag. -/
  | setFlag

/-- The generator's body from `pc` on. -/
def runBody (g : Globals) (engines : List Engine) : Pc → Bool → Globals × Gen Pc
  | .ending pc, _ =>
    match g.endStep pc with
    | (g, some pc) => (g, .running (.ending pc))
    | (g, none) => (g, .closed)
  | .start, false => (g, .suspended .baseline)
  | .baseline, false => (g, .suspended (.sequence engines))
  -- The flag is tested before each path, and the `done` line follows the last.
  | .sequence (_ :: rest), false =>
    (g, if g.cancelRequested then .suspended .done else .suspended (.sequence rest))
  | .sequence [], false => (g, .suspended .done)
  | .done, false => (g, .running (.ending .forget))
  | pc, true => (g, lines.raise pc)

def step (w : World) : Action → Option World
  | .post r route engines sparkStatements =>
    match w.requests r with
    | .idle =>
      match w.globals.acquire r with
      | some g => some (w.set g r (.beginning route engines sparkStatements .clear))
      | none => some (w.set w.globals r .refused)
    | _ => none
  | .setUp r raises =>
    match w.requests r with
    | .beginning route engines sparkStatements pc =>
      if raises then some (w.set w.globals r .failed)
      else match w.globals.beginStep ⟨r, route.mode, engines, sparkStatements⟩ pc with
        | (g, some pc) => some (w.set g r (.beginning route engines sparkStatements pc))
        | (g, none) =>
          match route with
          | .stream => some (w.set g r (.streaming engines .fresh))
          | .whole _ => some (w.set g r (.whole .working))
    | _ => none
  | .next r =>
    match w.requests r with
    | .streaming engines gen => (lines.next gen).map fun gen => w.set w.globals r (.streaming engines gen)
    | _ => none
  | .body r raises =>
    match w.requests r with
    | .streaming engines (.running pc) =>
      let (g, gen) := runBody w.globals engines pc raises
      some (w.set g r (.streaming engines gen))
    | _ => none
  | .close r =>
    match w.requests r with
    | .streaming engines gen => (lines.close gen).map fun gen => w.set w.globals r (.streaming engines gen)
    | _ => none
  | .whole r =>
    match w.requests r with
    | .whole .working => some (w.set w.globals r (.whole (.ending .forget)))
    | .whole (.ending pc) =>
      match w.globals.endStep pc with
      | (g, some pc) => some (w.set g r (.whole (.ending pc)))
      | (g, none) => some (w.set g r (.whole .returned))
    | _ => none
  | .setFlag => some { w with globals := { w.globals with cancelRequested := true } }

/-! ## Who holds the lock -/

/-- Accepted, and not over: neither failed in set-up nor closed nor returned. -/
def Request.isOpen : Request → Bool
  | .idle | .refused | .failed => false
  | .beginning .. => true
  | .streaming _ gen => gen != .closed
  | .whole pc => pc != .returned

/-- `_end_run` has yet to take the record back. -/
def Pc.isLive : Pc → Bool
  | .ending pc => pc == .forget
  | _ => true

def Request.isLive : Request → Bool
  | .streaming _ (.running pc) | .streaming _ (.suspended pc) => pc.isLive
  | .whole (.ending pc) => pc == .forget
  | q => q.isOpen

/-- No generator is closed before it was started, and no set-up raises behind
the lock. -/
def Started (w : World) : Action → Prop
  | .setUp _ raises => raises = false
  | .close r => ∀ engines, w.requests r ≠ .streaming engines .fresh
  | _ => True

/-- Only an open request holds the lock or is in flight: once a request is over,
the lock is free for the next. -/
def Released (w : World) : Prop :=
  (∀ r, w.globals.lock = some r → (w.requests r).isOpen = true) ∧
    ∀ record, w.globals.inFlight = some record → (w.requests record.run).isOpen = true

/-- An open request holds the lock, and the one in flight has yet to end. -/
structure Inv (w : World) : Prop where
  holds : ∀ r, (w.requests r).isOpen = true → w.globals.lock = some r
  live : ∀ record, w.globals.inFlight = some record → (w.requests record.run).isLive = true

/-! ## What a step does -/

/-- What a step means for the lock and the record. It is in order (`C`) unless it
ends a request that has the lock in hand. -/
inductive Move (w : World) (C : Prop) : World → Prop
  | flag (hC : C) : Move w C { w with globals := { w.globals with cancelRequested := true } }
  | take {r q} (hC : C) (hfree : w.globals.lock = none) (hq' : q.isOpen = true) :
      Move w C (w.set { w.globals with lock := some r } r q)
  /-- An open request goes on, or ends and gives the lock back. -/
  | goOn {r q g} (hC : C) (hq : (w.requests r).isOpen = true)
      (hlock : g.lock = w.globals.lock ∧ q.isOpen = true ∨ g.lock = none ∧ q.isOpen = false)
      (hrec : g.inFlight = none ∨ (∃ record, g.inFlight = some record ∧ record.run = r ∧ q.isLive = true) ∨
        g.inFlight = w.globals.inFlight ∧ ((w.requests r).isLive = true → q.isLive = true)) :
      Move w C (w.set g r q)
  /-- An open request is over with the lock in hand. -/
  | leak {r q} (hC : ¬ C) (hq : (w.requests r).isOpen = true) (hq' : q.isOpen = false) :
      Move w C (w.set w.globals r q)
  /-- A request that is not open stays so. -/
  | ended {r q} (hC : C) (hq : (w.requests r).isOpen = false) (hq' : q.isOpen = false) :
      Move w C (w.set w.globals r q)

theorem lines_handler (pc : Pc) : (lines.handler pc).isSome := by cases pc <;> rfl

/-- Running the body keeps the lock in hand, up to the last statement of the
`finally`. -/
theorem runBody_move {w : World} {C : Prop} {r : Nat} {engines : List Engine} {pc : Pc} {raises : Bool} (hC : C)
    (hq : w.requests r = .streaming engines (.running pc)) :
    Move w C (w.set (runBody w.globals engines pc raises).1 r
      (.streaming engines (runBody w.globals engines pc raises).2)) := by
  -- The flag decides only which line follows a path, but `runBody` reads it.
  have hflag : w.globals.cancelRequested = true ∨ w.globals.cancelRequested = false := by
    cases w.globals.cancelRequested <;> simp
  refine .goOn hC (by rw [hq]; rfl) ?_ ?_
  · cases pc with
    | ending pc => cases pc <;> simp [runBody, Globals.endStep, Request.isOpen]
    | sequence es =>
      cases raises <;> cases es <;> rcases hflag with hf | hf <;>
      simp [runBody, Request.isOpen, Body.raise, lines, hf]
    | _ => cases raises <;> simp [runBody, Request.isOpen, Body.raise, lines]
  · rw [hq]
    cases pc with
    | ending pc => cases pc <;> simp [runBody, Globals.endStep, Request.isOpen, Request.isLive, Pc.isLive]
    | sequence es =>
      cases raises <;> cases es <;> rcases hflag with hf | hf <;>
      simp [runBody, Request.isLive, Pc.isLive, Body.raise, lines, hf]
    | _ => cases raises <;> simp [runBody, Request.isLive, Pc.isLive, Body.raise, lines]

theorem step_move {w w' : World} {a : Action} (h : step w a = some w') : Move w (Started w a) w' := by
  cases a with
  | post r route engines sparkStatements =>
    simp only [step] at h
    split at h
    · rename_i hq
      unfold Globals.acquire at h
      cases hl : w.globals.lock with
      | none =>
        simp only [hl, Option.some.injEq] at h
        subst h
        exact .take trivial hl rfl
      | some r' =>
        simp only [hl, Option.some.injEq] at h
        subst h
        exact .ended trivial (by rw [hq]; rfl) rfl
    · cases h
  | setUp r raises =>
    simp only [step] at h
    split at h
    · rename_i route engines sparkStatements pc hq
      cases raises with
      | true =>
        cases h
        exact .leak (by simp [Started]) (by rw [hq]; rfl) rfl
      | false =>
        have hopen : (w.requests r).isOpen = true := by rw [hq]; rfl
        cases pc with
        | clear =>
          cases h
          exact .goOn rfl hopen (.inl ⟨rfl, rfl⟩) (.inr (.inr ⟨rfl, fun _ => rfl⟩))
        | record =>
          cases h
          exact .goOn rfl hopen (.inl ⟨rfl, rfl⟩) (.inr (.inl ⟨_, rfl, rfl, rfl⟩))
        | respond =>
          cases route <;>
          · cases h
            exact .goOn rfl hopen (.inl ⟨rfl, rfl⟩) (.inr (.inr ⟨rfl, fun _ => rfl⟩))
    · cases h
  | next r =>
    simp only [step] at h
    split at h
    · rename_i engines gen hq
      obtain ⟨gen', hgen, rfl⟩ := Option.map_eq_some_iff.1 h
      obtain ⟨rfl, rfl⟩ | ⟨pc, rfl, rfl⟩ := next_effect hgen
      · exact .goOn trivial (by rw [hq]; rfl) (.inl ⟨rfl, rfl⟩) (.inr (.inr ⟨rfl, fun _ => rfl⟩))
      · exact .goOn trivial (by rw [hq]; rfl) (.inl ⟨rfl, rfl⟩) (.inr (.inr ⟨rfl, by rw [hq]; exact id⟩))
    · cases h
  | body r raises =>
    simp only [step] at h
    split at h
    · rename_i engines pc hq
      cases h
      exact runBody_move trivial hq
    · cases h
  | close r =>
    simp only [step] at h
    split at h
    · rename_i engines gen hq
      obtain ⟨gen', hgen, rfl⟩ := Option.map_eq_some_iff.1 h
      obtain ⟨rfl, rfl⟩ | ⟨rfl, rfl⟩ | ⟨pc, hd, rfl, hhd, rfl⟩ := close_effect lines_handler hgen
      · -- Never started: closed with none of its body run.
        refine .leak ?_ (by rw [hq]; rfl) rfl
        exact fun hs => hs engines hq
      · refine .ended ?_ (by rw [hq]; rfl) rfl
        intro es he
        rw [hq] at he
        cases he
      · refine .goOn ?_ (by rw [hq]; rfl) (.inl ⟨rfl, rfl⟩) (.inr (.inr ⟨rfl, ?_⟩))
        · intro es he
          rw [hq] at he
          cases he
        · rw [hq]
          cases pc <;> cases hhd <;> exact id
    · cases h
  | whole r =>
    simp only [step] at h
    split at h
    · rename_i hq
      cases h
      exact .goOn trivial (by rw [hq]; rfl) (.inl ⟨rfl, rfl⟩) (.inr (.inr ⟨rfl, fun _ => rfl⟩))
    · rename_i pc hq
      cases pc <;> cases h
      · exact .goOn trivial (by rw [hq]; rfl) (.inl ⟨rfl, rfl⟩) (.inl rfl)
      · exact .goOn trivial (by rw [hq]; rfl) (.inl ⟨rfl, rfl⟩) (.inr (.inr ⟨rfl, by rw [hq]; nofun⟩))
      · exact .goOn trivial (by rw [hq]; rfl) (.inr ⟨rfl, rfl⟩)
          (.inr (.inr ⟨rfl, by rw [hq]; nofun⟩))
    · cases h
  | setFlag =>
    cases h
    exact .flag trivial

@[simp] theorem set_requests (w : World) (g : Globals) (r : Nat) (q : Request) (r' : Nat) :
    (w.set g r q).requests r' = if r' = r then q else w.requests r' := Function.update_apply ..

@[simp] theorem set_globals (w : World) (g : Globals) (r : Nat) (q : Request) :
    (w.set g r q).globals = g := rfl

theorem isOpen_of_isLive {q : Request} (h : q.isLive = true) : q.isOpen = true := by
  cases q with
  | streaming engines gen => cases gen <;> first | rfl | cases h
  | whole pc => cases pc <;> first | rfl | cases h
  | _ => exact h

theorem inv_init : Inv init := ⟨nofun, nofun⟩

theorem released_init : Released init := ⟨nofun, nofun⟩

/-- At most one request is open. -/
theorem Inv.one {w : World} (hI : Inv w) {r r' : Nat} (hr : (w.requests r).isOpen = true)
    (hr' : (w.requests r').isOpen = true) : r' = r :=
  Option.some.inj ((hI.holds r' hr').symm.trans (hI.holds r hr))

/-- The request in flight after a request `r` has gone on is `r`, if any. -/
theorem live_goOn {w : World} {r : Nat} {q : Request} {g : Globals} (hI : Inv w)
    (hq : (w.requests r).isOpen = true)
    (hrec : g.inFlight = none ∨ (∃ record, g.inFlight = some record ∧ record.run = r ∧ q.isLive = true) ∨
      g.inFlight = w.globals.inFlight ∧ ((w.requests r).isLive = true → q.isLive = true))
    {record : RunRecord} (h : g.inFlight = some record) : record.run = r ∧ q.isLive = true := by
  rcases hrec with hrec | ⟨record', hrec, hr, hlive⟩ | ⟨hrec, hlive⟩
  · rw [hrec] at h; cases h
  · rw [hrec] at h; cases h
    exact ⟨hr, hlive⟩
  · have hold := hI.live record (hrec ▸ h)
    have hr := hI.one hq (isOpen_of_isLive hold)
    exact ⟨hr, hlive (hr ▸ hold)⟩

/-- As long as the lock is given back, the open request is the one that holds it. -/
theorem inv_step {w w' : World} {a : Action} (hI : Inv w) (hP : Released w') (h : step w a = some w') :
    Inv w' := by
  cases step_move h with
  | flag => exact ⟨hI.holds, hI.live⟩
  | @take r q hC hfree hq' =>
    have hnone : ∀ r', (w.requests r').isOpen = false := fun r' => by
      rw [Bool.eq_false_iff]
      intro hr'
      rw [hI.holds r' hr'] at hfree
      cases hfree
    refine ⟨fun r' hr' => ?_, fun record hrec => ?_⟩
    · rw [set_requests] at hr'
      split at hr'
      · subst r'; rfl
      · rw [hnone r'] at hr'; cases hr'
    · have := isOpen_of_isLive (hI.live record hrec)
      rw [hnone] at this
      cases this
  | @goOn r q g hC hq hlock hrec =>
    refine ⟨fun r' hr' => ?_, fun record h => ?_⟩
    · rw [set_requests] at hr'
      split at hr'
      · subst r'
        rcases hlock with ⟨hl, -⟩ | ⟨-, hq'⟩
        · exact hl.trans (hI.holds r hq)
        · rw [hq'] at hr'; cases hr'
      · exact absurd (hI.one hq hr') ‹_›
    · obtain ⟨hr, hlive⟩ := live_goOn hI hq hrec h
      rw [set_requests, if_pos hr]
      exact hlive
  | @leak r q hC hq hq' =>
    -- `Released` rules it out: the lock would be in the hand of a request that is over.
    have := hP.1 r (hI.holds r hq)
    rw [set_requests, if_pos rfl, hq'] at this
    cases this
  | @ended r q hC hq hq' =>
    refine ⟨fun r' hr' => ?_, fun record hrec => ?_⟩
    · rw [set_requests] at hr'
      split at hr'
      · rw [hq'] at hr'; cases hr'
      · exact hI.holds r' hr'
    · have hlive := hI.live record hrec
      rw [set_requests]
      split
      · rename_i hr
        rw [hr] at hlive
        rw [isOpen_of_isLive hlive] at hq
        cases hq
      · exact hlive

theorem released_step {w w' : World} {a : Action} (hI : Inv w) (hP : Released w) (h : step w a = some w') :
    Released w' ↔ Started w a := by
  cases step_move h with
  | flag hC => exact ⟨fun _ => hC, fun _ => hP⟩
  | @take r q hC hfree hq' =>
    refine ⟨fun _ => hC, fun _ => ⟨fun r' hr' => ?_, fun record hrec => ?_⟩⟩
    · obtain rfl : r = r' := by simpa using hr'
      rw [set_requests, if_pos rfl]
      exact hq'
    · rw [set_requests]
      split
      · exact hq'
      · exact hP.2 record hrec
  | @goOn r q g hC hq hlock hrec =>
    refine ⟨fun _ => hC, fun _ => ⟨fun r' hr' => ?_, fun record h => ?_⟩⟩
    · rw [set_globals] at hr'
      rcases hlock with ⟨hl, hq'⟩ | ⟨hl, -⟩
      · obtain rfl : r = r' := Option.some.inj ((hI.holds r hq).symm.trans (hl.symm.trans hr'))
        rw [set_requests, if_pos rfl]
        exact hq'
      · rw [hl] at hr'; cases hr'
    · obtain ⟨hr, hlive⟩ := live_goOn hI hq hrec h
      rw [set_requests, if_pos hr]
      exact isOpen_of_isLive hlive
  | @leak r q hC hq hq' =>
    refine ⟨fun hP' => ?_, fun hs => absurd hs hC⟩
    have := hP'.1 r (hI.holds r hq)
    rw [set_requests, if_pos rfl, hq'] at this
    cases this
  | @ended r q hC hq hq' =>
    have hkeep : ∀ r', (w.requests r').isOpen = true → ((w.set w.globals r q).requests r').isOpen = true := by
      intro r' hr'
      rw [set_requests]
      split
      · subst r'; rw [hq] at hr'; cases hr'
      · exact hr'
    exact ⟨fun _ => hC, fun _ => ⟨fun r' hr' => hkeep r' (hP.1 r' hr'),
      fun record hrec => hkeep _ (hP.2 record hrec)⟩⟩

/-- The lock is given back all along a run exactly when every generator that is
closed was started, and no set-up raises behind the lock. -/
theorem released_iff (as : List Action) : Always step Released init as ↔ Each step Started init as :=
  always_iff_each (fun _ _ _ => inv_step) (fun _ _ _ => released_step) inv_init released_init as

/-- A streamed comparison whose client is gone before its first line was pulled,
and the next request. -/
def goneRun : List Action :=
  [.post 0 .stream [.cassandra, .presto] [], .setUp 0 false, .setUp 0 false, .setUp 0 false, .close 0,
    .post 1 .stream [.presto] []]

/-- After `goneRun` the first request is over, and the second was refused. -/
theorem goneRun_keeps_lock : ¬ Always step Released init goneRun := by
  intro h
  have hrun : (exec step init goneRun).map (fun w => (w.globals.lock, w.requests 0, w.requests 1)) =
      some (some 0, .streaming [.cassandra, .presto] .closed, .refused) := by decide
  obtain ⟨w, hw, he⟩ := Option.map_eq_some_iff.1 hrun
  obtain ⟨hl, he⟩ := Prod.mk.inj he
  have hopen := (h.last hw).1 0 hl
  rw [(Prod.mk.inj he).1] at hopen
  cases hopen

end HtapStack.Stream
