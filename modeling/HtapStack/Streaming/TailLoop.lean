import HtapStack.Lib.Runs
import HtapStack.Streaming.CdcTail
/-!
# The loop around the CDC tail

`CdcTail.run` of `backend/app/routes/streaming.py` attaches a Kafka consumer a
bufferful before the end of the topic, polls it and ingests what it gets, for
ever. An exception closes the consumer and, after a pause, everything starts
again; only a cancellation ends it.

`_attach`, `_poll` and `_close` run in worker threads. A loop that is cancelled no
longer waits for its thread, but the thread goes on: an attach may end after the
loop has.

An action is what one call into Kafka comes to, or one step of the loop itself.

- `none_leaked`: which exceptions and cancellations leave a consumer open.
- `truthful_iff`: when the reported state says how the last attempt ended.
- `buffer_ordered`: when an attach that goes back leaves the buffer in order.

Left out: the rate.
-/

namespace HtapStack.TailLoop
open CdcTail Runs

variable {F Schema : Type} {size : Nat}

/-! ## A consumer -/

/-- A `KafkaConsumer`: the offset that each of its partitions is at. -/
structure Consumer where
  id : Nat
  position : Nat → Option Nat

def Consumer.seek (c : Consumer) (tp offset : Nat) : Consumer :=
  { c with position := Function.update c.position tp (some offset) }

/-- What a poll can return: of each partition the records from its position on, in
the order of their offsets. -/
def Consumer.Delivers (c : Consumer) (messages : List Message) : Prop :=
  messages.Pairwise (fun a b => a.partition = b.partition → a.offset < b.offset) ∧
    ∀ m ∈ messages, (c.position m.partition).any (· ≤ m.offset) = true

instance (c : Consumer) (messages : List Message) : Decidable (c.Delivers messages) :=
  inferInstanceAs (Decidable (_ ∧ _))

/-- The consumer after a poll. -/
def Consumer.past (c : Consumer) (messages : List Message) : Consumer :=
  messages.foldl (fun c m => c.seek m.partition (m.offset + 1)) c

/-! ## Attaching -/

/-- How far an attach has come: which call it is in. -/
inductive Stage where
  | construct
  | partitionsForTopic (c : Consumer)
  | closeUnused (c : Consumer)
  | assign (c : Consumer) (assignment : List Nat)
  | endOffsets (c : Consumer) (assignment : List Nat)
  | beginningOffsets (c : Consumer) (assignment : List Nat) (ends : Nat → Nat)
  | seek (c : Consumer) (assignment : List Nat) (ends begins : Nat → Nat) (tp : Nat) (rest : List Nat)

/-- What the call comes to. The partitions are sorted. -/
inductive Call where
  | constructed
  | partitions (ps : List Nat)
  | closed
  | assigned
  | ends (offsets : Nat → Nat)
  | begins (offsets : Nat → Nat)
  | sought
  | raised (fault : Fault)

/-- A partition's share of the buffer. -/
def backfillEach (size : Nat) (assignment : List Nat) : Nat := max 1 (size / assignment.length)

/-- Where a partition is read from. -/
def seekTo (size : Nat) (assignment : List Nat) (ends begins : Nat → Nat) (tp : Nat) : Nat :=
  max (begins tp) (ends tp - backfillEach size assignment)

/-- The calls that only lead on to the next one. -/
def nextStage (size : Nat) : Stage → Call → Option Stage
  | .partitionsForTopic c, .partitions ps =>
    if ps = [] then some (.closeUnused c)
    else if ps.Pairwise (· < ·) then some (.assign c ps)
    else none
  | .assign c ps, .assigned => some (.endOffsets c ps)
  | .endOffsets c ps, .ends ends => some (.beginningOffsets c ps ends)
  | .beginningOffsets c (tp :: rest) ends, .begins begins => some (.seek c (tp :: rest) ends begins tp rest)
  | .seek c ps ends begins tp (tp' :: rest), .sought =>
    some (.seek (c.seek tp (seekTo size ps ends begins tp)) ps ends begins tp' rest)
  | _, _ => none

/-- `CdcStreamStatus.state`. -/
inductive TailState where
  | starting
  | waitingForTopic
  | tailing
  | error
  deriving DecidableEq, Repr

/-- How an attempt ended: one turn of the loop. -/
inductive Attempt where
  | succeeded
  | noTopic
  | failed
  deriving DecidableEq, Repr

/-- Where the loop is. -/
inductive Pc where
  | top
  | attach (stage : Stage)
  | poll
  | ingest (messages : List Message)
  /-- `_close`, after an exception. -/
  | handler
  | sleep
  /-- `_close`, after a cancellation. -/
  | closing
  | stopped

/-- The tail, its loop, and an attach that the loop no longer waits for. The last
three fields are not the code's: how many consumers have been constructed, which of
them have not been closed, and how the last attempt ended. -/
structure Loop (F Schema : Type) (size : Nat) where
  tail : Tail F Schema size
  consumer : Option Consumer
  partitions : List Nat
  state : TailState
  error : Option Text
  pc : Pc
  abandoned : Option Stage
  built : Nat
  unclosed : List Nat
  last : Option Attempt

def freshTail : Tail F Schema size where
  buffer := ⟨[], Nat.zero_le _⟩
  seq := 0
  consumed := 0
  decodeFailures := 0
  schemas _ := none
  backfillUntil _ := none
  latencies := ⟨[], Nat.zero_le _⟩
  lastRecordAtMs := none

def init : Loop F Schema size where
  tail := freshTail
  consumer := none
  partitions := []
  state := .starting
  error := none
  pc := .top
  abandoned := none
  built := 0
  unclosed := []
  last := none

def Loop.construct (s : Loop F Schema size) : Loop F Schema size :=
  { s with built := s.built + 1, unclosed := s.unclosed ++ [s.built] }

/-- `consumer.close()`, which closes even if it raises. -/
def Loop.close (s : Loop F Schema size) (c : Consumer) : Loop F Schema size :=
  { s with unclosed := s.unclosed.erase c.id }

/-- The end of `_attach`. -/
def Loop.store (s : Loop F Schema size) (topic : Text) (c : Consumer) (assignment : List Nat) (ends : Nat → Nat) :
    Loop F Schema size :=
  { s with
    tail := { s.tail with
      backfillUntil := fun tp => if tp.1 = topic ∧ tp.2 ∈ assignment then some (ends tp.2) else none }
    consumer := some c
    partitions := assignment
    state := .tailing }

def noTopic (topic : Text) : Fault :=
  ⟨"RuntimeError".toList, "topic ".toList ++ topic ++
    " does not exist yet; the Sidecar creates it with its first published mutation".toList⟩

/-- What one call of an attach leads to. -/
inductive Progress where
  | running (stage : Stage)
  | returned
  | raised (fault : Fault)

/-- The stage that is left. -/
def Progress.next : Progress → Option Stage
  | .running stage => some stage
  | _ => none

/-- `_attach`, by one call. -/
def attachStep (topic : Text) (s : Loop F Schema size) (stage : Stage) (call : Call) :
    Option (Loop F Schema size × Progress) :=
  match stage, call with
  | .construct, .constructed => some (s.construct, .running (.partitionsForTopic ⟨s.built, fun _ => none⟩))
  | .closeUnused c, .closed => some ({ s.close c with state := .waitingForTopic }, .raised (noTopic topic))
  | .closeUnused c, .raised fault => some (s.close c, .raised fault)
  | .seek c ps ends begins tp [], .sought =>
    some (s.store topic (c.seek tp (seekTo size ps ends begins tp)) ps ends, .returned)
  | _, .raised fault => some (s, .raised fault)
  | stage, call => (nextStage size stage call).map fun next => (s, .running next)

/-- How an attempt counts whose attach raises there. -/
def Stage.attempt : Stage → Attempt
  | .closeUnused _ => .noTopic
  | _ => .failed

/-! ## The loop -/

inductive Action (F Schema : Type) where
  | loop
  | attach (call : Call)
  | abandoned (call : Call)
  | polled (messages : List Message)
  | pollRaised (fault : Fault)
  | decode (answer : Answer F Schema)
  | ingested
  | close
  | slept
  /-- The loop is cancelled; `started` says whether its thread had begun. -/
  | cancel (started : Bool)

/-- `_close`. -/
def Loop.closeConsumer (s : Loop F Schema size) : Loop F Schema size :=
  match s.consumer with
  | none => s
  | some c => { s.close c with consumer := none }

/-- The handler of an exception, up to its `_close`. -/
def Loop.fail (s : Loop F Schema size) (attempt : Attempt) (fault : Fault) : Loop F Schema size :=
  { s with
    error := some (fault.type ++ ": ".toList ++ fault.text)
    state := .error
    pc := .handler
    last := some attempt }

section
variable (I : Interp F) (reader : List UInt8 → Schema → Except Fault (Value F)) (describe : Exn → Fault)
  (topic : Text)

def step (s : Loop F Schema size) : Action F Schema → Option (Loop F Schema size)
  | .loop =>
    match s.pc with
    | .top => some { s with pc := if s.consumer.isNone then .attach .construct else .poll }
    | _ => none
  | .attach call =>
    match s.pc with
    | .attach stage => (attachStep topic s stage call).map fun done =>
      match done.2 with
      | .running next => { done.1 with pc := .attach next }
      | .returned => { done.1 with pc := .poll }
      | .raised fault => done.1.fail stage.attempt fault
    | _ => none
  | .abandoned call =>
    match s.abandoned with
    | some stage => (attachStep topic s stage call).map fun done => { done.1 with abandoned := done.2.next }
    | none => none
  | .polled messages =>
    match s.pc, s.consumer with
    | .poll, some c =>
      if c.Delivers messages then some { s with consumer := some (c.past messages), pc := .ingest messages } else none
    | _, _ => none
  | .pollRaised fault =>
    match s.pc with
    | .poll => some (s.fail .failed fault)
    | _ => none
  | .decode answer =>
    match s.pc with
    | .ingest (m :: messages) =>
      match CdcTail.decode I reader { s.tail with consumed := s.tail.consumed + 1 } m answer with
      | (t, .ok record) =>
        some { s with tail := { t with buffer := t.buffer.append record }, pc := .ingest messages }
      | (t, .error e) => some ({ s with tail := t }.fail .failed (describe e))
    | _ => none
  | .ingested =>
    match s.pc with
    | .ingest [] => some { s with error := none, pc := .top, last := some .succeeded }
    | _ => none
  | .close =>
    match s.pc with
    | .handler => some { s.closeConsumer with pc := .sleep }
    | .closing => some { s.closeConsumer with pc := .stopped }
    | _ => none
  | .slept =>
    match s.pc with
    | .sleep => some { s with pc := .top }
    | _ => none
  | .cancel started =>
    match s.pc, started with
    | .attach stage, true => some { s with abandoned := some stage, pc := .closing }
    | .attach .construct, false | .poll, _ | .ingest _, _ => some { s with pc := .closing }
    -- Within the handler nothing waits for the close any more.
    | .handler, true => some { s.closeConsumer with pc := .stopped }
    | .handler, false | .sleep, _ => some { s with pc := .stopped }
    | _, _ => none

end

variable {I : Interp F} {reader : List UInt8 → Schema → Except Fault (Value F)} {describe : Exn → Fault}
  {topic : Text} {s s' : Loop F Schema size}

/-! ## What one call does -/

theorem attachStep_cases {stage : Stage} {call : Call} {p : Progress}
    (h : attachStep topic s stage call = some (s', p)) :
    (stage = .construct ∧ call = .constructed ∧ s' = s.construct ∧
      p = .running (.partitionsForTopic ⟨s.built, fun _ => none⟩)) ∨
    (∃ c fault, stage = .closeUnused c ∧ (∃ state, s' = { s.close c with state := state }) ∧ p = .raised fault) ∨
    (∃ fault, call = .raised fault ∧ stage.attempt = .failed ∧ s' = s ∧ p = .raised fault) ∨
    (∃ c ps ends begins tp, stage = .seek c ps ends begins tp [] ∧ call = .sought ∧
      s' = s.store topic (c.seek tp (seekTo size ps ends begins tp)) ps ends ∧ p = .returned) ∨
    ∃ next, nextStage size stage call = some next ∧ s' = s ∧ p = .running next := by
  unfold attachStep at h
  split at h
  · cases h
    exact .inl ⟨rfl, rfl, rfl, rfl⟩
  · cases h
    exact .inr (.inl ⟨_, _, rfl, ⟨_, rfl⟩, rfl⟩)
  · cases h
    exact .inr (.inl ⟨_, _, rfl, ⟨s.state, rfl⟩, rfl⟩)
  · cases h
    exact .inr (.inr (.inr (.inl ⟨_, _, _, _, _, rfl, rfl, rfl, rfl⟩)))
  · rename_i hclose
    cases h
    refine .inr (.inr (.inl ⟨_, rfl, ?_, rfl, rfl⟩))
    cases stage with
    | closeUnused c => exact absurd rfl (hclose c)
    | _ => rfl
  · obtain ⟨next, hnext, heq⟩ := Option.map_eq_some_iff.1 h
    cases heq
    exact .inr (.inr (.inr (.inr ⟨next, hnext, rfl, rfl⟩)))

/-- What a step of the loop does, by where it is. -/
inductive Stepped (I : Interp F) (reader : List UInt8 → Schema → Except Fault (Value F)) (describe : Exn → Fault)
    (topic : Text) (s : Loop F Schema size) : Action F Schema → Loop F Schema size → Prop
  | attach (hpc : s.pc = .top) (hc : s.consumer = none) :
    Stepped I reader describe topic s .loop { s with pc := .attach .construct }
  | poll {c} (hpc : s.pc = .top) (hc : s.consumer = some c) :
    Stepped I reader describe topic s .loop { s with pc := .poll }
  | running {stage next call s₁} (hpc : s.pc = .attach stage)
    (h : attachStep topic s stage call = some (s₁, .running next)) :
    Stepped I reader describe topic s (.attach call) { s₁ with pc := .attach next }
  | attached {stage call s₁} (hpc : s.pc = .attach stage) (h : attachStep topic s stage call = some (s₁, .returned)) :
    Stepped I reader describe topic s (.attach call) { s₁ with pc := .poll }
  | attachRaised {stage call fault s₁} (hpc : s.pc = .attach stage)
    (h : attachStep topic s stage call = some (s₁, .raised fault)) :
    Stepped I reader describe topic s (.attach call) (s₁.fail stage.attempt fault)
  | abandoned {stage call p s₁} (hab : s.abandoned = some stage)
    (h : attachStep topic s stage call = some (s₁, p)) :
    Stepped I reader describe topic s (.abandoned call) { s₁ with abandoned := p.next }
  | polled {c messages} (hpc : s.pc = .poll) (hc : s.consumer = some c) (h : c.Delivers messages) :
    Stepped I reader describe topic s (.polled messages)
      { s with consumer := some (c.past messages), pc := .ingest messages }
  | pollRaised {fault} (hpc : s.pc = .poll) :
    Stepped I reader describe topic s (.pollRaised fault) (s.fail .failed fault)
  | decoded {m messages answer t record} (hpc : s.pc = .ingest (m :: messages))
    (h : decode I reader { s.tail with consumed := s.tail.consumed + 1 } m answer = (t, .ok record)) :
    Stepped I reader describe topic s (.decode answer)
      { s with tail := { t with buffer := t.buffer.append record }, pc := .ingest messages }
  | decodeRaised {m messages answer t e} (hpc : s.pc = .ingest (m :: messages))
    (h : decode I reader { s.tail with consumed := s.tail.consumed + 1 } m answer = (t, .error e)) :
    Stepped I reader describe topic s (.decode answer) ({ s with tail := t }.fail .failed (describe e))
  | ingested (hpc : s.pc = .ingest []) :
    Stepped I reader describe topic s .ingested { s with error := none, pc := .top, last := some .succeeded }
  | closed (hpc : s.pc = .handler) : Stepped I reader describe topic s .close { s.closeConsumer with pc := .sleep }
  | ended (hpc : s.pc = .closing) : Stepped I reader describe topic s .close { s.closeConsumer with pc := .stopped }
  | slept (hpc : s.pc = .sleep) : Stepped I reader describe topic s .slept { s with pc := .top }
  | cancelAttach {stage} (hpc : s.pc = .attach stage) :
    Stepped I reader describe topic s (.cancel true) { s with abandoned := some stage, pc := .closing }
  | cancelConstruct (hpc : s.pc = .attach .construct) :
    Stepped I reader describe topic s (.cancel false) { s with pc := .closing }
  | cancelPoll {started} (hpc : s.pc = .poll ∨ ∃ messages, s.pc = .ingest messages) :
    Stepped I reader describe topic s (.cancel started) { s with pc := .closing }
  | cancelClose (hpc : s.pc = .handler) :
    Stepped I reader describe topic s (.cancel true) { s.closeConsumer with pc := .stopped }
  | cancelHandler (hpc : s.pc = .handler) :
    Stepped I reader describe topic s (.cancel false) { s with pc := .stopped }
  | cancelSleep {started} (hpc : s.pc = .sleep) :
    Stepped I reader describe topic s (.cancel started) { s with pc := .stopped }

theorem stepped {a : Action F Schema} (h : step I reader describe topic s a = some s') :
    Stepped I reader describe topic s a s' := by
  cases a with
  | attach call =>
    simp only [step] at h
    split at h
    · obtain ⟨⟨s₁, p⟩, hstep, rfl⟩ := Option.map_eq_some_iff.1 h
      cases p with
      | running next => exact .running ‹_› hstep
      | returned => exact .attached ‹_› hstep
      | raised fault => exact .attachRaised ‹_› hstep
    · cases h
  | abandoned call =>
    simp only [step] at h
    split at h
    · obtain ⟨⟨s₁, p⟩, hstep, rfl⟩ := Option.map_eq_some_iff.1 h
      exact .abandoned ‹_› hstep
    · cases h
  | loop =>
    simp only [step] at h
    split at h
    · by_cases hc : s.consumer = none
      · rw [if_pos (Option.isNone_iff_eq_none.2 hc)] at h
        cases h
        exact .attach ‹_› hc
      · rw [if_neg (Option.isNone_iff_eq_none.not.2 hc)] at h
        cases h
        obtain ⟨c, hc⟩ := Option.ne_none_iff_exists'.1 hc
        exact .poll ‹_› hc
    · cases h
  | polled messages =>
    simp only [step] at h
    split at h
    · split at h
      · cases h
        exact .polled ‹_› ‹_› ‹_›
      · cases h
    · cases h
  | pollRaised fault =>
    simp only [step] at h
    split at h
    · cases h
      exact .pollRaised ‹_›
    · cases h
  | decode answer =>
    simp only [step] at h
    split at h
    · split at h
      · cases h
        exact .decoded ‹_› ‹_›
      · cases h
        exact .decodeRaised ‹_› ‹_›
    · cases h
  | ingested =>
    simp only [step] at h
    split at h
    · cases h
      exact .ingested ‹_›
    · cases h
  | close =>
    simp only [step] at h
    split at h
    · cases h
      exact .closed ‹_›
    · cases h
      exact .ended ‹_›
    · cases h
  | slept =>
    simp only [step] at h
    split at h
    · cases h
      exact .slept ‹_›
    · cases h
  | cancel started =>
    simp only [step] at h
    split at h
    · cases h
      exact .cancelAttach ‹_›
    · cases h
      exact .cancelConstruct ‹_›
    · cases h
      exact .cancelPoll (.inl ‹_›)
    · cases h
      exact .cancelPoll (.inr ⟨_, ‹_›⟩)
    · cases h
      exact .cancelClose ‹_›
    · cases h
      exact .cancelHandler ‹_›
    · cases h
      exact .cancelSleep ‹_›
    · cases h

/-! ## No consumer is leaked -/

/-- The consumers that the attach has constructed and has not closed or stored. -/
def Stage.held : Stage → List Nat
  | .construct => []
  | .partitionsForTopic c | .closeUnused c | .assign c _ | .endOffsets c _ | .beginningOffsets c _ _
  | .seek c _ _ _ _ _ => [c.id]

/-- An exception there leaves no consumer behind. -/
def Stage.mayRaise : Stage → Bool
  | .construct | .closeUnused _ => true
  | _ => false

theorem nextStage_held {stage next : Stage} {call : Call} (h : nextStage size stage call = some next) :
    next.held = stage.held := by
  unfold nextStage at h
  split at h
  · split at h
    · cases h
      rfl
    · split at h
      · cases h
        rfl
      · cases h
  all_goals
    cases h
    try rfl

/-- At most one consumer is open, and none when the loop has ended. -/
def NoneLeaked (s : Loop F Schema size) : Prop := s.unclosed.length ≤ 1 ∧ (s.pc = .stopped → s.unclosed = [])

/-- No exception comes between constructing a consumer and storing it; and a
cancellation finds no attach under way that has constructed one or still will, and
no close that has not begun. -/
def Tidy (s : Loop F Schema size) : Action F Schema → Prop
  | .attach (.raised _) => ∀ stage, s.pc = .attach stage → stage.mayRaise = true
  | .abandoned (.raised _) => ∀ stage, s.abandoned = some stage → stage.mayRaise = true
  | .abandoned .constructed => s.pc ≠ .stopped
  | .close => s.pc = .closing → ∀ stage, s.abandoned = some stage → stage = .construct
  | .cancel started => s.pc = .handler → started = false → s.consumer = none
  | _ => True

/-- Which one is open: that of the attach under way, or the one stored. -/
def Sole (s : Loop F Schema size) : Prop :=
  match s.pc with
  | .attach stage => s.consumer = none ∧ s.abandoned = none ∧ s.unclosed = stage.held
  | .sleep => s.consumer = none ∧ s.abandoned = none ∧ s.unclosed = []
  | .closing =>
    s.abandoned = none ∧ s.unclosed = s.consumer.toList.map Consumer.id ∨
      ∃ stage, s.abandoned = some stage ∧ s.consumer = none ∧ s.unclosed = stage.held
  | .stopped => s.consumer = none ∧ s.unclosed = [] ∧ ∀ stage, s.abandoned = some stage → stage = .construct
  | _ => s.abandoned = none ∧ s.unclosed = s.consumer.toList.map Consumer.id

theorem Sole.noneLeaked (h : Sole s) : NoneLeaked s := by
  have hheld (stage : Stage) : stage.held.length ≤ 1 := by cases stage <;> simp [Stage.held]
  have hid : (s.consumer.toList.map Consumer.id).length ≤ 1 := by cases s.consumer <;> simp
  unfold Sole at h
  unfold NoneLeaked
  split at h
  · rename_i hpc
    exact ⟨h.2.2 ▸ hheld _, by simp [hpc]⟩
  · rename_i hpc
    exact ⟨by simp [h.2.2], by simp [hpc]⟩
  · rename_i hpc
    refine ⟨?_, by simp [hpc]⟩
    obtain ⟨-, hun⟩ | ⟨stage, -, -, hun⟩ := h
    · exact hun ▸ hid
    · exact hun ▸ hheld stage
  · exact ⟨by simp [h.2.1], fun _ => h.2.1⟩
  · rename_i hstopped _
    exact ⟨h.2 ▸ hid, fun hpc => absurd hpc (by assumption)⟩

/-- What a call of an attach does to the consumers that are open. -/
theorem attachStep_unclosed {stage : Stage} {call : Call} {p : Progress}
    (h : attachStep topic s stage call = some (s', p)) (hc : s.consumer = none) (hun : s.unclosed = stage.held)
    (hraise : ∀ fault, call = .raised fault → stage.mayRaise = true) :
    s'.pc = s.pc ∧ s'.abandoned = s.abandoned ∧ match p with
      | .running next => s'.consumer = none ∧ s'.unclosed = next.held
      | .returned => s'.unclosed = s'.consumer.toList.map Consumer.id
      | .raised _ => s'.consumer = none ∧ s'.unclosed = [] := by
  obtain ⟨rfl, rfl, rfl, rfl⟩ | ⟨c, fault, rfl, ⟨state, rfl⟩, rfl⟩ | ⟨fault, rfl, hfailed, rfl, rfl⟩ |
    ⟨c, ps, ends, begins, tp, rfl, rfl, rfl, rfl⟩ | ⟨next, hnext, rfl, rfl⟩ := attachStep_cases h
  · exact ⟨rfl, rfl, hc, by simp [Loop.construct, hun, Stage.held]⟩
  · exact ⟨rfl, rfl, hc, by simp [Loop.close, hun, Stage.held]⟩
  · refine ⟨rfl, rfl, hc, ?_⟩
    have := hraise fault rfl
    cases stage with
    | construct => exact hun
    | closeUnused c => cases hfailed
    | _ => cases this
  · exact ⟨rfl, rfl, by simp [Loop.store, hun, Stage.held, Consumer.seek]⟩
  · exact ⟨rfl, rfl, hc, by rw [nextStage_held hnext, hun]⟩

theorem unclosed_closeConsumer (h : s.unclosed = s.consumer.toList.map Consumer.id) :
    s.closeConsumer.consumer = none ∧ s.closeConsumer.unclosed = [] ∧ s.closeConsumer.abandoned = s.abandoned := by
  unfold Loop.closeConsumer
  cases hc : s.consumer with
  | none => exact ⟨hc, by simp [h, hc], rfl⟩
  | some c => exact ⟨rfl, by simp [Loop.close, h, hc], rfl⟩

/-- An attach that is no longer waited for goes on only while the loop closes, or
has not begun. -/
theorem Sole.of_abandoned {stage : Stage} (hI : Sole s) (hab : s.abandoned = some stage) :
    s.consumer = none ∧ s.unclosed = stage.held ∧ (s.pc = .closing ∨ s.pc = .stopped ∧ stage = .construct) := by
  unfold Sole at hI
  split at hI
  · simp [hab] at hI
  · simp [hab] at hI
  · rename_i hpc
    obtain ⟨hnone, -⟩ | ⟨stage', hab', hc, hun⟩ := hI
    · simp [hab] at hnone
    · cases hab.symm.trans hab'
      exact ⟨hc, hun, .inl hpc⟩
  · rename_i hpc
    obtain rfl := hI.2.2 stage hab
    exact ⟨hI.1, hI.2.1, .inr ⟨hpc, rfl⟩⟩
  · simp [hab] at hI

theorem id_past (c : Consumer) (messages : List Message) : (c.past messages).id = c.id := by
  unfold Consumer.past
  induction messages generalizing c with
  | nil => rfl
  | cons m messages ih => exact ih _

theorem sole_step {a : Action F Schema} (hI : Sole s) (hC : Tidy s a)
    (h : step I reader describe topic s a = some s') : Sole s' := by
  have hstep := stepped h
  clear h
  cases hstep with
  | attach hpc hc =>
    simp only [Sole, hpc] at hI
    exact ⟨hc, hI.1, by simp [hI.2, hc, Stage.held]⟩
  | poll hpc hc =>
    simp only [Sole, hpc] at hI
    exact hI
  | @running stage _ call _ hpc h =>
    simp only [Sole, hpc] at hI
    obtain ⟨-, hab, hc, hun⟩ := attachStep_unclosed h hI.1 hI.2.2 (by
      rintro fault rfl
      exact hC stage hpc)
    exact ⟨hc, hab.trans hI.2.1, hun⟩
  | @attached stage _ _ hpc h =>
    simp only [Sole, hpc] at hI
    obtain ⟨-, hab, hun⟩ := attachStep_unclosed h hI.1 hI.2.2 (by
      rintro fault rfl
      exact hC stage hpc)
    exact ⟨hab.trans hI.2.1, hun⟩
  | @attachRaised stage _ _ _ hpc h =>
    simp only [Sole, hpc] at hI
    obtain ⟨-, hab, hc, hun⟩ := attachStep_unclosed h hI.1 hI.2.2 (by
      rintro fault rfl
      exact hC stage hpc)
    exact ⟨hab.trans hI.2.1, by simp [Loop.fail, hc, hun]⟩
  | @abandoned stage call p s₁ hab h =>
    obtain ⟨hc, hun, hpc⟩ := hI.of_abandoned hab
    obtain ⟨hpc₁, -, hp⟩ := attachStep_unclosed h hc hun (by
      rintro fault rfl
      exact hC stage hab)
    rcases hpc with hpc | ⟨hpc, rfl⟩
    · simp only [Sole, hpc₁.trans hpc]
      cases p with
      | running next => exact .inr ⟨next, rfl, hp⟩
      | returned => exact .inl ⟨rfl, hp⟩
      | raised fault => exact .inl ⟨rfl, by simp [hp]⟩
    · -- After the end it may only raise.
      simp only [Sole, hpc₁.trans hpc]
      cases call with
      | constructed => exact absurd hpc hC
      | raised fault =>
        cases h
        exact ⟨hp.1, hp.2, by simp [Progress.next]⟩
      | _ => simp [attachStep, nextStage] at h
  | polled hpc hc h =>
    simp only [Sole, hpc, hc] at hI
    simpa [Sole, id_past] using hI
  | pollRaised hpc =>
    simp only [Sole, hpc] at hI
    exact hI
  | decoded hpc h =>
    simp only [Sole, hpc] at hI
    exact hI
  | decodeRaised hpc h =>
    simp only [Sole, hpc] at hI
    exact hI
  | ingested hpc =>
    simp only [Sole, hpc] at hI
    exact hI
  | closed hpc =>
    simp only [Sole, hpc] at hI
    obtain ⟨hc, hun, hab⟩ := unclosed_closeConsumer hI.2
    exact ⟨hc, hab.trans hI.1, hun⟩
  | ended hpc =>
    have hends := hC hpc
    simp only [Sole, hpc] at hI
    have hun : s.unclosed = s.consumer.toList.map Consumer.id := by
      rcases hI with ⟨-, hun⟩ | ⟨stage, hab, hc, hun⟩
      · exact hun
      · rw [hun, hc, hends stage hab]
        rfl
    obtain ⟨hc, hun, hab⟩ := unclosed_closeConsumer hun
    exact ⟨hc, hun, fun stage hstage => hends stage (hab.symm.trans hstage)⟩
  | slept hpc =>
    simp only [Sole, hpc] at hI
    exact ⟨hI.2.1, by simp [hI]⟩
  | cancelAttach hpc =>
    simp only [Sole, hpc] at hI
    exact .inr ⟨_, rfl, hI.1, hI.2.2⟩
  | cancelConstruct hpc =>
    simp only [Sole, hpc] at hI
    exact .inl ⟨hI.2.1, by simp [hI, Stage.held]⟩
  | cancelPoll hpc =>
    rcases hpc with hpc | ⟨messages, hpc⟩
    all_goals
      simp only [Sole, hpc] at hI
      exact .inl hI
  | cancelClose hpc =>
    simp only [Sole, hpc] at hI
    obtain ⟨hc, hun, hab⟩ := unclosed_closeConsumer hI.2
    exact ⟨hc, hun, by simp [hab, hI.1]⟩
  | cancelHandler hpc =>
    have hc := hC hpc rfl
    simp only [Sole, hpc] at hI
    exact ⟨hc, by simp [hI.2, hc], by simp [hI.1]⟩
  | cancelSleep hpc =>
    simp only [Sole, hpc] at hI
    exact ⟨hI.1, hI.2.2, by simp [hI.2.1]⟩

/-- In every run whose steps are tidy no consumer is leaked. -/
theorem none_leaked {as : List (Action F Schema)}
    (h : Each (step I reader describe topic) Tidy (init : Loop F Schema size) as) :
    Always (step I reader describe topic) NoneLeaked (init : Loop F Schema size) as :=
  always_of_each (fun _ _ _ => sole_step) (fun _ => Sole.noneLeaked) ⟨rfl, rfl⟩ h

/-- A loop that decodes ASCII. -/
def asciiStep : Loop Unit Unit 50 → Action Unit Unit → Option (Loop Unit Unit 50) :=
  step ascii readString (fun _ => ⟨[], []⟩) "cdc".toList

def timeout : Fault := ⟨"KafkaTimeoutError".toList, []⟩

/-- Kafka is not there, then the topic is not; the loop is cancelled while it polls its second consumer. -/
theorem none_leaked_cancelled : Always asciiStep NoneLeaked init
    [.loop, .attach (.raised timeout), .close, .slept,
      .loop, .attach .constructed, .attach (.partitions []), .attach .closed, .close, .slept,
      .loop, .attach .constructed, .attach (.partitions [0]), .attach .assigned, .attach (.ends fun _ => 1),
      .attach (.begins fun _ => 0), .attach .sought, .polled [], .ingested, .loop, .cancel true, .close] := by
  apply none_leaked
  have hcancelled : ∀ s : Loop Unit Unit 50, s.pc = .poll → Tidy s (.cancel true) := by
    intro s hpc hhandler
    cases hpc.symm.trans hhandler
  have hclosed : ∀ s : Loop Unit Unit 50, s.pc ≠ .closing ∨ s.abandoned = none → Tidy s .close := by
    intro s h hpc stage hstage
    rcases h with h | h
    · exact absurd hpc h
    · cases h.symm.trans hstage
  refine .of_step rfl trivial <| .of_step rfl ?_ <| .of_step rfl (hclosed _ (.inl nofun)) <| .of_step rfl trivial <|
    .of_step rfl trivial <| .of_step rfl trivial <| .of_step rfl trivial <| .of_step rfl trivial <|
    .of_step rfl (hclosed _ (.inl nofun)) <| .of_step rfl trivial <| .of_step rfl trivial <| .of_step rfl trivial <|
    .of_step rfl trivial <| .of_step rfl trivial <| .of_step rfl trivial <| .of_step rfl trivial <|
    .of_step rfl trivial <| .of_step rfl trivial <| .of_step rfl trivial <| .of_step rfl trivial <|
    .of_step rfl (hcancelled _ rfl) <| .of_step rfl (hclosed _ (.inr rfl)) trivial
  -- The constructor may raise.
  intro stage hstage
  cases hstage
  rfl

/-- Two attaches that fail on the list of partitions leave two. -/
theorem failed_attach_leaks : ¬ ∀ as, Always asciiStep NoneLeaked init as := by
  intro h
  obtain ⟨s, hs, hunclosed⟩ : ∃ s, exec asciiStep init [.loop, .attach .constructed, .attach (.raised timeout), .close,
      .slept, .loop, .attach .constructed] = some s ∧ s.unclosed = [0, 1] := ⟨_, rfl, rfl⟩
  have hone := ((h _).last hs).1
  rw [hunclosed] at hone
  exact absurd hone (by decide)

/-! ## The state that is reported -/

/-- The loop is between two attempts. -/
def Observed (s : Loop F Schema size) : Prop := (s.pc = .top ∨ s.pc = .sleep) ∧ s.last ≠ none

/-- The state says whether a consumer is attached, and how the last attempt ended. -/
structure Truthful (s : Loop F Schema size) : Prop where
  tailing : s.state = .tailing ↔ s.consumer ≠ none
  waiting : s.state = .waitingForTopic ↔ s.last = some .noTopic
  error : s.state = .error ↔ s.last = some .failed

/-- What the handler of an exception leaves. -/
def Failed (s : Loop F Schema size) : Prop :=
  s.state = .error ∧ (s.last = some .noTopic ∨ s.last = some .failed)

def Labelled (s : Loop F Schema size) : Prop :=
  match s.pc with
  | .top =>
    s.abandoned = none ∧ (s.last = none ∧ s.consumer = none ∨
      s.last = some .succeeded ∧ s.consumer ≠ none ∧ s.state = .tailing ∨ Failed s ∧ s.consumer = none)
  | .attach _ => s.abandoned = none
  | .poll | .ingest _ => s.abandoned = none ∧ s.consumer ≠ none ∧ s.state = .tailing
  | .handler => s.abandoned = none ∧ Failed s
  | .sleep => s.abandoned = none ∧ Failed s ∧ s.consumer = none
  | .closing | .stopped => True

theorem truthful_of_failed (h : Failed s) (hc : s.consumer = none) : Truthful s ↔ s.last ≠ some .noTopic := by
  obtain ⟨hstate, hlast⟩ := h
  constructor
  · intro ht hno
    cases hstate.symm.trans (ht.waiting.2 hno)
  · intro hno
    have hlast := hlast.resolve_left hno
    exact ⟨by simp [hstate, hc], by simp [hstate, hlast], by simp [hstate, hlast]⟩

theorem Labelled.truthful_here (h : Labelled s) (ho : Observed s) : Truthful s ↔ s.last ≠ some .noTopic := by
  obtain ⟨hpc | hpc, hlast⟩ := ho
  · simp only [Labelled, hpc] at h
    rcases h with ⟨-, hfirst | ⟨hok, hc, hstate⟩ | ⟨hfailed, hc⟩⟩
    · exact absurd hfirst.1 hlast
    · exact iff_of_true ⟨by simp [hstate, hc], by simp [hstate, hok], by simp [hstate, hok]⟩ (by simp [hok])
    · exact truthful_of_failed hfailed hc
  · simp only [Labelled, hpc] at h
    exact truthful_of_failed h.2.1 h.2.2

/-- An attach that is no longer waited for is one of a loop that ends. -/
theorem Labelled.ending {stage : Stage} (h : Labelled s) (hab : s.abandoned = some stage) :
    s.pc = .closing ∨ s.pc = .stopped := by
  cases hpc : s.pc with
  | closing => exact .inl rfl
  | stopped => exact .inr rfl
  | _ => simp [Labelled, hpc, hab] at h

theorem labelled_init : Labelled (init : Loop F Schema size) := ⟨rfl, .inl ⟨rfl, rfl⟩⟩

theorem attachStep_frame {stage : Stage} {call : Call} {p : Progress}
    (h : attachStep topic s stage call = some (s', p)) :
    s'.pc = s.pc ∧ s'.abandoned = s.abandoned ∧ s'.tail.buffer = s.tail.buffer ∧ s'.tail.seq = s.tail.seq ∧
      (p = .returned → s'.consumer ≠ none ∧ s'.state = .tailing) := by
  obtain ⟨rfl, rfl, rfl, rfl⟩ | ⟨c, fault, rfl, ⟨state, rfl⟩, rfl⟩ | ⟨fault, rfl, hfailed, rfl, rfl⟩ |
    ⟨c, ps, ends, begins, tp, rfl, rfl, rfl, rfl⟩ | ⟨next, hnext, rfl, rfl⟩ := attachStep_cases h
  · exact ⟨rfl, rfl, rfl, rfl, nofun⟩
  · exact ⟨rfl, rfl, rfl, rfl, nofun⟩
  · exact ⟨rfl, rfl, rfl, rfl, nofun⟩
  · exact ⟨rfl, rfl, rfl, rfl, fun _ => ⟨Option.some_ne_none _, rfl⟩⟩
  · exact ⟨rfl, rfl, rfl, rfl, nofun⟩

theorem consumer_closeConsumer : s.closeConsumer.consumer = none := by
  unfold Loop.closeConsumer
  cases hc : s.consumer with
  | none => exact hc
  | some c => rfl

theorem frame_closeConsumer : s.closeConsumer.abandoned = s.abandoned ∧ s.closeConsumer.state = s.state ∧
    s.closeConsumer.last = s.last ∧ s.closeConsumer.tail = s.tail := by
  unfold Loop.closeConsumer
  cases s.consumer <;> exact ⟨rfl, rfl, rfl, rfl⟩

theorem labelled_step {a : Action F Schema} (hI : Labelled s)
    (h : step I reader describe topic s a = some s') : Labelled s' := by
  have hstep := stepped h
  clear h
  cases hstep with
  | attach hpc hc =>
    simp only [Labelled, hpc] at hI
    exact hI.1
  | poll hpc hc =>
    simp only [Labelled, hpc, hc] at hI
    rcases hI with ⟨hab, hfirst | hok | hfailed⟩
    · cases hfirst.2
    · exact ⟨hab, by simp [hc], hok.2.2⟩
    · cases hfailed.2
  | running hpc h =>
    simp only [Labelled, hpc] at hI
    exact (attachStep_frame h).2.1.trans hI
  | attached hpc h =>
    simp only [Labelled, hpc] at hI
    obtain ⟨-, hab, -, -, hstored⟩ := attachStep_frame h
    exact ⟨hab.trans hI, hstored rfl⟩
  | @attachRaised stage _ _ _ hpc h =>
    simp only [Labelled, hpc] at hI
    refine ⟨(attachStep_frame h).2.1.trans hI, rfl, ?_⟩
    cases stage with
    | closeUnused c => exact .inl rfl
    | _ => exact .inr rfl
  | @abandoned stage call p s₁ hab h =>
    have hpc₁ := (attachStep_frame h).1
    rcases hI.ending hab with hpc | hpc <;> simp only [Labelled, hpc₁.trans hpc]
  | polled hpc hc h =>
    simp only [Labelled, hpc] at hI
    exact ⟨hI.1, Option.some_ne_none _, hI.2.2⟩
  | pollRaised hpc =>
    simp only [Labelled, hpc] at hI
    exact ⟨hI.1, rfl, .inr rfl⟩
  | decoded hpc h =>
    simp only [Labelled, hpc] at hI
    exact hI
  | decodeRaised hpc h =>
    simp only [Labelled, hpc] at hI
    exact ⟨hI.1, rfl, .inr rfl⟩
  | ingested hpc =>
    simp only [Labelled, hpc] at hI
    exact ⟨hI.1, .inr (.inl ⟨rfl, hI.2⟩)⟩
  | closed hpc =>
    simp only [Labelled, hpc] at hI
    obtain ⟨hab, hstate, hlast, -⟩ := frame_closeConsumer (s := s)
    refine ⟨hab.trans hI.1, ?_, consumer_closeConsumer⟩
    simpa only [Failed, hstate, hlast] using hI.2
  | slept hpc =>
    simp only [Labelled, hpc] at hI
    exact ⟨hI.1, .inr (.inr hI.2)⟩
  | _ => trivial

/-- In every run, whenever the state can be read between two attempts, it is the
truth unless the last attempt found the topic without partitions. -/
theorem truthful_iff (as : List (Action F Schema)) :
    Always (step I reader describe topic)
      (fun s : Loop F Schema size => Observed s → (Truthful s ↔ s.last ≠ some .noTopic)) init as :=
  always_of_inv (fun _ _ _ => labelled_step) (fun _ => Labelled.truthful_here) labelled_init as

/-- While there is no topic the state is `error`. -/
theorem waiting_reads_error : ¬ ∀ as, Always asciiStep (fun s => Observed s → Truthful s) init as := by
  intro h
  obtain ⟨s, hs, hpc, hlast, hstate⟩ : ∃ s, exec asciiStep init
      [.loop, .attach .constructed, .attach (.partitions []), .attach .closed, .close] = some s ∧
      s.pc = .sleep ∧ s.last = some .noTopic ∧ s.state = .error := ⟨_, rfl, rfl, rfl, rfl⟩
  have htrue := (h _).last hs ⟨.inr hpc, by simp [hlast]⟩
  cases hstate.symm.trans (htrue.waiting.2 hlast)

/-! ## What the buffer holds -/

/-- No two records are of the same offset, and those of a partition are in the
order of their offsets. -/
structure Ordered (records : List (Record F)) : Prop where
  distinct : (records.map fun r => (r.partition, r.offset)).Nodup
  increasing : ∀ a ∈ records, ∀ b ∈ records, a.partition = b.partition → a.seq < b.seq → a.offset < b.offset

/-- The attach goes back to no offset that the buffer has reached. -/
def SeeksAhead (s : Loop F Schema size) : Action F Schema → Prop
  | .attach (.begins begins) => ∀ c ps ends, s.pc = .attach (.beginningOffsets c ps ends) →
    ∀ tp ∈ ps, ∀ r ∈ s.tail.buffer.items, r.partition = tp → r.offset < seekTo size ps ends begins tp
  | _ => True

/-- Partitions and offsets. -/
abbrev Places := List (Nat × Nat)

def Increasing (ps : Places) : Prop := ps.Pairwise fun a b => a.1 = b.1 → a.2 < b.2

/-- A partition is read from beyond these. -/
def Below (ps : Places) (tp pos : Nat) : Prop := ∀ x ∈ ps, x.1 = tp → x.2 < pos

def Consumer.Above (c : Consumer) (ps : Places) : Prop := ∀ tp pos, c.position tp = some pos → Below ps tp pos

theorem Consumer.Above.mono {c : Consumer} {ps ps' : Places} (h : c.Above ps) (hsub : ps' ⊆ ps) : c.Above ps' :=
  fun tp pos hpos x hx => h tp pos hpos x (hsub hx)

theorem Consumer.Above.seek {c : Consumer} {ps : Places} (h : c.Above ps) {tp pos : Nat} (hpos : Below ps tp pos) :
    (c.seek tp pos).Above ps := by
  intro tp' pos' hpos'
  by_cases htp : tp' = tp
  · subst htp
    simp only [Consumer.seek, Function.update_self, Option.some.injEq] at hpos'
    exact hpos' ▸ hpos
  · simp only [Consumer.seek, Function.update_of_ne htp] at hpos'
    exact h tp' pos' hpos'

def place (m : Message) : Nat × Nat := (m.partition, m.offset)

/-- A poll moves the consumer past what it returns. -/
theorem above_past {c : Consumer} {ps : Places} {messages : List Message} (h : c.Above ps)
    (hinc : Increasing (ps ++ messages.map place)) : (c.past messages).Above (ps ++ messages.map place) := by
  induction messages generalizing c ps with
  | nil => rwa [List.map_nil, List.append_nil]
  | cons m messages ih =>
    rw [List.map_cons, List.append_cons] at hinc ⊢
    refine ih ?_ hinc
    have hm := (List.pairwise_append.1 (List.pairwise_append.1 hinc).1).2.2
    intro tp pos hpos x hx htp
    rcases List.mem_append.1 hx with hx | hx
    · refine h.seek (fun y hy hyp => ?_) tp pos hpos x hx htp
      exact Nat.lt_succ_of_lt (hm y hy (place m) (List.mem_singleton_self _) hyp)
    · cases List.mem_singleton.1 hx
      obtain rfl : m.partition = tp := htp
      simp only [Consumer.seek, Function.update_self, Option.some.injEq] at hpos
      exact hpos ▸ Nat.lt_succ_self _

/-- What a poll returns goes on from what the consumer is above. -/
theorem Consumer.Delivers.increasing {c : Consumer} {ps : Places} {messages : List Message}
    (hd : c.Delivers messages) (h : c.Above ps) (hps : Increasing ps) : Increasing (ps ++ messages.map place) := by
  refine List.pairwise_append.2 ⟨hps, List.pairwise_map.2 hd.1, ?_⟩
  intro x hx y hy hxy
  obtain ⟨m, hm, rfl⟩ := List.mem_map.1 hy
  obtain ⟨pos, hpos, hle⟩ := (Option.any_eq_true _ _).1 (hd.2 m hm)
  exact (h _ pos hpos x hx hxy).trans_le (of_decide_eq_true hle)

theorem decode_numbered {t t' : Tail F Schema size} {m : Message} {answer : Answer F Schema}
    {r : Except Exn (Record F)} (h : decode I reader t m answer = (t', r)) :
    t'.seq = t.seq + 1 ∧ t'.buffer = t.buffer ∧
      ∀ record, r = .ok record → record.seq = t.seq + 1 ∧ (record.partition, record.offset) = place m := by
  have hfailed {t₁ : Tail F Schema size} {record : Record F} {fault : Fault} (hdecode : (failed t₁ record fault) = (t', r))
      (hseq : t₁.seq = t.seq + 1) (hbuffer : t₁.buffer = t.buffer)
      (hrecord : record.seq = t.seq + 1 ∧ (record.partition, record.offset) = place m) :
      t'.seq = t.seq + 1 ∧ t'.buffer = t.buffer ∧
        ∀ record, r = .ok record → record.seq = t.seq + 1 ∧ (record.partition, record.offset) = place m := by
    cases hdecode
    refine ⟨hseq, hbuffer, fun _ hok => ?_⟩
    cases hok
    exact hrecord
  unfold decode at h
  dsimp only at h
  split at h
  · exact hfailed h rfl rfl ⟨rfl, rfl⟩
  · rename_i id body _
    obtain ⟨schemas, hschema⟩ := schema_seq t (t.seq + 1) id answer.fetched
    rw [hschema] at h
    split at h
    · rename_i heq
      obtain ⟨rfl, -⟩ := Prod.mk.inj heq
      exact hfailed h rfl rfl ⟨rfl, rfl⟩
    · rename_i heq
      obtain ⟨rfl, -⟩ := Prod.mk.inj heq
      split at h
      · exact hfailed h rfl rfl ⟨rfl, rfl⟩
      · split at h
        · cases h
          exact ⟨rfl, rfl, fun _ hok => by cases hok⟩
        · rename_i hfinish
          cases h
          refine ⟨rfl, rfl, fun _ hok => ?_⟩
          cases hok
          obtain ⟨hseq, hpartition, hoffset, -⟩ := finish_frame hfinish
          exact ⟨hseq, Prod.ext hpartition hoffset⟩

/-- The messages of the poll that are not in the buffer yet. -/
def Pc.pending : Pc → List Message
  | .ingest messages => messages
  | _ => []

/-- What is in the buffer, and what goes there. -/
def Loop.places (s : Loop F Schema size) : Places :=
  s.tail.buffer.items.map (fun r => (r.partition, r.offset)) ++ s.pc.pending.map place

/-- The consumer that will be polled is above the buffer, and so is the one of an
attach, which has some partitions yet to seek. -/
def Stage.Placed (size : Nat) (ps : Places) : Stage → Prop
  | .construct => True
  | .partitionsForTopic c | .closeUnused c | .assign c _ | .endOffsets c _ | .beginningOffsets c _ _ => c.Above ps
  | .seek c assignment ends begins tp rest =>
    c.Above ps ∧ ∀ p ∈ tp :: rest, Below ps p (seekTo size assignment ends begins p)

structure Numbered (t : Tail F Schema size) : Prop where
  sorted : t.buffer.items.Pairwise (·.seq < ·.seq)
  bounded : ∀ r ∈ t.buffer.items, r.seq ≤ t.seq

/-- The consumer that will be polled reads on from there. -/
def ReadsOn (s : Loop F Schema size) (ps : Places) : Prop :=
  match s.pc with
  | .attach stage => stage.Placed size ps
  | .top | .poll | .ingest _ => ∀ c, s.consumer = some c → c.Above ps
  | _ => True

structure InStep (s : Loop F Schema size) : Prop where
  labelled : Labelled s
  numbered : Numbered s.tail
  increasing : Increasing s.places
  above : ReadsOn s s.places

theorem InStep.ordered (h : InStep s) : Ordered s.tail.buffer.items := by
  have hinc : s.tail.buffer.items.Pairwise fun a b => a.partition = b.partition → a.offset < b.offset :=
    List.pairwise_map.1 (List.pairwise_append.1 h.increasing).1
  constructor
  · refine List.pairwise_map.2 (hinc.imp fun hlt heq => ?_)
    obtain ⟨hp, ho⟩ := Prod.mk.inj heq
    exact absurd (hlt hp) (ho ▸ lt_irrefl _)
  · -- Of two records the one with the lower number comes first.
    refine List.Pairwise.forall_of_forall_of_flip (fun r _ _ h => absurd h (lt_irrefl _))
      (hinc.imp fun hlt hp _ => hlt hp) (h.numbered.sorted.imp fun hseq _ hgt => ?_)
    exact absurd hgt hseq.asymm

theorem nextStage_placed {stage next : Stage} {call : Call} {ps : Places} (h : nextStage size stage call = some next)
    (hI : stage.Placed size ps)
    (hbegins : ∀ c assignment ends begins, stage = .beginningOffsets c assignment ends → call = .begins begins →
      ∀ tp ∈ assignment, Below ps tp (seekTo size assignment ends begins tp)) : next.Placed size ps := by
  unfold nextStage at h
  split at h
  · split at h
    · cases h
      exact hI
    · split at h
      · cases h
        exact hI
      · cases h
  · cases h
    exact hI
  · cases h
    exact hI
  · cases h
    exact ⟨hI, hbegins _ _ _ _ rfl rfl⟩
  · cases h
    obtain ⟨hc, hbelow⟩ := hI
    exact ⟨hc.seek (hbelow _ List.mem_cons_self), fun p hp => hbelow p (List.mem_cons_of_mem _ hp)⟩
  · cases h

/-- The consumer of an attach stays above what is there. -/
theorem attachStep_placed {stage : Stage} {call : Call} {p : Progress} {ps : Places}
    (h : attachStep topic s stage call = some (s', p)) (hI : stage.Placed size ps)
    (hbegins : ∀ c assignment ends begins, stage = .beginningOffsets c assignment ends → call = .begins begins →
      ∀ tp ∈ assignment, Below ps tp (seekTo size assignment ends begins tp)) :
    match p with
    | .running next => next.Placed size ps
    | .returned => ∀ c, s'.consumer = some c → c.Above ps
    | .raised _ => True := by
  obtain ⟨rfl, rfl, rfl, rfl⟩ | ⟨c, fault, rfl, ⟨state, rfl⟩, rfl⟩ | ⟨fault, rfl, hfailed, rfl, rfl⟩ |
    ⟨c, assignment, ends, begins, tp, rfl, rfl, rfl, rfl⟩ | ⟨next, hnext, rfl, rfl⟩ := attachStep_cases h
  · intro tp pos hpos
    cases hpos
  · trivial
  · trivial
  · intro c' hc'
    cases hc'
    exact hI.1.seek (hI.2 _ List.mem_cons_self)
  · exact nextStage_placed hnext hI hbegins

theorem inStep_init : InStep (init : Loop F Schema size) where
  labelled := labelled_init
  numbered := ⟨.nil, fun r hr => absurd hr List.not_mem_nil⟩
  increasing := .nil
  above := fun _ hc => by cases hc

/-- What a step keeps that adds nothing to the buffer. -/
theorem InStep.keep (hI : InStep s) (hlabelled : Labelled s') (hbuffer : s'.tail.buffer = s.tail.buffer)
    (hseq : s.tail.seq ≤ s'.tail.seq) (hpending : s'.pc.pending.Sublist s.pc.pending)
    (habove : s'.places ⊆ s.places → ReadsOn s' s'.places) : InStep s' := by
  have hplaces : s'.places.Sublist s.places := by
    unfold Loop.places
    rw [hbuffer]
    exact (hpending.map place).append_left _
  refine ⟨hlabelled, ?_, hI.increasing.sublist hplaces, habove hplaces.subset⟩
  constructor
  · rw [hbuffer]
    exact hI.numbered.sorted
  · rw [hbuffer]
    exact fun r hr => (hI.numbered.bounded r hr).trans hseq

theorem Stage.Placed.mono {stage : Stage} {ps ps' : Places} (h : stage.Placed size ps) (hsub : ps' ⊆ ps) :
    stage.Placed size ps' := by
  cases stage with
  | construct => trivial
  | seek c assignment ends begins tp rest =>
    exact ⟨h.1.mono hsub, fun p hp x hx => h.2 p hp x (hsub hx)⟩
  | _ => exact Consumer.Above.mono h hsub

theorem places_of_pending (h : s.pc.pending = []) :
    s.places = s.tail.buffer.items.map fun r => (r.partition, r.offset) := by
  rw [Loop.places, h, List.map_nil, List.append_nil]

theorem below_of_seeksAhead {stage : Stage} {call : Call} (hC : SeeksAhead s (.attach call))
    (hpc : s.pc = .attach stage) : ∀ c assignment ends begins, stage = .beginningOffsets c assignment ends →
      call = .begins begins → ∀ tp ∈ assignment, Below s.places tp (seekTo size assignment ends begins tp) := by
  rintro c assignment ends begins rfl rfl tp htp x hx hxp
  rw [places_of_pending (by rw [hpc]; rfl)] at hx
  obtain ⟨r, hr, rfl⟩ := List.mem_map.1 hx
  exact hC c assignment ends hpc tp htp r hr hxp

theorem inStep_step {a : Action F Schema} (hI : InStep s) (hC : SeeksAhead s a)
    (h : step I reader describe topic s a = some s') : InStep s' := by
  have hlabelled := labelled_step hI.labelled h
  have habove := hI.above
  have hstep := stepped h
  clear h
  cases hstep with
  | attach hpc hc => exact hI.keep hlabelled rfl le_rfl (List.nil_sublist _) fun _ => trivial
  | poll hpc hc =>
    simp only [ReadsOn, hpc] at habove
    exact hI.keep hlabelled rfl le_rfl (List.nil_sublist _) fun hsub c hc => (habove c hc).mono hsub
  | @running stage next call _ hpc h =>
    simp only [ReadsOn, hpc] at habove
    obtain ⟨-, -, hbuffer, hseq, -⟩ := attachStep_frame h
    have hnext := attachStep_placed h habove (below_of_seeksAhead hC hpc)
    exact hI.keep hlabelled hbuffer hseq.ge (List.nil_sublist _) fun hsub => hnext.mono hsub
  | @attached stage call _ hpc h =>
    simp only [ReadsOn, hpc] at habove
    obtain ⟨-, -, hbuffer, hseq, -⟩ := attachStep_frame h
    have hstored := attachStep_placed h habove (below_of_seeksAhead hC hpc)
    exact hI.keep hlabelled hbuffer hseq.ge (List.nil_sublist _) fun hsub c hc => (hstored c hc).mono hsub
  | attachRaised hpc h =>
    obtain ⟨-, -, hbuffer, hseq, -⟩ := attachStep_frame h
    exact hI.keep hlabelled hbuffer hseq.ge (List.nil_sublist _) fun _ => trivial
  | @abandoned stage call p s₁ hab h =>
    obtain ⟨hpc₁, -, hbuffer, hseq, -⟩ := attachStep_frame h
    refine hI.keep hlabelled hbuffer hseq.ge (by simp only [hpc₁]; exact List.Sublist.refl _) fun _ => ?_
    rcases hI.labelled.ending hab with hpc | hpc <;> simp only [ReadsOn, hpc₁.trans hpc]
  | @polled c messages hpc hc hd =>
    simp only [ReadsOn, hpc] at habove
    have hplaces := places_of_pending (s := s) (by rw [hpc]; rfl)
    have hinc := hI.increasing
    have hc := habove c hc
    rw [hplaces] at hinc hc
    have hinc' := hd.increasing hc hinc
    refine ⟨hlabelled, hI.numbered, hinc', fun c' hc' => ?_⟩
    cases hc'
    exact above_past hc hinc'
  | pollRaised hpc => exact hI.keep hlabelled rfl le_rfl (List.nil_sublist _) fun _ => trivial
  | @decoded m messages answer t record hpc h =>
    simp only [ReadsOn, hpc] at habove
    obtain ⟨hseq, hbuffer, hrecord⟩ := decode_numbered h
    obtain ⟨hnumber, hplace⟩ := hrecord record rfl
    have hitems : (t.buffer.append record).items.Sublist (s.tail.buffer.items ++ [record]) :=
      hbuffer ▸ (Deque.items_append _ _).sublist
    have hsub : Loop.places { s with tail := { t with buffer := t.buffer.append record }, pc := .ingest messages }
        |>.Sublist s.places := by
      have hs : s.places = (s.tail.buffer.items ++ [record]).map (fun r => (r.partition, r.offset)) ++
          messages.map place := by
        simp [Loop.places, Pc.pending, hpc, hplace]
      exact hs ▸ (hitems.map _).append_right _
    refine ⟨hlabelled, ⟨?_, fun r hr => ?_⟩, hI.increasing.sublist hsub, fun c hc => (habove c hc).mono hsub.subset⟩
    · refine .sublist hitems (List.pairwise_append.2 ⟨hI.numbered.sorted, List.pairwise_singleton _ _, ?_⟩)
      intro r hr r' hr'
      rw [List.mem_singleton.1 hr', hnumber]
      exact Nat.lt_succ_of_le (hI.numbered.bounded r hr)
    · show r.seq ≤ t.seq
      rw [hseq]
      rcases List.mem_append.1 (hitems.subset hr) with hr | hr
      · exact (hI.numbered.bounded r hr).trans (Nat.le_succ _)
      · rw [List.mem_singleton.1 hr, hnumber]
  | decodeRaised hpc h =>
    obtain ⟨hseq, hbuffer, -⟩ := decode_numbered h
    exact hI.keep hlabelled hbuffer (hseq.ge.trans' (Nat.le_succ _)) (List.nil_sublist _) fun _ => trivial
  | ingested hpc =>
    simp only [ReadsOn, hpc] at habove
    exact hI.keep hlabelled rfl le_rfl (List.nil_sublist _) fun hsub c hc => (habove c hc).mono hsub
  | closed hpc =>
    have hframe := frame_closeConsumer (s := s)
    exact hI.keep hlabelled (congrArg _ hframe.2.2.2) (congrArg Tail.seq hframe.2.2.2).ge (List.nil_sublist _) fun _ => trivial
  | ended hpc =>
    have hframe := frame_closeConsumer (s := s)
    exact hI.keep hlabelled (congrArg _ hframe.2.2.2) (congrArg Tail.seq hframe.2.2.2).ge (List.nil_sublist _) fun _ => trivial
  | slept hpc =>
    have hlab := hI.labelled
    simp only [Labelled, hpc] at hlab
    refine hI.keep hlabelled rfl le_rfl (List.nil_sublist _) fun _ c hc => ?_
    cases hlab.2.2.symm.trans hc
  | cancelClose hpc =>
    have hframe := frame_closeConsumer (s := s)
    exact hI.keep hlabelled (congrArg _ hframe.2.2.2) (congrArg Tail.seq hframe.2.2.2).ge (List.nil_sublist _) fun _ => trivial
  | _ => exact hI.keep hlabelled rfl le_rfl (List.nil_sublist _) fun _ => trivial

/-- In every run whose attaches go back to no offset that the buffer has reached,
the buffer is in order. -/
theorem buffer_ordered {as : List (Action F Schema)}
    (h : Each (step I reader describe topic) SeeksAhead (init : Loop F Schema size) as) :
    Always (step I reader describe topic) (fun s : Loop F Schema size => Ordered s.tail.buffer.items) init as :=
  always_of_each (fun _ _ _ => inStep_step) (fun _ => InStep.ordered) inStep_init h

/-- A record without a value. -/
def tombstone (offset : Nat) : Message := ⟨"cdc".toList, 0, offset, none, none, some 1⟩

/-- The tail attaches to a topic of so many records, and reads one of them. -/
def reads (ends offset : Nat) : List (Action Unit Unit) :=
  [.loop, .attach .constructed, .attach (.partitions [0]), .attach .assigned, .attach (.ends fun _ => ends),
    .attach (.begins fun _ => 0), .attach .sought, .polled [tombstone offset], .decode ⟨.ok (), ()⟩, .ingested]

/-- A poll fails once the record is read. By the next attach there are fifty more, and it seeks to the first of
them. -/
theorem buffer_ordered_again : Always asciiStep (fun s => Ordered s.tail.buffer.items) init
    (reads 1 0 ++ [.loop, .pollRaised timeout, .close, .slept] ++ reads 51 1) := by
  apply buffer_ordered
  refine .of_step rfl trivial <| .of_step rfl trivial <| .of_step rfl trivial <| .of_step rfl trivial <|
    .of_step rfl trivial <| .of_step rfl ?_ <| .of_step rfl trivial <| .of_step rfl trivial <| .of_step rfl trivial <|
    .of_step rfl trivial <| .of_step rfl trivial <| .of_step rfl trivial <| .of_step rfl trivial <|
    .of_step rfl trivial <| .of_step rfl trivial <| .of_step rfl trivial <| .of_step rfl trivial <|
    .of_step rfl trivial <| .of_step rfl trivial <| .of_step rfl ?_ <| .of_step rfl trivial <| .of_step rfl trivial <|
    .of_step rfl trivial <| .of_step rfl trivial trivial
  · intro c ps ends _ tp _ r hr
    cases hr
  · intro c ps ends hpc tp _ r hr _
    cases hpc
    obtain rfl := List.mem_singleton.1 hr
    show 0 < seekTo 50 [0] (fun _ => 51) (fun _ => 0) tp
    exact Nat.one_pos

/-- A poll that fails, and everything again: the record is there twice. -/
theorem replay_duplicates : ¬ ∀ as, Always asciiStep (fun s => Ordered s.tail.buffer.items) init as := by
  intro h
  obtain ⟨s, hs, hbuffer⟩ : ∃ s, exec asciiStep init (reads 1 0 ++ [.loop, .pollRaised timeout, .close, .slept] ++ reads 1 0) =
      some s ∧ s.tail.buffer.items.map (fun r => (r.partition, r.offset)) = [(0, 0), (0, 0)] := ⟨_, rfl, rfl⟩
  have hdistinct := ((h _).last hs).distinct
  rw [hbuffer] at hdistinct
  exact absurd hdistinct (by decide)

end HtapStack.TailLoop
