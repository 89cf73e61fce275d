import HtapStack.Lib.Runs
import Mathlib.Algebra.Ring.Nat
import Mathlib.Logic.Function.Basic
/-!
# The sink's poll loop

`main` of `ingress/consumer/consumer.py`, from the `KafkaConsumer` on: poll a
batch, issue three writes per record, wait for all of them, commit, count. The
world around it is the events topic, the group's committed offsets and the
writes Cassandra has acknowledged.

An `Action` carries what the loop does not decide: which records a poll returns,
which writes are acknowledged, whether a commit raises, where the process dies.
Assumed of kafka-python: `poll` returns records from the current position and
moves the position past them, `commit()` commits the current positions of every
partition, and a consumer that starts resumes from the committed offsets
(`auto_offset_reset="earliest"` where there is none).

Left out: what a record's writes contain, the zone cache and the printed totals.
-/

namespace HtapStack.Sink

/-- The topic's partition count, and `max(1, BATCH_SIZE)`. -/
structure Config where
  partitions : Nat
  batchSize : Nat

/-- The three writes of a record, by the prepared statement that makes each. -/
inductive Write where
  | insertRaw
  | insertHistory
  | upsertLatest
  deriving DecidableEq, Repr

/-- A record of the topic: Kafka's timestamp in milliseconds, and the time of
its event (from the `event_id` timeuuid) in microseconds since the epoch. -/
structure Record where
  timestamp : Int
  eventTime : Int
  deriving DecidableEq, Repr

/-- One partition's share of a poll: `count` records from offset `first` on. -/
structure Fetched where
  partition : Nat
  first : Nat
  count : Nat
  deriving DecidableEq, Repr

/-- What one `poll` returned (`records.items()`). -/
abbrev Batch := List Fetched

def Fetched.has (f : Fetched) (p o : Nat) : Bool :=
  f.partition == p && decide (f.first ≤ o) && decide (o < f.first + f.count)

/-- Record `o` of partition `p` is in the batch. -/
def Batch.has (b : Batch) (p o : Nat) : Bool := b.any (·.has p o)

/-- The loop's `buffered`: one for each message. -/
def Batch.buffered (b : Batch) : Nat := (b.map (·.count)).sum

/-- The loop's `pending`: three futures for each message, in the order issued. -/
def Batch.pending (b : Batch) : List (Nat × Nat × Write) :=
  b.flatMap fun f => (List.range f.count).flatMap fun i =>
    [.insertRaw, .insertHistory, .upsertLatest].map fun k => (f.partition, f.first + i, k)

/-- Where the loop stands. -/
inductive Phase where
  | polling
  | writing (b : Batch)
  | committing (b : Batch)
  | counting (buffered : Nat)
  deriving DecidableEq, Repr

/-- A running sink. `leftBehind` is history that the loop never reads: the
batches whose writes failed since this process started. -/
structure Consumer where
  position : Nat → Nat
  phase : Phase
  leftBehind : Batch

structure World where
  log : Nat → List Record
  committed : Nat → Option Nat
  acked : Nat → Nat → Write → Bool
  /-- Applied updates of `ingestion_counts`: half-hour bucket and amount. -/
  counts : List (Nat × Nat)
  consumer : Option Consumer

/-- An empty topic, a group that never committed, and no sink running yet. -/
def init : World := ⟨fun _ => [], fun _ => none, fun _ _ _ => false, [], none⟩

inductive Action where
  /-- The producer appends a record to a partition. -/
  | append (p : Nat) (r : Record)
  /-- A sink process starts and builds its consumer. -/
  | start
  /-- `consumer.poll` returns this many records of these partitions. -/
  | poll (records : List (Nat × Nat))
  /-- Every future of `pending` has resolved: these writes were acknowledged. -/
  | collect (acks : Nat → Nat → Write → Bool)
  | commit
  /-- `consumer.commit` raises, which ends the process; it may have taken effect. -/
  | commitRaises (applied : Bool)
  /-- The `count_ingested` update is sent and not waited for. -/
  | count (bucket : Nat) (applied : Bool)
  /-- The process dies, with these writes of the batch in flight acknowledged. -/
  | die (acks : Nat → Nat → Write → Bool)

/-- What `poll` may return: a dict from partitions to records that are there,
`max_records` at most. -/
def Pollable (cfg : Config) (w : World) (c : Consumer) (records : List (Nat × Nat)) : Prop :=
  (records.map Prod.fst).Nodup ∧ (records.map Prod.snd).sum ≤ cfg.batchSize ∧
    ∀ r ∈ records, r.1 < cfg.partitions ∧ 0 < r.2 ∧ c.position r.1 + r.2 ≤ (w.log r.1).length

instance (cfg : Config) (w : World) (c : Consumer) (records : List (Nat × Nat)) :
    Decidable (Pollable cfg w c records) := by unfold Pollable; infer_instance

/-- The batch of a poll that returns `records` from the positions `position`. -/
def fetch (position : Nat → Nat) (records : List (Nat × Nat)) : Batch :=
  records.map fun r => ⟨r.1, position r.1, r.2⟩

def advance (position : Nat → Nat) (records : List (Nat × Nat)) (p : Nat) : Nat :=
  position p + (records.lookup p).getD 0

/-- The consumer once `poll` has returned `records`: its position is past them. -/
def Consumer.polled (c : Consumer) (records : List (Nat × Nat)) : Consumer :=
  { c with position := advance c.position records, phase := .writing (fetch c.position records) }

/-- The consumer once a write of `b` has failed: `continue`, and nothing else. -/
def Consumer.failed (c : Consumer) (b : Batch) : Consumer :=
  { c with phase := .polling, leftBehind := b ++ c.leftBehind }

/-- The acknowledged writes, once those of the batch that `acks` lists are in. -/
def World.acknowledge (w : World) (b : Batch) (acks : Nat → Nat → Write → Bool) : World :=
  { w with acked := fun p o k => w.acked p o k || (b.has p o && acks p o k) }

/-- `commit()` with no arguments: the position of every partition. -/
def World.commitAll (cfg : Config) (w : World) (c : Consumer) : World :=
  { w with committed := fun p => if p < cfg.partitions then some (c.position p) else w.committed p }

/-- `if buffered:` send the counter update, which is applied or lost. -/
def World.countIngested (w : World) (bucket buffered : Nat) (applied : Bool) : World :=
  { w with counts := if applied && buffered != 0 then (bucket, buffered) :: w.counts else w.counts }

def step (cfg : Config) (w : World) : Action → Option World
  | .append p r =>
    if p < cfg.partitions then some { w with log := Function.update w.log p (w.log p ++ [r]) } else none
  | .start =>
    match w.consumer with
    | some _ => none
    | none => some { w with consumer := some ⟨fun p => (w.committed p).getD 0, .polling, []⟩ }
  | .poll records => w.consumer.bind fun c =>
    if c.phase = .polling ∧ Pollable cfg w c records then
      -- `if not records: continue`
      if records = [] then some w
      else some { w with consumer := some (c.polled records) }
    else none
  | .collect acks => w.consumer.bind fun c =>
    match c.phase with
    | .writing b =>
      if b.pending.all fun x => acks x.1 x.2.1 x.2.2 then
        some { w.acknowledge b acks with consumer := some { c with phase := .committing b } }
      else
        -- A future raised: the offsets stay, and so does the position.
        some { w.acknowledge b acks with consumer := some (c.failed b) }
    | _ => none
  | .commit => w.consumer.bind fun c =>
    match c.phase with
    | .committing b => some { w.commitAll cfg c with consumer := some { c with phase := .counting b.buffered } }
    | _ => none
  | .commitRaises applied => w.consumer.bind fun c =>
    match c.phase with
    | .committing _ => some { (if applied then w.commitAll cfg c else w) with consumer := none }
    | _ => none
  | .count bucket applied => w.consumer.bind fun c =>
    match c.phase with
    | .counting n =>
      some { w.countIngested bucket n applied with consumer := some { c with phase := .polling } }
    | _ => none
  | .die acks => w.consumer.bind fun c =>
    match c.phase with
    | .writing b => some { w.acknowledge b acks with consumer := none }
    | _ => some { w with consumer := none }

/-! ## Batches -/

theorem Batch.has_iff {b : Batch} {p o : Nat} :
    b.has p o = true ↔ ∃ f ∈ b, f.partition = p ∧ f.first ≤ o ∧ o < f.first + f.count := by
  simp [Batch.has, Fetched.has, List.any_eq_true, and_assoc]

@[simp] theorem Batch.has_append (b b' : Batch) (p o : Nat) :
    Batch.has (b ++ b') p o = (b.has p o || Batch.has b' p o) := by
  simp [Batch.has]

theorem lookup_of_mem {records : List (Nat × Nat)} (hn : (records.map Prod.fst).Nodup) {p n : Nat}
    (h : (p, n) ∈ records) : records.lookup p = some n := by
  induction records with
  | nil => cases h
  | cons r rs ih =>
    obtain ⟨q, m⟩ := r
    simp only [List.map_cons, List.nodup_cons] at hn
    rcases List.mem_cons.1 h with h | h
    · cases h; simp
    · have hne : p ≠ q := fun he => hn.1 (he ▸ List.mem_map_of_mem h)
      rw [List.lookup_cons, beq_false_of_ne hne]
      exact ih hn.2 h

theorem mem_of_lookup {records : List (Nat × Nat)} {p n : Nat} (h : records.lookup p = some n) :
    (p, n) ∈ records := by
  induction records with
  | nil => cases h
  | cons r rs ih =>
    obtain ⟨q, m⟩ := r
    rw [List.lookup_cons] at h
    by_cases hpq : p = q
    · subst hpq; simp at h; subst h; exact List.mem_cons_self
    · rw [beq_false_of_ne hpq] at h; exact List.mem_cons_of_mem _ (ih h)

/-- A poll's batch is exactly what the positions moved past. -/
theorem has_fetch_iff {position : Nat → Nat} {records : List (Nat × Nat)}
    (hn : (records.map Prod.fst).Nodup) {p o : Nat} :
    (fetch position records).has p o = true ↔ position p ≤ o ∧ o < advance position records p := by
  rw [Batch.has_iff, advance]
  constructor
  · rintro ⟨f, hf, rfl, hlo, hhi⟩
    obtain ⟨⟨q, n⟩, hr, rfl⟩ := List.mem_map.1 hf
    rw [lookup_of_mem hn hr]
    exact ⟨hlo, hhi⟩
  · rintro ⟨hlo, hhi⟩
    cases hl : records.lookup p with
    | none => simp [hl] at hhi; omega
    | some n =>
      rw [hl] at hhi
      exact ⟨⟨p, position p, n⟩, List.mem_map.2 ⟨_, mem_of_lookup hl, rfl⟩, rfl, hlo, hhi⟩

theorem mem_pending_iff {b : Batch} {p o : Nat} {k : Write} :
    (p, o, k) ∈ b.pending ↔ b.has p o = true := by
  rw [Batch.has_iff]
  simp only [Batch.pending, List.mem_flatMap, List.mem_range, List.mem_map, Prod.mk.injEq]
  constructor
  · rintro ⟨f, hf, i, hi, _, -, rfl, rfl, -⟩
    exact ⟨f, hf, rfl, by omega, by omega⟩
  · rintro ⟨f, hf, rfl, hlo, hhi⟩
    exact ⟨f, hf, o - f.first, by omega, k, by cases k <;> simp, rfl, by omega, rfl⟩

/-- Collecting a batch succeeds exactly when every write of it was acknowledged. -/
theorem pending_all_iff {b : Batch} {acks : Nat → Nat → Write → Bool} :
    (b.pending.all fun x => acks x.1 x.2.1 x.2.2) = true ↔
      ∀ p o k, b.has p o = true → acks p o k = true := by
  rw [List.all_eq_true]
  exact ⟨fun h p o k hb => h (p, o, k) (mem_pending_iff.2 hb),
    fun h x hx => h _ _ _ (mem_pending_iff.1 (show (x.1, x.2.1, x.2.2) ∈ b.pending from hx))⟩

/-! ## What a step does -/

/-- The effect of each action that can happen, with the guards it passed. -/
inductive Effect (cfg : Config) (w : World) : Action → World → Prop
  | append {p r} (hp : p < cfg.partitions) :
      Effect cfg w (.append p r) { w with log := Function.update w.log p (w.log p ++ [r]) }
  | start (hc : w.consumer = none) :
      Effect cfg w .start { w with consumer := some ⟨fun p => (w.committed p).getD 0, .polling, []⟩ }
  | pollEmpty {c} (hc : w.consumer = some c) (hp : c.phase = .polling) : Effect cfg w (.poll []) w
  | poll {c records} (hc : w.consumer = some c) (hp : c.phase = .polling)
      (hr : Pollable cfg w c records) (hne : records ≠ []) :
      Effect cfg w (.poll records) { w with consumer := some (c.polled records) }
  | collected {c b acks} (hc : w.consumer = some c) (hp : c.phase = .writing b)
      (hall : ∀ p o k, b.has p o = true → acks p o k = true) :
      Effect cfg w (.collect acks)
        { w.acknowledge b acks with consumer := some { c with phase := .committing b } }
  | failed {c b acks} (hc : w.consumer = some c) (hp : c.phase = .writing b)
      (hall : ¬ ∀ p o k, b.has p o = true → acks p o k = true) :
      Effect cfg w (.collect acks)
        { w.acknowledge b acks with consumer := some (c.failed b) }
  | commit {c b} (hc : w.consumer = some c) (hp : c.phase = .committing b) :
      Effect cfg w .commit
        { w.commitAll cfg c with consumer := some { c with phase := .counting b.buffered } }
  | commitRaises {c b applied} (hc : w.consumer = some c) (hp : c.phase = .committing b) :
      Effect cfg w (.commitRaises applied)
        { (if applied then w.commitAll cfg c else w) with consumer := none }
  | count {c n bucket applied} (hc : w.consumer = some c) (hp : c.phase = .counting n) :
      Effect cfg w (.count bucket applied)
        { w.countIngested bucket n applied with consumer := some { c with phase := .polling } }
  | dieWriting {c b acks} (hc : w.consumer = some c) (hp : c.phase = .writing b) :
      Effect cfg w (.die acks) { w.acknowledge b acks with consumer := none }
  | die {c acks} (hc : w.consumer = some c) (hp : ∀ b, c.phase ≠ .writing b) :
      Effect cfg w (.die acks) { w with consumer := none }

theorem step_effect {cfg : Config} {w w' : World} {a : Action} (h : step cfg w a = some w') :
    Effect cfg w a w' := by
  cases a with
  | append p r =>
    simp only [step] at h
    split at h
    · cases h; exact .append ‹_›
    · cases h
  | start =>
    simp only [step] at h
    split at h
    · cases h
    · cases h; exact .start ‹_›
  | poll records =>
    simp only [step, Option.bind_eq_some_iff] at h
    obtain ⟨c, hc, h⟩ := h
    split at h
    · rename_i hp
      split at h
      · subst_vars; cases h; exact .pollEmpty hc hp.1
      · cases h; exact .poll hc hp.1 hp.2 ‹_›
    · cases h
  | collect acks =>
    simp only [step, Option.bind_eq_some_iff] at h
    obtain ⟨c, hc, h⟩ := h
    split at h
    · rename_i b hp
      split at h
      · cases h; exact .collected hc hp (pending_all_iff.1 ‹_›)
      · cases h; exact .failed hc hp (fun hall => ‹¬ _› (pending_all_iff.2 hall))
    · cases h
  | commit =>
    simp only [step, Option.bind_eq_some_iff] at h
    obtain ⟨c, hc, h⟩ := h
    split at h
    · cases h; exact .commit hc ‹_›
    · cases h
  | commitRaises applied =>
    simp only [step, Option.bind_eq_some_iff] at h
    obtain ⟨c, hc, h⟩ := h
    split at h
    · cases h; exact .commitRaises hc ‹_›
    · cases h
  | count bucket applied =>
    simp only [step, Option.bind_eq_some_iff] at h
    obtain ⟨c, hc, h⟩ := h
    split at h
    · cases h; exact .count hc ‹_›
    · cases h
  | die acks =>
    simp only [step, Option.bind_eq_some_iff] at h
    obtain ⟨c, hc, h⟩ := h
    split at h
    · cases h; exact .dieWriting hc ‹_›
    · cases h; exact .die hc ‹_›

end HtapStack.Sink
