import HtapStack.Sink.Delivery
import Mathlib.Algebra.BigOperators.Group.Finset.Piecewise
import Mathlib.Algebra.Order.BigOperators.Group.Finset
import Mathlib.Data.Finset.Card
/-!
# The ingestion counts

The sink adds a batch to `ingestion_counts` once its offsets are committed, and
waits for nothing: an update may be lost, or come late.

`counted_once`: whatever fails and whenever the sink is restarted, no record
counts twice. All buckets together stay within the records whose offsets are
committed.
-/

namespace HtapStack.Sink
open Runs

/-- `record_count` of a bucket, after these updates. -/
def recordCount (updates : List (Nat × Nat)) (bucket : Nat) : Nat :=
  ((updates.filter (·.1 == bucket)).map Prod.snd).sum

/-- The records whose offset is committed: partition and offset. -/
def committedRecords (cfg : Config) (w : World) : Finset ((_ : Nat) × Nat) :=
  (Finset.range cfg.partitions).sigma fun p => Finset.range ((w.committed p).getD 0)

/-- The buckets add up to no more than what is committed, whichever updates have come so far. -/
def CountedOnce (cfg : Config) (w : World) : Prop :=
  ∀ updates, updates.Sublist w.counts → ∀ buckets : Finset Nat,
    ∑ bucket ∈ buckets, recordCount updates bucket ≤ (committedRecords cfg w).card

/-! ## Sums over buckets and partitions -/

theorem recordCount_cons (b n : Nat) (updates : List (Nat × Nat)) (bucket : Nat) :
    recordCount ((b, n) :: updates) bucket = (if b = bucket then n else 0) + recordCount updates bucket := by
  unfold recordCount
  by_cases h : b = bucket
  · simp [h]
  · simp [h, List.filter_cons_of_neg]

theorem sum_recordCount_le (updates : List (Nat × Nat)) (buckets : Finset Nat) :
    ∑ bucket ∈ buckets, recordCount updates bucket ≤ (updates.map Prod.snd).sum := by
  induction updates with
  | nil => simp [recordCount]
  | cons u updates ih =>
    obtain ⟨b, n⟩ := u
    have hone : ∑ bucket ∈ buckets, (if b = bucket then n else 0) ≤ n := by
      rw [Finset.sum_ite_eq]
      split <;> omega
    calc ∑ bucket ∈ buckets, recordCount ((b, n) :: updates) bucket
        = ∑ bucket ∈ buckets, (if b = bucket then n else 0) + ∑ bucket ∈ buckets, recordCount updates bucket := by
          simp only [recordCount_cons, Finset.sum_add_distrib]
      _ ≤ n + (updates.map Prod.snd).sum := Nat.add_le_add hone ih
      _ = (((b, n) :: updates).map Prod.snd).sum := by rw [List.map_cons, List.sum_cons]

theorem sum_le_of_sublist {updates all : List (Nat × Nat)} (h : updates.Sublist all) :
    (updates.map Prod.snd).sum ≤ (all.map Prod.snd).sum :=
  (h.map Prod.snd).sum_le_sum fun _ _ => Nat.zero_le _

/-- The offsets of all partitions. -/
def Config.total (cfg : Config) (offsets : Nat → Nat) : Nat := ∑ p ∈ Finset.range cfg.partitions, offsets p

theorem card_committedRecords (cfg : Config) (w : World) :
    (committedRecords cfg w).card = cfg.total fun p => (w.committed p).getD 0 := by
  simp [committedRecords, Config.total]

theorem sum_lookup {n : Nat} {records : List (Nat × Nat)} (hn : (records.map Prod.fst).Nodup)
    (hlt : ∀ r ∈ records, r.1 < n) :
    ∑ p ∈ Finset.range n, (records.lookup p).getD 0 = (records.map Prod.snd).sum := by
  induction records with
  | nil => simp
  | cons r records ih =>
    obtain ⟨q, m⟩ := r
    obtain ⟨hq, hn⟩ := List.nodup_cons.1 hn
    -- No other pair is about `q`.
    have hnone : records.lookup q = none := by
      rw [List.lookup_eq_none_iff]
      rintro ⟨q', m'⟩ hr
      refine bne_iff_ne.2 ?_
      rintro rfl
      exact hq (List.mem_map.2 ⟨_, hr, rfl⟩)
    have hsplit (p : Nat) : (((q, m) :: records).lookup p).getD 0 =
        (if q = p then m else 0) + (records.lookup p).getD 0 := by
      rw [List.lookup_cons]
      by_cases hp : q = p
      · subst hp
        simp [hnone]
      · simp [hp, beq_false_of_ne (Ne.symm hp)]
    have hmem : q ∈ Finset.range n := Finset.mem_range.2 (hlt _ List.mem_cons_self)
    simp only [hsplit, Finset.sum_add_distrib, Finset.sum_ite_eq, if_pos hmem, List.map_cons, List.sum_cons]
    rw [ih hn fun r hr => hlt r (List.mem_cons_of_mem _ hr)]

theorem buffered_fetch (position : Nat → Nat) (records : List (Nat × Nat)) :
    (fetch position records).buffered = (records.map Prod.snd).sum := by
  rw [Batch.buffered, fetch, List.map_map]
  rfl

/-! ## What is still to be counted -/

/-- Committed, and on its way to be counted. -/
def Phase.owed : Phase → Nat
  | .counting n => n
  | _ => 0

def World.owed (w : World) : Nat := (w.consumer.map (·.phase.owed)).getD 0

/-- What has been counted and what is owed fit into what is committed, and the batch in hand into what
the positions are ahead of it. -/
structure Fits (cfg : Config) (w : World) : Prop where
  counted : (w.counts.map Prod.snd).sum + w.owed ≤ cfg.total fun p => (w.committed p).getD 0
  inHand : ∀ c, w.consumer = some c →
    c.phase.batch.buffered + (cfg.total fun p => (w.committed p).getD 0) ≤ cfg.total c.position

variable {cfg : Config} {w w' : World} {c : Consumer}

theorem total_advance {records : List (Nat × Nat)} (hr : Pollable cfg w c records) :
    cfg.total (advance c.position records) = cfg.total c.position + (fetch c.position records).buffered := by
  rw [buffered_fetch, ← sum_lookup hr.1 fun r hm => (hr.2.2 r hm).1, Config.total, Config.total,
    ← Finset.sum_add_distrib]
  rfl

theorem total_commitAll (w : World) (c : Consumer) :
    (cfg.total fun p => ((w.commitAll cfg c).committed p).getD 0) = cfg.total c.position := by
  refine Finset.sum_congr rfl fun p hp => ?_
  simp [World.commitAll, Finset.mem_range.1 hp]

/-- A process that is gone owes nothing, and has nothing in hand. -/
theorem Fits.gone (h : (w.counts.map Prod.snd).sum ≤ cfg.total fun p => (w.committed p).getD 0) :
    Fits cfg { w with consumer := none } where
  counted := h
  inHand c hc := by cases hc

theorem Fits.counts_le (hF : Fits cfg w) :
    (w.counts.map Prod.snd).sum ≤ cfg.total fun p => (w.committed p).getD 0 :=
  (Nat.le_add_right _ _).trans hF.counted

/-- With no batch in hand the positions are no less than what is committed. -/
theorem Fits.free (hF : Fits cfg w) (hc : w.consumer = some c) :
    0 + (cfg.total fun p => (w.committed p).getD 0) ≤ cfg.total c.position :=
  (Nat.add_le_add_right (Nat.zero_le _) _).trans (hF.inHand c hc)

theorem sum_countIngested (w : World) (bucket n : Nat) (applied : Bool) :
    ((w.countIngested bucket n applied).counts.map Prod.snd).sum ≤ (w.counts.map Prod.snd).sum + n := by
  unfold World.countIngested
  dsimp only
  split
  · rw [List.map_cons, List.sum_cons, Nat.add_comm]
  · exact Nat.le_add_right _ _

theorem fits_step {a : Action} (hF : Fits cfg w) (h : step cfg w a = some w') : Fits cfg w' := by
  cases step_effect h with
  | append | pollEmpty => exact ⟨hF.counted, hF.inHand⟩
  | start hc =>
    refine ⟨hF.counts_le, ?_⟩
    rintro c ⟨⟩
    exact (Nat.zero_add _).le
  | poll hc hp hr hne =>
    refine ⟨hF.counts_le, ?_⟩
    rintro c' ⟨⟩
    have hhand := hF.inHand _ hc
    rw [hp] at hhand
    have := total_advance hr
    simp only [Consumer.polled, Phase.batch, Batch.buffered, List.map_nil, List.sum_nil] at hhand this ⊢
    omega
  | collected hc hp hall =>
    refine ⟨hF.counts_le, ?_⟩
    rintro c' ⟨⟩
    have hhand := hF.inHand _ hc
    rwa [hp] at hhand
  | failed hc hp hall =>
    refine ⟨hF.counts_le, ?_⟩
    rintro c' ⟨⟩
    have hfree := hF.free hc
    exact hfree
  | commit hc hp =>
    -- All that the batch holds is new among the committed offsets.
    have hhand := hF.inHand _ hc
    rw [hp] at hhand
    have hcounted := hF.counts_le
    constructor
    · rw [total_commitAll]
      simp only [World.owed, Option.map_some, Option.getD_some, Phase.owed]
      exact (Nat.add_comm _ _).trans_le ((Nat.add_le_add_left hcounted _).trans hhand)
    · rintro c' ⟨⟩
      rw [total_commitAll]
      exact (Nat.zero_add _).le
  | @commitRaises c b applied hc hp =>
    cases applied with
    | false => exact .gone hF.counts_le
    | true =>
      have hhand := hF.inHand _ hc
      refine .gone ?_
      rw [if_pos rfl, total_commitAll]
      exact hF.counts_le.trans ((Nat.le_add_left _ _).trans hhand)
  | @count c n bucket applied hc hp =>
    have hcounted := hF.counted
    rw [World.owed, hc] at hcounted
    simp only [Option.map_some, Option.getD_some, hp, Phase.owed] at hcounted
    refine ⟨(sum_countIngested w bucket n applied).trans hcounted, ?_⟩
    rintro c' ⟨⟩
    have hfree := hF.free hc
    exact hfree
  | dieWriting | die => exact .gone hF.counts_le

theorem fits_init (cfg : Config) : Fits cfg init where
  counted := Nat.zero_le _
  inHand c hc := by cases hc

theorem Fits.countedOnce (hF : Fits cfg w) : CountedOnce cfg w := by
  intro updates hsub buckets
  rw [card_committedRecords]
  calc ∑ bucket ∈ buckets, recordCount updates bucket
      ≤ (updates.map Prod.snd).sum := sum_recordCount_le updates buckets
    _ ≤ (w.counts.map Prod.snd).sum := sum_le_of_sublist hsub
    _ ≤ cfg.total fun p => (w.committed p).getD 0 := hF.counts_le

/-- The counts never run ahead of the committed offsets: in every run, with any writes, commits and
updates that fail and any restarts. -/
theorem counted_once (cfg : Config) (as : List Action) : Always (step cfg) (CountedOnce cfg) init as :=
  always_of_inv (fun _ _ _ hF h => fits_step hF h) (fun _ hF => hF.countedOnce) (fits_init cfg) as

end HtapStack.Sink
