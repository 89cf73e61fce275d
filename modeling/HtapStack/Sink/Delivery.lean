import HtapStack.Sink.PollLoop
/-!
# At-least-once delivery

A batch whose writes failed is logged with "will retry from the last commit",
but the loop only `continue`s: the consumer's position is already past the batch
and nothing seeks back. The next batch that succeeds commits the positions, and
with them the failed batch. So delivery holds along a run exactly when no commit
happens in a process that has left an unacknowledged record behind
(`commits_delivered_iff`); a process that is restarted after every failed batch
never does (`restarts_deliver`).
-/

namespace HtapStack.Sink
open Runs

/-- Every record below a committed offset has had its three writes acknowledged. -/
def Delivered (w : World) : Prop :=
  ∀ p o, w.committed p = some o → ∀ o' < o, ∀ k, w.acked p o' k = true

/-- A commit takes effect only when each record of the batches whose writes
failed in this process has, by then, had all its writes acknowledged (the
earlier process that polled it got that far). -/
def NothingLeftBehind (w : World) : Action → Prop
  | .commit | .commitRaises true =>
    ∀ c, w.consumer = some c → ∀ p o k, c.leftBehind.has p o = true → w.acked p o k = true
  | _ => True

/-- A poll returns records only to a process none of whose batches has failed. -/
def RestartsOnFailure (w : World) : Action → Prop
  | .poll records => records ≠ [] → ∀ c ∈ w.consumer, c.leftBehind = []
  | _ => True

instance (w : World) : ∀ a, Decidable (RestartsOnFailure w a)
  | .poll records => inferInstanceAs (Decidable (records ≠ [] → ∀ c ∈ w.consumer, c.leftBehind = []))
  | .append .. | .start | .collect _ | .commit | .commitRaises _ | .count .. | .die _ => isTrue trivial

/-! ## What the consumer has moved past -/

/-- The batch between its poll and its commit. -/
def Phase.batch : Phase → Batch
  | .writing b | .committing b => b
  | _ => []

/-- The offsets from the committed one up to the position are those of the batch
in hand and of the batches left behind. -/
structure Tracked (cfg : Config) (committed : Nat → Option Nat) (acked : Nat → Nat → Write → Bool)
    (c : Consumer) : Prop where
  committed_le : ∀ p, (committed p).getD 0 ≤ c.position p
  covered : ∀ p o, (committed p).getD 0 ≤ o → o < c.position p →
    c.phase.batch.has p o = true ∨ c.leftBehind.has p o = true
  inTopic : ∀ p o, c.phase.batch.has p o = true ∨ c.leftBehind.has p o = true →
    p < cfg.partitions ∧ o < c.position p
  collected : ∀ b, c.phase = .committing b → ∀ p o k, b.has p o = true → acked p o k = true
  /-- The batch in hand starts at or after the committed offsets. -/
  batch_le : ∀ p o, c.phase.batch.has p o = true → (committed p).getD 0 ≤ o

def Inv (cfg : Config) (w : World) : Prop :=
  ∀ c, w.consumer = some c → Tracked cfg w.committed w.acked c

theorem le_advance (position : Nat → Nat) (records : List (Nat × Nat)) (p : Nat) :
    position p ≤ advance position records p := Nat.le_add_right _ _

theorem tracked_start (cfg : Config) (w : World) :
    Tracked cfg w.committed w.acked ⟨fun p => (w.committed p).getD 0, .polling, []⟩ where
  committed_le p := Nat.le_refl _
  covered p o hlo hhi := absurd hhi (Nat.not_lt.2 hlo)
  inTopic p o h := by rcases h with h | h <;> cases h
  collected b hb := by cases hb
  batch_le p o h := by cases h

section
variable {cfg : Config} {w : World} {c : Consumer} {b : Batch}

theorem tracked_polled {records : List (Nat × Nat)} (ht : Tracked cfg w.committed w.acked c)
    (hp : c.phase = .polling) (hr : Pollable cfg w c records) :
    Tracked cfg w.committed w.acked (c.polled records) where
  committed_le p := Nat.le_trans (ht.committed_le p) (le_advance _ _ _)
  covered p o hlo hhi := by
    -- Below the old position nothing changed; from there on it is the new batch.
    by_cases ho : o < c.position p
    · rcases ht.covered p o hlo ho with h | h
      · rw [hp] at h; cases h
      · exact .inr h
    · exact .inl ((has_fetch_iff hr.1).2 ⟨Nat.not_lt.1 ho, hhi⟩)
  inTopic p o h := by
    rcases h with h | h
    · obtain ⟨f, hf, hfp, -, -⟩ := Batch.has_iff.1 h
      obtain ⟨r, hrm, rfl⟩ := List.mem_map.1 hf
      exact ⟨hfp ▸ (hr.2.2 r hrm).1, ((has_fetch_iff hr.1).1 h).2⟩
    · obtain ⟨hlt, ho⟩ := ht.inTopic p o (.inr h)
      exact ⟨hlt, Nat.lt_of_lt_of_le ho (le_advance _ _ _)⟩
  collected b hb := by cases hb
  batch_le p o h := Nat.le_trans (ht.committed_le p) ((has_fetch_iff hr.1).1 h).1

theorem tracked_failed {acks : Nat → Nat → Write → Bool} (ht : Tracked cfg w.committed w.acked c)
    (hp : c.phase = .writing b) :
    Tracked cfg (w.acknowledge b acks).committed (w.acknowledge b acks).acked (c.failed b) where
  committed_le := ht.committed_le
  covered p o hlo hhi := by
    right
    have := ht.covered p o hlo hhi
    rw [hp] at this
    simpa [Consumer.failed, Phase.batch] using this
  inTopic p o h := by
    refine ht.inTopic p o ?_
    rw [hp]
    rcases h with h | h
    · cases h
    · simpa [Consumer.failed, Phase.batch] using h
  collected b hb := by cases hb
  batch_le p o h := by cases h

theorem tracked_collected {acks : Nat → Nat → Write → Bool} (ht : Tracked cfg w.committed w.acked c)
    (hp : c.phase = .writing b) (hall : ∀ p o k, b.has p o = true → acks p o k = true) :
    Tracked cfg (w.acknowledge b acks).committed (w.acknowledge b acks).acked
      { c with phase := .committing b } where
  committed_le := ht.committed_le
  covered p o hlo hhi := by simpa [hp, Phase.batch] using ht.covered p o hlo hhi
  inTopic p o h := ht.inTopic p o (by simpa [hp, Phase.batch] using h)
  collected b' hb' p o k h := by
    cases hb'
    simp [World.acknowledge, h, hall p o k h]
  batch_le p o h := ht.batch_le p o (by simpa [hp, Phase.batch] using h)

theorem tracked_committed (ht : Tracked cfg w.committed w.acked c) :
    Tracked cfg (w.commitAll cfg c).committed w.acked { c with phase := .counting b.buffered } where
  committed_le p := by
    simp only [World.commitAll]
    split
    · exact Nat.le_refl _
    · exact ht.committed_le p
  covered p o hlo hhi := by
    simp only [World.commitAll] at hlo
    split at hlo
    · exact absurd hhi (Nat.not_lt.2 hlo)
    · -- Outside the topic nothing was ever polled.
      have := (ht.inTopic p o (ht.covered p o hlo hhi)).1
      contradiction
  inTopic p o h := by
    refine ht.inTopic p o (.inr ?_)
    rcases h with h | h
    · cases h
    · exact h
  collected b' hb' := by cases hb'
  batch_le p o h := by cases h

theorem tracked_counted {n : Nat} (ht : Tracked cfg w.committed w.acked c)
    (hp : c.phase = .counting n) : Tracked cfg w.committed w.acked { c with phase := .polling } where
  committed_le := ht.committed_le
  covered p o hlo hhi := by simpa [hp, Phase.batch] using ht.covered p o hlo hhi
  inTopic p o h := ht.inTopic p o (by simpa [hp, Phase.batch] using h)
  collected b hb := by cases hb
  batch_le p o h := by cases h

end

/-- Every step keeps track of what the consumer has moved past. -/
theorem inv_step {cfg : Config} {w w' : World} {a : Action} (hI : Inv cfg w)
    (h : step cfg w a = some w') : Inv cfg w' := by
  intro c' hc'
  cases step_effect h with
  | append => exact hI c' hc'
  | start => cases hc'; exact tracked_start cfg w
  | pollEmpty => exact hI c' hc'
  | poll hc hp hr => cases hc'; exact tracked_polled (hI _ hc) hp hr
  | collected hc hp hall => cases hc'; exact tracked_collected (hI _ hc) hp hall
  | failed hc hp => cases hc'; exact tracked_failed (hI _ hc) hp
  | commit hc => cases hc'; exact tracked_committed (hI _ hc)
  | count hc hp => cases hc'; exact tracked_counted (hI _ hc) hp
  | commitRaises | dieWriting | die => cases hc'

theorem inv_init (cfg : Config) : Inv cfg init := fun _ h => by cases h

/-! ## Delivery, step by step -/

/-- Acknowledgements are never taken back. -/
theorem acked_step {cfg : Config} {w w' : World} {a : Action} (h : step cfg w a = some w')
    {p o : Nat} {k : Write} (hk : w.acked p o k = true) : w'.acked p o k = true := by
  cases step_effect h with
  | collected | failed | dieWriting => simp [World.acknowledge, hk]
  | commitRaises => dsimp only; split <;> exact hk
  | _ => exact hk

/-- Only a commit that takes effect moves the committed offsets. -/
theorem committed_step {cfg : Config} {w w' : World} {a : Action} (h : step cfg w a = some w')
    (ha : a ≠ .commit) (har : a ≠ .commitRaises true) : w'.committed = w.committed := by
  cases step_effect h with
  | commit => exact absurd rfl ha
  | @commitRaises c b applied =>
    cases applied with
    | true => exact absurd rfl har
    | false => rfl
  | _ => rfl

/-- Committing the positions delivers exactly when nothing was left behind. -/
theorem delivered_commitAll {cfg : Config} {w : World} {c : Consumer} {b : Batch} (hd : Delivered w)
    (ht : Tracked cfg w.committed w.acked c) (hp : c.phase = .committing b) :
    (∀ p o, (w.commitAll cfg c).committed p = some o → ∀ o' < o, ∀ k, w.acked p o' k = true) ↔
      ∀ p o k, c.leftBehind.has p o = true → w.acked p o k = true := by
  constructor
  · intro h p o k hb
    obtain ⟨hlt, ho⟩ := ht.inTopic p o (.inr hb)
    exact h p (c.position p) (by simp [World.commitAll, hlt]) o ho k
  · intro h p o hpo o' ho' k
    simp only [World.commitAll] at hpo
    split at hpo
    · cases hpo
      -- Below the old offset the record was delivered before; from there on the
      -- position moved past it, so it was collected or left behind.
      by_cases hlo : (w.committed p).getD 0 ≤ o'
      · rcases ht.covered p o' hlo ho' with hb | hb
        · rw [hp] at hb; exact ht.collected b hp p o' k hb
        · exact h p o' k hb
      · cases hco : w.committed p with
        | none => simp [hco] at hlo
        | some o'' => exact hd p o'' hco o' (by simpa [hco] using hlo) k
    · exact hd p o hpo o' ho' k

theorem delivered_step {cfg : Config} {w w' : World} {a : Action} (hI : Inv cfg w) (hd : Delivered w)
    (h : step cfg w a = some w') : Delivered w' ↔ NothingLeftBehind w a := by
  have hsame (ha : a ≠ .commit) (har : a ≠ .commitRaises true) : Delivered w' := by
    intro p o hpo o' ho' k
    rw [committed_step h ha har] at hpo
    exact acked_step h (hd p o hpo o' ho' k)
  have hcommit {c b} (hc : w.consumer = some c) (hp : c.phase = .committing b) :
      (∀ p o, (w.commitAll cfg c).committed p = some o → ∀ o' < o, ∀ k, w.acked p o' k = true) ↔
        ∀ c, w.consumer = some c → ∀ p o k, c.leftBehind.has p o = true → w.acked p o k = true := by
    rw [delivered_commitAll hd (hI c hc) hp, hc]
    exact ⟨fun hb c' hc' => by cases hc'; exact hb, fun hb => hb c rfl⟩
  cases step_effect h with
  | commit hc hp => exact hcommit hc hp
  | @commitRaises c b applied hc hp =>
    cases applied with
    | true => exact hcommit hc hp
    | false => exact ⟨fun _ => trivial, fun _ => hsame nofun nofun⟩
  | _ => exact ⟨fun _ => trivial, fun _ => hsame nofun nofun⟩

/-! ## Delivery along a run -/

theorem delivered_init : Delivered init := fun _ _ h => by cases h

/-- A run keeps every record below a committed offset written exactly when no
commit of it takes effect over a record left behind unacknowledged. -/
theorem commits_delivered_iff (cfg : Config) (as : List Action) :
    Always (step cfg) Delivered init as ↔ Each (step cfg) NothingLeftBehind init as :=
  always_iff_each (fun _ _ _ hI _ h => inv_step hI h) (fun _ _ _ hI hd h => delivered_step hI hd h)
    (inv_init cfg) delivered_init as

/-- One partition with two records. The first batch's writes fail, the second's
succeed, and the commit covers both. -/
def lossRun : List Action :=
  [.append 0 ⟨0, 0⟩, .append 0 ⟨1, 1000⟩, .start, .poll [(0, 1)], .collect fun _ _ _ => false,
    .poll [(0, 1)], .collect fun _ _ _ => true, .commit]

/-- After `lossRun` offset 2 is committed and no write of record 0 was ever
acknowledged. -/
theorem lossRun_drops : ¬ Always (step ⟨1, 1⟩) Delivered init lossRun := by
  intro h
  have hrun : (exec (step ⟨1, 1⟩) init lossRun).map
      (fun w => (w.committed 0, w.acked 0 0 .insertRaw)) = some (some 2, false) := by decide
  obtain ⟨w, hw, he⟩ := Option.map_eq_some_iff.1 hrun
  obtain ⟨hc, ha⟩ := Prod.mk.inj he
  have := h.last hw 0 2 hc 0 (by decide) .insertRaw
  rw [ha] at this
  cases this

/-! ## Restarting on failure -/

/-- While the process polls nothing more after a failure, batches left behind
and a batch in hand exclude each other. -/
def StopsOnFailure (w : World) : Prop :=
  ∀ c, w.consumer = some c → c.leftBehind = [] ∨ c.phase = .polling

theorem stopsOnFailure_step {cfg : Config} {w w' : World} {a : Action} (hI : StopsOnFailure w)
    (hC : RestartsOnFailure w a) (h : step cfg w a = some w') : StopsOnFailure w' := by
  intro c' hc'
  cases step_effect h with
  | append | pollEmpty => exact hI c' hc'
  | start => cases hc'; exact .inl rfl
  | poll hc _ _ hne =>
    -- The one step that takes up a batch, and so the one that needs the condition.
    have hnil := hC hne _ hc
    cases hc'
    exact .inl hnil
  | failed | count => cases hc'; exact .inr rfl
  | collected hc hp | commit hc hp =>
    cases hc'
    rcases hI _ hc with h | h
    · exact .inl h
    · rw [hp] at h; cases h
  | commitRaises | dieWriting | die => cases hc'

theorem nothingLeftBehind_of_stops {cfg : Config} {w w' : World} {a : Action} (hI : StopsOnFailure w)
    (h : step cfg w a = some w') : NothingLeftBehind w a := by
  have hnil {c b} (hc : w.consumer = some c) (hp : c.phase = .committing b) :
      ∀ c, w.consumer = some c → ∀ p o k, c.leftBehind.has p o = true → w.acked p o k = true := by
    intro c' hc' p o k hb
    rw [hc] at hc'
    cases hc'
    rcases hI _ hc with h | h
    · rw [h] at hb; cases hb
    · rw [hp] at h; cases h
  cases step_effect h with
  | commit hc hp => exact hnil hc hp
  | @commitRaises c b applied hc hp =>
    cases applied with
    | true => exact hnil hc hp
    | false => trivial
  | _ => trivial

/-- A sink restarted after every failed batch delivers at least once. -/
theorem restarts_deliver (cfg : Config) (as : List Action)
    (h : Each (step cfg) RestartsOnFailure init as) : Always (step cfg) Delivered init as := by
  refine always_of_each (I := fun w => Inv cfg w ∧ StopsOnFailure w ∧ Delivered w) ?_ (fun _ hI => hI.2.2)
    ⟨inv_init cfg, (fun _ hc => by cases hc), delivered_init⟩ h
  rintro w a w' ⟨hI, hs, hd⟩ hC hstep
  exact ⟨inv_step hI hstep, stopsOnFailure_step hs hC hstep,
    (delivered_step hI hd hstep).2 (nothingLeftBehind_of_stops hs hstep)⟩

end HtapStack.Sink
