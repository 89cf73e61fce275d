import HtapStack.Sink.Delivery
/-!
# Progress

What a reader of the sink's offsets may rely on (`Sane`). A partition is only
appended to, and its committed offset only grows and stays within it; where the
producer stamps records in order and close to their events, all records of the
topic are stamped so.
-/

namespace HtapStack.Sink
open Runs

/-- An appended record is not stamped before the last of its partition, and its
stamp is within `margin` milliseconds of its event. -/
def Stamped (margin : Nat) (w : World) : Action → Prop
  | .append p r => (∀ r' ∈ w.log p, r'.timestamp ≤ r.timestamp) ∧
    (r.timestamp * 1000 - r.eventTime).natAbs ≤ margin * 1000
  | _ => True

instance (margin : Nat) (w : World) : ∀ a, Decidable (Stamped margin w a)
  | .append p r => inferInstanceAs (Decidable ((∀ r' ∈ w.log p, r'.timestamp ≤ r.timestamp) ∧
      (r.timestamp * 1000 - r.eventTime).natAbs ≤ margin * 1000))
  | .poll _ | .start | .collect _ | .commit | .commitRaises _ | .count .. | .die _ => isTrue trivial

/-- What a reader assumes of a step: the producer stamps, and the sink commits
only what is written. -/
def Assumed (cfg : Config) (margin : Nat) (w : World) (a : Action) : Prop :=
  Stamped margin w a ∧ ∀ w', step cfg w a = some w' → Delivered w'

variable {cfg : Config} {margin : Nat} {w w' : World} {a : Action}

/-! ## Logs and committed offsets -/

theorem log_step (h : step cfg w a = some w') (p : Nat) :
    w'.log p = w.log p ∨ ∃ r, a = .append p r ∧ w'.log p = w.log p ++ [r] := by
  cases step_effect h with
  | @append q r =>
    by_cases hpq : p = q
    · subst hpq; exact .inr ⟨r, rfl, Function.update_self ..⟩
    · exact .inl (Function.update_of_ne hpq ..)
  | commitRaises => dsimp only; split <;> exact .inl rfl
  | _ => exact .inl rfl

theorem log_of_reach {C : World → Action → Prop} (h : Reach (step cfg) C w w') (p : Nat) :
    w.log p <+: w'.log p := by
  induction h with
  | refl => exact List.prefix_rfl
  | step _ _ h ih =>
    rcases log_step h p with he | ⟨r, -, he⟩
    · rw [he]; exact ih
    · rw [he]; exact ih.trans (List.prefix_append _ _)

/-- The positions and the committed offsets are within the topic. -/
structure InLog (w : World) : Prop where
  position_le : ∀ c, w.consumer = some c → ∀ p, c.position p ≤ (w.log p).length
  committed_le : ∀ p o, w.committed p = some o → o ≤ (w.log p).length

theorem inLog_commitAll {c : Consumer} (hI : InLog w) (hc : w.consumer = some c) (p o : Nat)
    (ho : (w.commitAll cfg c).committed p = some o) : o ≤ (w.log p).length := by
  simp only [World.commitAll] at ho
  split at ho
  · cases ho; exact hI.position_le c hc p
  · exact hI.committed_le p o ho

theorem inLog_of_gone (hw : w.consumer = none) (hc : ∀ p o, w.committed p = some o → o ≤ (w.log p).length) :
    InLog w where
  position_le c h := by
    rw [hw] at h
    cases h
  committed_le := hc

theorem inLog_step (hI : InLog w) (h : step cfg w a = some w') : InLog w' := by
  have hlen : ∀ p, (w.log p).length ≤ (w'.log p).length := fun p =>
    (log_of_reach (.single (C := Any) trivial h) p).length_le
  cases step_effect h with
  | append =>
    exact ⟨fun c hc p => Nat.le_trans (hI.position_le c hc p) (hlen p),
      fun p o ho => Nat.le_trans (hI.committed_le p o ho) (hlen p)⟩
  | start =>
    refine ⟨fun c hc p => ?_, hI.committed_le⟩
    cases hc
    cases ho : w.committed p with
    | none => simp [ho]
    | some o => simpa [ho] using hI.committed_le p o ho
  | pollEmpty => exact hI
  | @poll c records hc hp hr hne =>
    refine ⟨fun c' hc' p => ?_, hI.committed_le⟩
    cases hc'
    simp only [Consumer.polled, advance]
    -- `poll` returned only records that are there.
    cases hl : records.lookup p with
    | none => simpa using hI.position_le c hc p
    | some n => exact (hr.2.2 _ (mem_of_lookup hl)).2.2
  | collected hc | failed hc =>
    refine ⟨fun c' hc' p => ?_, hI.committed_le⟩
    cases hc'
    exact hI.position_le _ hc p
  | commit hc =>
    refine ⟨fun c' hc' p => ?_, inLog_commitAll hI hc⟩
    cases hc'
    exact hI.position_le _ hc p
  | @commitRaises c b applied hc =>
    cases applied with
    | true => exact inLog_of_gone rfl (inLog_commitAll hI hc)
    | false => exact inLog_of_gone rfl hI.committed_le
  | count hc =>
    refine ⟨fun c' hc' p => ?_, hI.committed_le⟩
    cases hc'
    exact hI.position_le _ hc p
  | dieWriting | die => exact inLog_of_gone rfl hI.committed_le

theorem inLog_init : InLog init := inLog_of_gone rfl nofun

theorem committed_commitAll {c : Consumer} (hI : Inv cfg w) (hc : w.consumer = some c) {p o : Nat}
    (ho : w.committed p = some o) : ∃ o', (w.commitAll cfg c).committed p = some o' ∧ o ≤ o' := by
  simp only [World.commitAll]
  split
  · have := (hI c hc).committed_le p
    exact ⟨_, rfl, by simpa [ho] using this⟩
  · exact ⟨o, ho, Nat.le_refl o⟩

theorem committed_mono_step (hI : Inv cfg w) (h : step cfg w a = some w') {p o : Nat}
    (ho : w.committed p = some o) : ∃ o', w'.committed p = some o' ∧ o ≤ o' := by
  cases step_effect h with
  | commit hc => exact committed_commitAll hI hc ho
  | @commitRaises c b applied hc =>
    cases applied with
    | true => exact committed_commitAll hI hc ho
    | false => exact ⟨o, ho, Nat.le_refl o⟩
  | _ => exact ⟨o, ho, Nat.le_refl o⟩

/-! ## Along a run -/

/-- What every reachable state under the assumptions has. -/
structure Sane (cfg : Config) (margin : Nat) (w : World) : Prop where
  inv : Inv cfg w
  inLog : InLog w
  delivered : Delivered w
  sorted : ∀ p, (w.log p).Pairwise fun r r' => r.timestamp ≤ r'.timestamp
  close : ∀ p, ∀ r ∈ w.log p, (r.timestamp * 1000 - r.eventTime).natAbs ≤ margin * 1000

theorem sane_init : Sane cfg margin init where
  inv := inv_init cfg
  inLog := inLog_init
  delivered := delivered_init
  sorted _ := .nil
  close _ _ h := by cases h

theorem sane_step (hI : Sane cfg margin w) (hA : Assumed cfg margin w a) (h : step cfg w a = some w') :
    Sane cfg margin w' where
  inv := inv_step hI.inv h
  inLog := inLog_step hI.inLog h
  delivered := hA.2 w' h
  sorted p := by
    rcases log_step h p with he | ⟨r, ha, he⟩
    · rw [he]; exact hI.sorted p
    · rw [he, List.pairwise_append]
      refine ⟨hI.sorted p, List.pairwise_singleton _ _, fun r' hr' r'' hr'' => ?_⟩
      rw [List.mem_singleton.1 hr'']
      subst ha
      exact hA.1.1 r' hr'
  close p r' hr' := by
    rcases log_step h p with he | ⟨r, ha, he⟩
    · exact hI.close p r' (he ▸ hr')
    · rw [he, List.mem_append, List.mem_singleton] at hr'
      rcases hr' with hr' | rfl
      · exact hI.close p r' hr'
      · subst ha
        exact hA.1.2

/-- A run of a well-behaved producer and a sink restarted after every failed
batch meets the assumptions. -/
theorem assumed_of_restarts {as : List Action} (hs : Each (step cfg) (Stamped margin) init as)
    (hr : Each (step cfg) RestartsOnFailure init as) : Each (step cfg) (Assumed cfg margin) init as :=
  hs.and (restarts_deliver cfg as hr).each

theorem Sane.reach (hI : Sane cfg margin w) (h : Reach (step cfg) (Assumed cfg margin) w w') :
    Sane cfg margin w' :=
  h.inv (fun _ _ _ => sane_step) hI

theorem Sane.committed_mono (hI : Sane cfg margin w) (h : Reach (step cfg) (Assumed cfg margin) w w')
    {p o : Nat} (ho : w.committed p = some o) : ∃ o', w'.committed p = some o' ∧ o ≤ o' := by
  induction h with
  | refl => exact ⟨o, ho, Nat.le_refl o⟩
  | step hr _ h ih =>
    obtain ⟨o₁, ho₁, hle₁⟩ := ih
    obtain ⟨o₂, ho₂, hle₂⟩ := committed_mono_step (hI.reach hr).inv h ho₁
    exact ⟨o₂, ho₂, Nat.le_trans hle₁ hle₂⟩

end HtapStack.Sink
