import HtapStack.Producer.Loop
/-!
# Whom the producer sends for

- `served_evenly`: while the effective size of the fleet stays the same, no asset
  gets two events more than another, wherever the cursor was left and however the
  events fall into batches; and no turn sends for an asset outside the fleet it was
  asked for, nor outside the arrays, which are of the largest size.
-/

namespace HtapStack.Producer

variable {c : Config} {s : Loop} {t : Turn} {ts : List Turn} {n i : Int}

def assets (es : List Event) : List Int := es.map Event.asset

/-- The fleet has `n` assets in every unpaused turn. -/
def Constant (c : Config) (n : Int) (ts : List Turn) : Prop := ∀ t ∈ active ts, fleetSize c t = n

theorem Constant.of_cons (h : Constant c n (t :: ts)) :
    (t.live.paused = false → fleetSize c t = n) ∧ Constant c n ts := by
  refine ⟨fun ht => h t ?_, fun u hu => h u ?_⟩
  · exact List.mem_filter.2 ⟨List.mem_cons_self, by simp [ht]⟩
  · obtain ⟨hmem, hu⟩ := List.mem_filter.1 hu
    exact List.mem_filter.2 ⟨List.mem_cons_of_mem _ hmem, hu⟩

theorem assets_batch : assets (batch c s t) = cycle (fleetSize c t) s.ptr (batchN c s t).toNat := by
  rw [assets, batch, List.map_map]
  rfl

theorem settle_ptr : (settle c s t).ptr =
    if 0 < batchN c s t then (s.ptr + batchN c s t) % fleetSize c t else s.ptr := by
  unfold settle
  dsimp only
  split <;> rfl

/-- The next batch goes on where the one before it ended. -/
theorem cycle_next (hs : s.Carries) (k : Nat) : cycle (fleetSize c t) s.ptr ((batchN c s t).toNat + k) =
    assets (batch c s t) ++ cycle (fleetSize c t) (settle c s t).ptr k := by
  have hn : ((batchN c s t).toNat : Int) = batchN c s t := Int.toNat_of_nonneg (batchN_nonneg hs)
  rw [assets_batch, settle_ptr]
  split
  · rw [cycle_append, hn]
  · have hnone : (batchN c s t).toNat = 0 := by omega
    rw [hnone, Nat.zero_add, cycle_zero, List.nil_append]

/-- While the fleet has `n` assets, what is sent is one visit round its ring. -/
theorem assets_sends (hs : s.Carries) (hn : Constant c n ts) :
    assets (sends c s ts) = cycle n s.ptr (sends c s ts).length := by
  induction ts generalizing s with
  | nil => rfl
  | cons t ts ih =>
    obtain ⟨hsize, hrest⟩ := hn.of_cons
    have ih := ih (next_carries (c := c) (t := t) hs) hrest
    rw [sends, assets, List.map_append, List.length_append]
    change assets _ ++ assets _ = _
    rw [ih]
    unfold sentBy next
    cases hpaused : t.live.paused with
    | true => simp [assets]
    | false =>
      have hsize := hsize hpaused
      subst hsize
      simp only [Bool.false_eq_true, if_false, report_ptr, length_batch]
      exact (cycle_next hs _).symm

theorem served_within (he : i ∈ assets (sentBy c s t)) : 0 ≤ i ∧ i < fleetSize c t := by
  unfold sentBy at he
  split at he
  · cases he
  · rw [assets_batch] at he
    exact mem_cycle (fleetSize_pos c t) he

/-- In whatever state earlier turns left the loop, a turn sends for assets of the fleet it was asked for only,
and turns with a fleet of `n` serve its assets evenly. -/
theorem served_evenly (c : Config) (start : ℚ) (before : List Turn) :
    (∀ t, ∀ e ∈ sentBy c (run c (.init start) before) t,
      0 ≤ e.asset ∧ e.asset < t.live.nEntities ∧ e.asset < c.maxEntities) ∧
    ∀ n ts, Constant c n ts → ∀ i j, 0 ≤ i ∧ i < n → 0 ≤ j ∧ j < n →
      (assets (sends c (run c (.init start) before) ts)).count i ≤
        (assets (sends c (run c (.init start) before) ts)).count j + 1 := by
  constructor
  · intro t e he
    obtain ⟨hlow, hhigh⟩ := served_within (List.mem_map_of_mem he)
    exact ⟨hlow, lt_min_iff.1 hhigh⟩
  · intro n ts hn i j hi hj
    rw [assets_sends (run_carries (init_carries start)) hn]
    exact count_cycle_le (hi.1.trans_lt hi.2) hi hj

end HtapStack.Producer
