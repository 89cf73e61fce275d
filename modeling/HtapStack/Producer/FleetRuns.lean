import HtapStack.Lib.Keyed
import HtapStack.Producer.Fleet
import Mathlib.Algebra.Order.Ring.Rat
import Mathlib.Data.Fin.VecNotation
import Mathlib.Data.Rat.Floor
/-!
# Runs of the simulated fleet

What batch after batch makes of one asset of `ingress/producer/producer.py`.

- `fleet_isolates`: its readings depend on its own events alone.
- `anomalies_exact`: its hot windows are as long as they were drawn, never overlap,
  and it is heated in them and nowhere else.
- `texts_fresh`: its text is of a seed that no other asset and no other refresh has.
-/

namespace HtapStack.Fleet
open Gather

variable {R : Type} [Field R] [LinearOrder R]

/-- Batches of any size. -/
abbrev Batches (R : Type) [Field R] [LinearOrder R] := List ((n : Nat) × Batch R n)

section
variable [FloorRing R] (m : Maths R) (cfg : FleetConfig R)

def run (f : FleetState R) (bs : Batches R) : FleetState R := bs.foldl (fun f b => (step m cfg f b.2).1) f

/-! ## Its own events -/

/-- The events of an asset in a batch, each by itself. -/
def ownIn {n : Nat} (f : FleetState R) (b : Batch R n) (i : Nat) : List (Batch R 1) :=
  (places b.ids all i).map (b.only m cfg f)

def ownEvents (i : Nat) : FleetState R → Batches R → List (Batch R 1)
  | _, [] => []
  | f, b :: bs => ownIn m cfg f b.2 i ++ ownEvents i (step m cfg f b.2).1 bs

/-- Its readings. -/
def readings (i : Nat) : FleetState R → Batches R → List (Reading R)
  | _, [] => []
  | f, b :: bs =>
    (places b.2.ids all i).map (step m cfg f b.2).2.reading ++ readings i (step m cfg f b.2).1 bs

/-- An asset that is the only one. -/
def aloneStep (t0 : R) (i : Nat) (a : Asset R) (b : Batch R 1) : Asset R × Reading R :=
  ((step m cfg (a.fleet t0) b).1.asset i, (step m cfg (a.fleet t0) b).2.reading 0)

variable {m cfg}

theorem run_append (f : FleetState R) (bs cs : Batches R) : run m cfg f (bs ++ cs) = run m cfg (run m cfg f bs) cs :=
  List.foldl_append

theorem places_injective {n : Nat} {ids : Fin n → Nat} (h : Function.Injective ids) (k : Fin n) :
    places ids all (ids k) = [k] := by
  have hfilter : places ids all (ids k) = (List.finRange n).filter (· == k) := by
    refine List.filter_congr fun j _ => ?_
    by_cases hj : j = k
    · subst hj
      rw [beq_self_eq_true, beq_self_eq_true]
      rfl
    · rw [beq_eq_false_iff_ne.2 hj, beq_eq_false_iff_ne.2 fun hid => hj (h hid), Bool.and_false]
  rw [hfilter, List.filter_beq, List.count_eq_one_of_mem (List.nodup_finRange n) (List.mem_finRange k)]
  rfl

/-- One batch, for one asset: as if it were alone. -/
theorem step_own {n : Nat} {b : Batch R n} (hinj : Function.Injective b.ids) (f : FleetState R) (i : Nat) :
    Keyed.run (aloneStep m cfg f.t0 i) (f.asset i) (ownIn m cfg f b i) =
      ((step m cfg f b).1.asset i,
        (ownIn m cfg f b i).zip ((places b.ids all i).map (step m cfg f b).2.reading)) := by
  by_cases hi : i ∈ Set.range b.ids
  · obtain ⟨k, rfl⟩ := hi
    obtain ⟨hasset, hreading⟩ := step_alone m cfg f hinj k
    rw [ownIn, places_injective hinj, hasset]
    refine Prod.ext rfl ?_
    exact congrArg (fun r => [(b.only m cfg f k, r)]) hreading.symm
  · have hnone : places b.ids all i = [] := by
      apply List.eq_nil_iff_forall_not_mem.2
      intro k hk
      exact hi ⟨k, (mem_places.1 hk).2⟩
    rw [ownIn, hnone, step_other hi]
    rfl

/-- In a run without repeats in a batch, what becomes of an asset and what is read off it is what its own
events make of it alone. -/
theorem fleet_isolates (m : Maths R) (cfg : FleetConfig R) (i : Nat) (f : FleetState R) (bs : Batches R)
    (hinj : ∀ b ∈ bs, Function.Injective b.2.ids) :
    (run m cfg f bs).asset i = (Keyed.run (aloneStep m cfg f.t0 i) (f.asset i) (ownEvents m cfg i f bs)).1 ∧
      readings m cfg i f bs =
        (Keyed.run (aloneStep m cfg f.t0 i) (f.asset i) (ownEvents m cfg i f bs)).2.map Prod.snd := by
  induction bs generalizing f with
  | nil => exact ⟨rfl, rfl⟩
  | cons b bs ih =>
    obtain ⟨hb, hbs⟩ := List.forall_mem_cons.1 hinj
    obtain ⟨hasset, hreadings⟩ := ih (step m cfg f b.2).1 hbs
    have ht0 : (step m cfg f b.2).1.t0 = f.t0 := rfl
    rw [ht0] at hasset hreadings
    rw [ownEvents, Keyed.run_append, step_own hb]
    refine ⟨hasset, ?_⟩
    have hlength : ((places b.2.ids all i).map (step m cfg f b.2).2.reading).length ≤
        (ownIn m cfg f b.2 i).length := by
      rw [ownIn, List.length_map, List.length_map]
    rw [readings, List.map_append, List.map_snd_zip hlength, hreadings]

end

/-- Functions that are no more than that. -/
def tryMaths : Maths ℚ := ⟨fun _ => 0, fun _ => 1, fun _ => 0, fun x => x, 3, fun _ => 1, fun _ => 0⟩

section
variable [IsStrictOrderedRing R]

/-- The configuration as it comes. -/
def FleetConfig.asItComes : FleetConfig R where
  durations_pos := by norm_num
  durations_le := by norm_num
  deltas_le := by norm_num

def tryPath : Path R := ⟨lit 60, lit 11, 1, lit 500, lit 6, 1, 1, 0, 0, 0, 0, 0, 0, 0, lit 30, 0, 1, 0⟩

theorem zero_portion : (0 : R) ≤ 0 ∧ (0 : R) < 1 := ⟨le_rfl, zero_lt_one⟩

/-- Of some assets, at a time, with other numbers for each place. -/
def tryBatch {n : Nat} (ids : Fin n → Nat) (now : R) : Batch R n where
  ids := ids
  now := now
  textSampler := some fun seed => (toString seed).toList
  textRefreshRangeS := (lit 5, lit 30)
  outlierFraction := lit (1 / 20)
  normalX k := k
  normalY k := k + 1
  normalAlt k := 2 * k
  weather k := k
  sensor _ := 0
  start _ := ⟨0, zero_portion⟩
  duration _ := ⟨0, zero_portion⟩
  delta _ := ⟨0, zero_portion⟩
  internal k := k
  refresh _ := ⟨0, zero_portion⟩

/-- Two assets in two turns, in the other order. -/
def tryTurns : Batches R := [⟨2, tryBatch ![3, 5] 1⟩, ⟨2, tryBatch ![5, 3] 2⟩]

theorem tryTurns_injective : ∀ b ∈ tryTurns (R := R), Function.Injective b.2.ids := by
  intro b hb
  simp only [tryTurns, List.mem_cons, List.not_mem_nil, or_false] at hb
  rcases hb with rfl | rfl
  · show Function.Injective ![3, 5]
    decide
  · show Function.Injective ![5, 3]
    decide

end

theorem fleet_isolates_two :
    (run tryMaths .asItComes (.init 0 fun _ => tryPath) tryTurns).asset 3 =
        (Keyed.run (aloneStep tryMaths .asItComes 0 3) ((FleetState.init 0 fun _ => tryPath).asset 3)
          (ownEvents tryMaths .asItComes 3 (.init 0 fun _ => tryPath) tryTurns)).1 ∧
      readings tryMaths .asItComes 3 (.init 0 fun _ => tryPath) tryTurns =
        (Keyed.run (aloneStep tryMaths .asItComes 0 3) ((FleetState.init 0 fun _ => tryPath).asset 3)
          (ownEvents tryMaths .asItComes 3 (.init 0 fun _ => tryPath) tryTurns)).2.map Prod.snd :=
  fleet_isolates tryMaths .asItComes 3 (.init 0 fun _ => tryPath) tryTurns tryTurns_injective

/-! ## Anomalies -/

/-- A hot window: from its start, up to its end. -/
structure Window (R : Type) where
  start : R
  stop : R
  delta : R

def Window.covers (w : Window R) (now : R) : Bool := w.start ≤ now && now < w.stop

section
variable (m : Maths R) (cfg : FleetConfig R)

/-- The window that a batch opens for an asset. -/
def opened {n : Nat} (f : FleetState R) (b : Batch R n) (i : Nat) : List (Window R) :=
  ((places b.ids (startMask m cfg f b) i).getLast?).toList.map fun k => ⟨b.now, endsAt m cfg f b k, heatsBy m cfg f b k⟩

def windows [FloorRing R] (i : Nat) : FleetState R → Batches R → List (Window R)
  | _, [] => []
  | f, b :: bs => opened m cfg f b.2 i ++ windows i (step m cfg f b.2).1 bs

/-- What an asset is heated by. -/
def heat (f : FleetState R) (i : Nat) (now : R) : R := if now < f.anomEnd i then f.anomDelta i else 0

/-- What windows heat by. -/
def heatIn (ws : List (Window R)) (now : R) : R := ((ws.find? (·.covers now)).map Window.delta).getD 0

/-- As long and as hot as they are drawn, one after the other. -/
structure Drawn (ws : List (Window R)) : Prop where
  apart : ws.Pairwise fun v w => v.stop ≤ w.start
  lasts : ∀ w ∈ ws, cfg.anomalyDurMinS ≤ w.stop - w.start ∧ w.stop - w.start ≤ cfg.anomalyDurMaxS
  heats : ∀ w ∈ ws, cfg.anomalyDeltaMinC ≤ w.delta ∧ w.delta ≤ cfg.anomalyDeltaMaxC

/-- The last window is what the arrays have. -/
def Current (ws : List (Window R)) (f : FleetState R) (i : Nat) : Prop :=
  match ws.getLast? with
  | none => f.anomEnd i = 0 ∧ f.anomDelta i = 0
  | some w => f.anomEnd i = w.stop ∧ f.anomDelta i = w.delta

variable {m cfg} {f : FleetState R} {i : Nat} {ws : List (Window R)}

theorem windows_append [FloorRing R] (f : FleetState R) (bs cs : Batches R) :
    windows m cfg i f (bs ++ cs) = windows m cfg i f bs ++ windows m cfg i (run m cfg f bs) cs := by
  induction bs generalizing f with
  | nil => rfl
  | cons b bs ih =>
    rw [List.cons_append, windows, windows, ih, List.append_assoc]
    rfl

/-- At a time that no window starts after, an asset is heated as the windows say. -/
theorem heat_eq (now : R) (hdrawn : Drawn cfg ws) (hcurrent : Current ws f i)
    (hstarted : ∀ w ∈ ws, w.start ≤ now) : heat f i now = heatIn ws now := by
  rcases ws.eq_nil_or_concat' with rfl | ⟨init, last, rfl⟩
  · have hdelta : f.anomDelta i = 0 := hcurrent.2
    rw [heat, hdelta, ite_self]
    rfl
  · rw [Current, List.getLast?_concat] at hcurrent
    obtain ⟨hend, hdelta⟩ := hcurrent
    -- Only the last window can cover the time: the others were over when it began.
    have hover : ∀ v ∈ init, v.covers now = false := by
      intro v hv
      have hapart := (List.pairwise_append.1 hdrawn.apart).2.2 v hv last List.mem_cons_self
      have hstart := hstarted last (List.mem_append_right _ List.mem_cons_self)
      rw [Window.covers, Bool.and_eq_false_iff]
      exact .inr (decide_eq_false (hapart.trans hstart).not_gt)
    have hinit : init.find? (·.covers now) = none := by
      apply List.find?_eq_none.2
      intro v hv
      rw [hover v hv]
      exact Bool.false_ne_true
    have hlast : last.covers now = decide (now < last.stop) := by
      rw [Window.covers, decide_eq_true (hstarted last (List.mem_append_right _ List.mem_cons_self)), Bool.true_and]
    rw [heat, hend, hdelta, heatIn, List.find?_append, hinit, Option.none_or, List.find?_singleton, hlast]
    by_cases hhot : now < last.stop
    · simp [hhot]
    · simp [hhot]

variable [IsStrictOrderedRing R]

theorem uniform_mem {lo hi : R} (h : lo ≤ hi) (u : Portion R) : lo ≤ uniform lo hi u ∧ uniform lo hi u ≤ hi := by
  obtain ⟨u, hu0, hu1⟩ := u
  have hwidth : 0 ≤ hi - lo := sub_nonneg.2 h
  constructor
  · exact le_add_of_nonneg_right (mul_nonneg hwidth hu0)
  · have hle : (hi - lo) * u ≤ hi - lo := mul_le_of_le_one_right hwidth hu1.le
    show lo + (hi - lo) * u ≤ hi
    linarith

/-- A batch opens no window while one is open, and the arrays then have the one it opens. -/
theorem opened_cases [FloorRing R] {n : Nat} (m : Maths R) (cfg : FleetConfig R) (f : FleetState R) (b : Batch R n)
    (i : Nat) :
    (opened m cfg f b i = [] ∧ (step m cfg f b).1.anomEnd i = f.anomEnd i ∧
        (step m cfg f b).1.anomDelta i = f.anomDelta i) ∨
      ∃ w, opened m cfg f b i = [w] ∧ w.start = b.now ∧ f.anomEnd i ≤ b.now ∧
        (step m cfg f b).1.anomEnd i = w.stop ∧ (step m cfg f b).1.anomDelta i = w.delta ∧
        (cfg.anomalyDurMinS ≤ w.stop - w.start ∧ w.stop - w.start ≤ cfg.anomalyDurMaxS) ∧
        cfg.anomalyDeltaMinC ≤ w.delta ∧ w.delta ≤ cfg.anomalyDeltaMaxC := by
  by_cases hnone : places b.ids (startMask m cfg f b) i = []
  · have hother : ∀ k, startMask m cfg f b k = true → b.ids k ≠ i := by
      intro k hmask hk
      exact List.ne_nil_of_mem (mem_places.2 ⟨hmask, hk⟩) hnone
    refine .inl ⟨?_, put_of_none hother, put_of_none hother⟩
    rw [opened, hnone]
    rfl
  · obtain ⟨j, hj⟩ := List.exists_mem_of_ne_nil _ hnone
    obtain ⟨k, hk, hlast, hend⟩ := put_of_mem f.anomEnd (endsAt m cfg f b) hj
    have hdelta : put f.anomDelta b.ids (startMask m cfg f b) (heatsBy m cfg f b) i = heatsBy m cfg f b k := by
      rw [put_apply, hlast]
      rfl
    obtain ⟨hmask, hid⟩ := mem_places.1 hk
    have hcold : f.anomEnd (b.ids k) ≤ b.now := of_decide_eq_true (Bool.and_eq_true_iff.1 hmask).2
    have hlong := uniform_mem cfg.durations_le (b.duration (rank (startMask m cfg f b) k))
    refine .inr ⟨⟨b.now, endsAt m cfg f b k, heatsBy m cfg f b k⟩, ?_, rfl, hid ▸ hcold, hend, hdelta, ?_,
      uniform_mem cfg.deltas_le _⟩
    · rw [opened, hlast]
      rfl
    · show _ ≤ endsAt m cfg f b k - b.now ∧ endsAt m cfg f b k - b.now ≤ _
      rw [endsAt, add_sub_cancel_left]
      exact hlong

/-- One batch more. -/
theorem drawn_step [FloorRing R] {n : Nat} (b : Batch R n) (hdrawn : Drawn cfg ws) (hcurrent : Current ws f i) :
    Drawn cfg (ws ++ opened m cfg f b i) ∧ Current (ws ++ opened m cfg f b i) (step m cfg f b).1 i := by
  obtain ⟨hnone, hend, hdelta⟩ | ⟨w, hone, hstart, hcold, hend, hdelta, hlasts, hheats⟩ := opened_cases m cfg f b i
  · rw [hnone, List.append_nil]
    refine ⟨hdrawn, ?_⟩
    unfold Current at hcurrent ⊢
    rw [hend, hdelta]
    exact hcurrent
  · rw [hone]
    refine ⟨⟨?_, ?_, ?_⟩, ?_⟩
    · refine List.pairwise_append.2 ⟨hdrawn.apart, List.pairwise_singleton _ _, fun v hv w' hw' => ?_⟩
      rw [List.mem_singleton.1 hw', hstart]
      -- The last window is over, and every other one is over before it.
      obtain ⟨init, last, rfl⟩ := ws.eq_nil_or_concat'.resolve_left (List.ne_nil_of_mem hv)
      rw [Current, List.getLast?_concat] at hcurrent
      have hlast : last.stop ≤ b.now := hcurrent.1 ▸ hcold
      rcases List.mem_append.1 hv with hv | hv
      · have hapart := (List.pairwise_append.1 hdrawn.apart).2.2 v hv last List.mem_cons_self
        have hlong := (hdrawn.lasts last (List.mem_append_right _ List.mem_cons_self)).1
        have hpos := cfg.durations_pos
        linarith
      · rw [List.mem_singleton.1 hv]
        exact hlast
    · exact List.forall_mem_append.2 ⟨hdrawn.lasts, List.forall_mem_singleton.2 hlasts⟩
    · exact List.forall_mem_append.2 ⟨hdrawn.heats, List.forall_mem_singleton.2 hheats⟩
    · rw [Current, List.getLast?_concat]
      exact ⟨hend, hdelta⟩

/-- Batch after batch. -/
theorem drawn_run [FloorRing R] (m : Maths R) (cfg : FleetConfig R) (t0 : R) (path : Nat → Path R) (bs : Batches R)
    (i : Nat) : Drawn cfg (windows m cfg i (.init t0 path) bs) ∧
      Current (windows m cfg i (.init t0 path) bs) (run m cfg (.init t0 path) bs) i ∧
      ∀ w ∈ windows m cfg i (.init t0 path) bs, ∃ c ∈ bs, w.start = c.2.now := by
  induction bs using List.reverseRecOn with
  | nil => exact ⟨⟨.nil, nofun, nofun⟩, ⟨rfl, rfl⟩, nofun⟩
  | append_singleton bs b ih =>
    obtain ⟨hdrawn, hcurrent, hstarted⟩ := ih
    have hwindows : windows m cfg i (.init t0 path) (bs ++ [b]) =
        windows m cfg i (.init t0 path) bs ++ opened m cfg (run m cfg (.init t0 path) bs) b.2 i := by
      rw [windows_append, windows, windows, List.append_nil]
    obtain ⟨hdrawn', hcurrent'⟩ := drawn_step (m := m) b.2 hdrawn hcurrent
    rw [hwindows, run_append]
    refine ⟨hdrawn', hcurrent', fun w hw => ?_⟩
    rcases List.mem_append.1 hw with hw | hw
    · obtain ⟨c, hc, hstart⟩ := hstarted w hw
      exact ⟨c, List.mem_append_left _ hc, hstart⟩
    · refine ⟨b, List.mem_append_right _ List.mem_cons_self, ?_⟩
      obtain ⟨hnone, -⟩ | ⟨v, hone, hstart, -⟩ := opened_cases m cfg (run m cfg (.init t0 path) bs) b.2 i
      · rw [hnone] at hw
        cases hw
      · rw [hone, List.mem_singleton] at hw
        exact hw ▸ hstart

/-- After any run by a clock that does not go back, an asset's hot windows are as they were drawn and do
not overlap, and in the last batch it is heated exactly as the window says that it is in. -/
theorem anomalies_exact [FloorRing R] (m : Maths R) (cfg : FleetConfig R) (t0 : R) (path : Nat → Path R)
    (bs : Batches R) (b : (n : Nat) × Batch R n) (i : Nat) (hclock : ∀ c ∈ bs, c.2.now ≤ b.2.now) :
    Drawn cfg (windows m cfg i (.init t0 path) (bs ++ [b])) ∧
      ∀ k, b.2.ids k = i → anomExtra m cfg (run m cfg (.init t0 path) bs) b.2 k =
        heatIn (windows m cfg i (.init t0 path) (bs ++ [b])) b.2.now := by
  obtain ⟨hdrawn, hcurrent, hstarted⟩ := drawn_run m cfg t0 path (bs ++ [b]) i
  have hheat := heat_eq b.2.now hdrawn hcurrent (by
    intro w hw
    obtain ⟨c, hc, hstart⟩ := hstarted w hw
    rw [hstart]
    rcases List.mem_append.1 hc with hc | hc
    · exact hclock c hc
    · rw [List.mem_singleton.1 hc])
  refine ⟨hdrawn, ?_⟩
  rintro k rfl
  rw [← hheat, run_append]
  rfl

/-- The window that the first turn opens heats in the second. -/
theorem anomalies_exact_second :
    let first : Batches ℚ := [⟨2, tryBatch ![3, 5] 1⟩]
    let second : (n : Nat) × Batch ℚ n := ⟨2, tryBatch ![5, 3] 2⟩
    anomExtra tryMaths .asItComes (run tryMaths .asItComes (.init 0 fun _ => tryPath) first) second.2 1 =
      heatIn (windows tryMaths .asItComes 3 (.init 0 fun _ => tryPath) (first ++ [second])) 2 :=
  (anomalies_exact tryMaths .asItComes 0 (fun _ => tryPath) [⟨2, tryBatch ![3, 5] 1⟩] ⟨2, tryBatch ![5, 3] 2⟩ 3 (by
    intro c hc
    rw [List.mem_singleton.1 hc]
    exact one_le_two)).2 1 rfl

end

/-! ## Texts -/

section
variable (m : Maths R) (cfg : FleetConfig R)

/-- When a batch refreshes an asset's text, and how often: once for each of its places that is due. -/
def refreshedIn {n : Nat} (f : FleetState R) (b : Batch R n) (i : Nat) : List (R × Nat) :=
  let due := places b.ids (refreshMask f b) i
  if due = [] then [] else [(b.now, due.length)]

def refreshes [FloorRing R] (i : Nat) : FleetState R → Batches R → List (R × Nat)
  | _, [] => []
  | f, b :: bs => refreshedIn f b.2 i ++ refreshes i (step m cfg f b.2).1 bs

/-- The text is that of its revision. -/
def Revised (sampler : Nat → List Char) (f : FleetState R) (i : Nat) : Prop :=
  f.textCache i = if f.textRevision i = 0 then [] else sampler (textSeed i (f.textRevision i))

variable {m cfg} {f : FleetState R} {i : Nat}

/-- Up to 1,000,003 refreshes, each has a seed of its own. -/
theorem textSeed_injective {i j r s : Nat} (hr : 1 ≤ r ∧ r ≤ 1000003) (hs : 1 ≤ s ∧ s ≤ 1000003)
    (h : textSeed i r = textSeed j s) : i = j ∧ r = s := by
  unfold textSeed at h
  omega

theorem refreshes_append [FloorRing R] (f : FleetState R) (bs cs : Batches R) :
    refreshes m cfg i f (bs ++ cs) = refreshes m cfg i f bs ++ refreshes m cfg i (run m cfg f bs) cs := by
  induction bs generalizing f with
  | nil => rfl
  | cons b bs ih =>
    rw [List.cons_append, refreshes, refreshes, ih, List.append_assoc]
    rfl

theorem sum_refreshedIn {n : Nat} (f : FleetState R) (b : Batch R n) (i : Nat) :
    ((refreshedIn f b i).map Prod.snd).sum = (places b.ids (refreshMask f b) i).length := by
  unfold refreshedIn
  dsimp only
  split
  · rename_i hnone
    rw [hnone]
    rfl
  · simp

/-- A batch refreshes an asset's text as often as the asset is due in it. -/
theorem revised_step [FloorRing R] (m : Maths R) (cfg : FleetConfig R) {n : Nat} {b : Batch R n}
    {sampler : Nat → List Char} (hsampler : b.textSampler = some sampler) (h : Revised sampler f i) :
    Revised sampler (step m cfg f b).1 i ∧
      (step m cfg f b).1.textRevision i = f.textRevision i + (places b.ids (refreshMask f b) i).length := by
  have htexts : newTexts f b = (due f b).foldl (refreshOne sampler) (f.textCache, f.textRevision) := by
    rw [newTexts, hsampler]
  obtain ⟨hrevision, htext⟩ := foldl_refreshOne sampler (due f b) (f.textCache, f.textRevision) i
  rw [← htexts, count_due] at hrevision htext
  refine ⟨?_, hrevision⟩
  show (newTexts f b).1 i = if (newTexts f b).2 i = 0 then [] else sampler (textSeed i ((newTexts f b).2 i))
  rw [hrevision, htext]
  by_cases hzero : (places b.ids (refreshMask f b) i).length = 0
  · rw [hzero, if_pos rfl]
    exact h
  · rw [if_neg hzero, if_neg (by omega)]

/-- A batch that refreshes comes when it is due, and puts the next one off. -/
theorem refreshedIn_cases [FloorRing R] [IsStrictOrderedRing R] (m : Maths R) (cfg : FleetConfig R)
    (f : FleetState R) (i : Nat) {n : Nat} (b : Batch R n) {lo hi : R}
    (hrange : b.textRefreshRangeS = (lo, hi)) (hle : lo ≤ hi) :
    (refreshedIn f b i = [] ∧ (step m cfg f b).1.nextTextT i = f.nextTextT i) ∨
      ∃ due, refreshedIn f b i = [(b.now, due)] ∧ f.nextTextT i ≤ b.now ∧
        b.now + lo ≤ (step m cfg f b).1.nextTextT i := by
  by_cases hnone : places b.ids (refreshMask f b) i = []
  · refine .inl ⟨if_pos hnone, put_of_none fun k hmask hk => ?_⟩
    exact List.ne_nil_of_mem (mem_places.2 ⟨hmask, hk⟩) hnone
  · obtain ⟨j, hj⟩ := List.exists_mem_of_ne_nil _ hnone
    obtain ⟨k, hk, -, hput⟩ := put_of_mem f.nextTextT (fun k => b.now +
      uniform b.textRefreshRangeS.1 b.textRefreshRangeS.2 (b.refresh (rank (refreshMask f b) k))) hj
    obtain ⟨hmask, hid⟩ := mem_places.1 hk
    have hdue : f.nextTextT (b.ids k) ≤ b.now := of_decide_eq_true (Bool.and_eq_true_iff.1 hmask).2
    refine .inr ⟨_, if_neg hnone, hid ▸ hdue, ?_⟩
    show _ ≤ put f.nextTextT b.ids (refreshMask f b) _ i
    rw [hput, hrange]
    exact add_le_add_right (uniform_mem hle _).1 b.now

/-- Batch after batch. -/
theorem revised_run [FloorRing R] [IsStrictOrderedRing R] (m : Maths R) (cfg : FleetConfig R) (t0 : R)
    (path : Nat → Path R) {sampler : Nat → List Char} {lo hi : R} (hlo : 0 ≤ lo) (hle : lo ≤ hi) {bs : Batches R}
    (hbs : ∀ b ∈ bs, b.2.textSampler = some sampler ∧ b.2.textRefreshRangeS = (lo, hi)) (i : Nat) :
    Revised sampler (run m cfg (.init t0 path) bs) i ∧
      (run m cfg (.init t0 path) bs).textRevision i = ((refreshes m cfg i (.init t0 path) bs).map Prod.snd).sum ∧
      (refreshes m cfg i (.init t0 path) bs).Pairwise (fun s t => s.1 + lo ≤ t.1) ∧
      ∀ s ∈ refreshes m cfg i (.init t0 path) bs, s.1 + lo ≤ (run m cfg (.init t0 path) bs).nextTextT i := by
  induction bs using List.reverseRecOn with
  | nil => exact ⟨rfl, rfl, .nil, nofun⟩
  | append_singleton bs b ih =>
    obtain ⟨hinit, hb⟩ := List.forall_mem_append.1 hbs
    obtain ⟨hsampler, hrange⟩ := hb b List.mem_cons_self
    obtain ⟨hrevised, hcount, hapart, hnext⟩ := ih hinit
    have htimes : refreshes m cfg i (.init t0 path) (bs ++ [b]) =
        refreshes m cfg i (.init t0 path) bs ++ refreshedIn (run m cfg (.init t0 path) bs) b.2 i := by
      rw [refreshes_append, refreshes, refreshes, List.append_nil]
    obtain ⟨hrevised', hrevision⟩ := revised_step m cfg hsampler hrevised
    rw [htimes, run_append]
    refine ⟨hrevised', ?_, ?_⟩
    · rw [List.map_append, List.sum_append, sum_refreshedIn, ← hcount]
      exact hrevision
    obtain ⟨hnone, hkeep⟩ | ⟨due, hone, hdue, hlater⟩ :=
      refreshedIn_cases m cfg (run m cfg (.init t0 path) bs) i b.2 hrange hle
    · rw [hnone, List.append_nil]
      refine ⟨hapart, fun s hs => ?_⟩
      show s.1 + lo ≤ (step m cfg (run m cfg (.init t0 path) bs) b.2).1.nextTextT i
      rw [hkeep]
      exact hnext s hs
    · rw [hone]
      refine ⟨List.pairwise_append.2 ⟨hapart, List.pairwise_singleton _ _, fun s hs t ht => ?_⟩, ?_⟩
      · rw [List.mem_singleton.1 ht]
        exact (hnext s hs).trans hdue
      · intro s hs
        show s.1 + lo ≤ (step m cfg (run m cfg (.init t0 path) bs) b.2).1.nextTextT i
        rcases List.mem_append.1 hs with hs | hs
        · have hbefore := (hnext s hs).trans hdue
          linarith
        · rw [List.mem_singleton.1 hs]
          exact hlater

/-- After any run, an asset's text is of a seed that no other asset and no other refresh has, its revision
counts its refreshes, and the turns that refreshed it were apart as the range says. -/
theorem texts_fresh [FloorRing R] [IsStrictOrderedRing R] (m : Maths R) (cfg : FleetConfig R) (t0 : R)
    (path : Nat → Path R) (sampler : Nat → List Char) (lo hi : R) (hlo : 0 ≤ lo) (hle : lo ≤ hi) (bs : Batches R)
    (hbs : ∀ b ∈ bs, b.2.textSampler = some sampler ∧ b.2.textRefreshRangeS = (lo, hi)) (i : Nat) :
    let f := run m cfg (.init t0 path) bs
    let turns := refreshes m cfg i (.init t0 path) bs
    Revised sampler f i ∧ f.textRevision i = (turns.map Prod.snd).sum ∧
      (∀ j r, 1 ≤ f.textRevision i ∧ f.textRevision i ≤ 1000003 → 1 ≤ r ∧ r ≤ 1000003 →
        textSeed i (f.textRevision i) = textSeed j r → i = j ∧ f.textRevision i = r) ∧
      turns.Pairwise fun s t => s.1 + lo ≤ t.1 := by
  obtain ⟨hrevised, hcount, hapart, -⟩ := revised_run m cfg t0 path hlo hle hbs i
  exact ⟨hrevised, hcount, fun j r hrev hr h => textSeed_injective hrev hr h, hapart⟩

/-- An asset that is in the first turn twice, and in the second again. -/
theorem texts_fresh_twice :
    let turns : Batches ℚ := [⟨2, tryBatch ![3, 3] 1⟩, ⟨2, tryBatch ![5, 3] 40⟩]
    Revised (fun seed => (toString seed).toList) (run tryMaths .asItComes (.init 0 fun _ => tryPath) turns) 3 ∧
      (refreshes tryMaths .asItComes 3 (.init 0 fun _ => tryPath) turns).Pairwise fun s t => s.1 + 5 ≤ t.1 := by
  obtain ⟨hrevised, -, -, hapart⟩ := texts_fresh tryMaths .asItComes 0 (fun _ => tryPath)
    (fun seed => (toString seed).toList) 5 30 (by decide) (by decide)
    [⟨2, tryBatch ![3, 3] 1⟩, ⟨2, tryBatch ![5, 3] 40⟩] (by
      intro b hb
      simp only [List.mem_cons, List.not_mem_nil, or_false] at hb
      rcases hb with rfl | rfl <;> exact ⟨rfl, rfl⟩) 3
  exact ⟨hrevised, hapart⟩

end

end HtapStack.Fleet
