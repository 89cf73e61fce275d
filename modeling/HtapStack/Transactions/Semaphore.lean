import HtapStack.Lib.Keyed
import HtapStack.Transactions.Contention
import Mathlib.Data.String.Basic
/-!
# The clearances are a semaphore

`_run_grant` and `_run_release` of `backend/app/routes/transactions.py` run one
transaction on three tables, read off its projection what became of it, and read the
zone back. `clearance_demo` runs seven of them, then times pairs of a grant and a
release on a zone and a drone of their own.

- `clearances_are_a_semaphore`: whatever the sink, the grants and the releases did
  before, what is told of the next ones is what a semaphore tells: so many drones at
  a time for each zone, and one zone at a time for each drone.
- `clearance_demo_exact`: so three of the seven steps are applied and four are
  refused, each for its own reason, and every pair that is timed is applied twice.

The lock keeps the backend's other requests out meanwhile. Left out: the statement's
text and its projection in the report, and how long a step took.
-/

namespace HtapStack.Airspace
open Cql Runs Clearance Contention
open LedgerView hiding World Action step start Inv inv_step

/-! ## One request -/

inductive Request where
  | grant (zone entity : String) (grantedAt : Int)
  | release (zone entity : String)

def Request.zone : Request → String
  | .grant zone _ _ => zone
  | .release zone _ => zone

structure Call where
  action : String
  request : Request
  outcome : Outcome

/-- What is told of a call: the zone too, where it returned and the ledger has the zone. -/
structure Told where
  step : TransactionStep
  state : Option ClearanceZone
  deriving DecidableEq

/-- `_run_grant` or `_run_release`, with the zone read back. -/
def clearanceCall (l : Ledger) (c : Call) : Ledger × Told :=
  let done := match c.request with
    | .grant zone entity grantedAt => runGrant c.action zone entity grantedAt c.outcome l
    | .release zone entity => runRelease c.action zone entity c.outcome l
  (done.2, ⟨done.1, match c.outcome with
    | .returned => zoneOf c.request.zone (clearanceState done.2)
    | .raised _ _ => none⟩)

/-! ## The semaphore -/

/-- What a zone is called, and how many drones it admits. -/
structure Place where
  name : String
  severity : String
  capacity : Int

/-- The zones, and the zone that each drone is in. -/
structure Semaphore where
  zones : String → Option Place
  inside : Table String String

namespace Semaphore

/-- Who is in a zone. -/
def holders (s : Semaphore) (zone : String) : List String :=
  sorted ((s.inside.entries.filter fun e => e.2 = zone).map (·.1))

/-- Why a grant is refused, or nothing. -/
def refuseGrant (s : Semaphore) (zone entity : String) : String :=
  match s.zones zone, s.inside.lookup entity with
  | none, none => "the transaction projected nothing, so its guards cannot be read"
  | none, some _ => zone ++ " has no occupancy row, so there is no capacity to draw on"
  | some _, some held => entity ++ " already holds a clearance into " ++ held
  | some place, none =>
    if place.capacity ≤ (s.holders zone).length then
      zone ++ " is full: all " ++ toString place.capacity ++ " slots are held"
    else ""

/-- Why a release is refused, or nothing. -/
def refuseRelease (s : Semaphore) (zone entity : String) : String :=
  match s.inside.lookup entity with
  | none => "the transaction projected nothing, so its guards cannot be read"
  | some held => if held ≠ zone then entity ++ " holds a clearance into " ++ held ++ ", not into " ++ zone else ""

def refusal (s : Semaphore) : Request → String
  | .grant zone entity _ => s.refuseGrant zone entity
  | .release zone entity => s.refuseRelease zone entity

/-- What a request does that is not refused. -/
def accept (s : Semaphore) : Request → Semaphore
  | .grant zone entity _ => { s with inside := s.inside.insert entity zone }
  | .release _ entity => { s with inside := s.inside.erase entity }

def serve (s : Semaphore) (r : Request) : Semaphore := if s.refusal r = "" then s.accept r else s

def shown (s : Semaphore) (zone : String) : Option ClearanceZone :=
  (s.zones zone).map fun place => {
    zoneId := zone
    zoneName := place.name
    severity := place.severity
    capacity := place.capacity
    remaining := place.capacity - (s.holders zone).length
    holders := s.holders zone
    consistent := true }

def call (s : Semaphore) (c : Call) : Semaphore × Told :=
  match c.outcome with
  | .returned =>
    let reason := s.refusal c.request
    (s.serve c.request, ⟨⟨c.action, decide (reason = ""), reason, ""⟩, (s.serve c.request).shown c.request.zone⟩)
  | .raised message took => (if took then s.serve c.request else s, ⟨⟨c.action, false, "", message⟩, none⟩)

end Semaphore

/-- The semaphore that a ledger keeps. -/
def place (row : OccupancyRow) : Place := ⟨row.zoneName.getD "", row.severity.getD "", row.capacity.getD 0⟩

def kept (l : Ledger) : Semaphore where
  zones zone := (l.zoneOccupancy.lookup zone).map place
  inside := (l.droneClearance.entries.filterMap fun e => e.2.zoneId.map (Sigma.mk e.1)).toAList

/-- Every drone's row names a zone. -/
def Filled (l : Ledger) : Prop := ∀ e d, l.droneClearance.lookup e = some d → d.zoneId ≠ none

/-- The ledger holds what the semaphore says. -/
structure Holds (l : Ledger) (s : Semaphore) : Prop where
  consistent : Consistent l
  filled : Filled l
  zones : ∀ zone, s.zones zone = (l.zoneOccupancy.lookup zone).map place
  inside : ∀ e, s.inside.lookup e = (l.droneClearance.lookup e).bind (·.zoneId)

variable {l : Ledger} {s : Semaphore} {zone entity : String}

/-! ## What is read back -/

theorem sorted_perm {xs ys : List String} (h : xs.Perm ys) : sorted xs = sorted ys := by
  refine List.Perm.eq_of_pairwise' (List.pairwise_insertionSort (· ≤ ·) xs)
    (List.pairwise_insertionSort (· ≤ ·) ys) ?_
  exact ((List.perm_insertionSort _ xs).trans h).trans (List.perm_insertionSort _ ys).symm

theorem Semaphore.mem_holders {e : String} : e ∈ s.holders zone ↔ s.inside.lookup e = some zone := by
  rw [Semaphore.holders, sorted, List.mem_insertionSort, List.mem_map, ← Option.mem_def, AList.mem_lookup_iff]
  constructor
  · rintro ⟨⟨e, z⟩, he, rfl⟩
    obtain ⟨hmem, hz⟩ := List.mem_filter.1 he
    obtain rfl : z = zone := of_decide_eq_true hz
    exact hmem
  · intro he
    exact ⟨_, List.mem_filter.2 ⟨he, decide_eq_true rfl⟩, rfl⟩

theorem Semaphore.nodup_holders (s : Semaphore) (zone : String) : (s.holders zone).Nodup := by
  refine (List.perm_insertionSort _ _).nodup_iff.2 ?_
  exact s.inside.keys_nodup.sublist (List.filter_sublist.map _)

/-- The ledger has those drones in a zone that the semaphore has. -/
theorem Holds.holdersOf (h : Holds l s) (zone : String) : (holdersOf l zone).Perm (s.holders zone) := by
  refine (List.perm_ext_iff_of_nodup (nodup_holdersOf l zone) (s.nodup_holders zone)).2 fun e => ?_
  rw [mem_holdersOf, Semaphore.mem_holders, h.inside, h.consistent.mirror, Option.bind_eq_some_iff]

theorem Holds.holders (h : Holds l s) (zone : String) : Clearance.holders l zone = (s.holders zone).length := by
  rw [← length_holdersOf, (h.holdersOf zone).length_eq]

theorem zoneOf_none (hrow : l.zoneOccupancy.lookup zone = none) : zoneOf zone (clearanceState l) = none := by
  rw [zoneOf, List.find?_eq_none]
  intro z hz
  simp only [clearanceState, report, List.mem_insertionSort, List.mem_map] at hz
  obtain ⟨r, hr, rfl⟩ := hz
  rw [beq_iff_eq]
  rintro rfl
  rw [clearanceZone, mem_occupancyRows.1 hr] at hrow
  cases hrow

/-- The zone read back is the semaphore's. -/
theorem Holds.shown (h : Holds l s) (zone : String) : zoneOf zone (clearanceState l) = s.shown zone := by
  rw [Semaphore.shown, h.zones]
  cases hrow : l.zoneOccupancy.lookup zone with
  | none => exact zoneOf_none hrow
  | some row =>
    obtain ⟨c, n, hc, hn, hsum, -⟩ := h.consistent.slots zone row hrow
    have hholders : sorted (LedgerView.holdersOf l zone) = s.holders zone :=
      (sorted_perm (h.holdersOf zone)).trans (sorted_perm (List.perm_insertionSort _ _))
    rw [h.holders zone] at hsum
    have hremaining : n = c - (s.holders zone).length := by omega
    rw [zoneOf_eq hrow, clearanceZone, hholders, (h.holdersOf zone).length_eq, hc, hn, hremaining]
    simp [place, hc]

/-! ## What is told -/

theorem Holds.grantReason (h : Holds l s) (grantedAt : Int) :
    grantReason zone entity ((grantTxn zone entity grantedAt).projection l) = s.refuseGrant zone entity := by
  unfold Clearance.grantReason Semaphore.refuseGrant
  rw [h.zones, h.inside]
  cases ho : l.zoneOccupancy.lookup zone with
  | none =>
    cases hd : l.droneClearance.lookup entity with
    | none => simp [grantTxn, Txn.projection, occ, held, ho, hd]
    | some d =>
      obtain ⟨z, hz⟩ := Option.ne_none_iff_exists'.1 (h.filled entity d hd)
      simp [grantTxn, Txn.projection, Txn.env, Env.col, occ, held, ho, hd, hz]
  | some row =>
    obtain ⟨c, n, hc, hn, hsum, -⟩ := h.consistent.slots zone row ho
    rw [h.holders zone] at hsum
    cases hd : l.droneClearance.lookup entity with
    | none =>
      have hfull : n ≤ 0 ↔ c ≤ (s.holders zone).length := by omega
      simp [grantTxn, Txn.projection, Txn.env, Env.col, occ, held, ho, hd, hc, hn, hfull, pyStr, place]
    | some d =>
      obtain ⟨z, hz⟩ := Option.ne_none_iff_exists'.1 (h.filled entity d hd)
      simp [grantTxn, Txn.projection, Txn.env, Env.col, occ, held, ho, hd, hz, hn, pyStr]

theorem Holds.releaseReason (h : Holds l s) :
    releaseReason zone entity ((releaseTxn zone entity).projection l) = s.refuseRelease zone entity := by
  unfold Clearance.releaseReason Semaphore.refuseRelease
  rw [h.inside]
  cases hd : l.droneClearance.lookup entity with
  | none => simp [releaseTxn, Txn.projection, held, hd]
  | some d =>
    obtain ⟨z, hz⟩ := Option.ne_none_iff_exists'.1 (h.filled entity d hd)
    simp [releaseTxn, Txn.projection, Txn.env, Env.col, held, hd, hz, pyStr]

/-! ## What is done -/

theorem Holds.grant (h : Holds l s) (grantedAt : Int) :
    Holds ((grantTxn zone entity grantedAt).commit l) (s.serve (.grant zone entity grantedAt)) := by
  rw [Semaphore.serve, Semaphore.refusal, Txn.commit, ← h.grantReason grantedAt]
  by_cases hg : Grantable l zone entity
  · rw [if_pos (applies_grant.2 hg), if_pos (grantReason_empty.2 hg)]
    refine ⟨h.consistent.grant hg grantedAt, fun e d hd => ?_, fun z => ?_, fun e => ?_⟩
    · rw [lookup_drone_grant] at hd
      split at hd
      · obtain rfl := Option.some.inj hd
        exact Option.some_ne_none _
      · exact h.filled e d hd
    · rw [lookup_occupancy_grant]
      split
      · subst z
        rw [Option.map_map]
        exact h.zones zone
      · exact h.zones z
    · rw [lookup_drone_grant, Semaphore.accept]
      by_cases he : e = entity
      · subst he
        rw [if_pos rfl]
        exact AList.lookup_insert _
      · rw [if_neg he, ← h.inside e]
        exact AList.lookup_insert_ne he
  · rw [if_neg (applies_grant.not.2 hg), if_neg (grantReason_empty.not.2 hg)]
    exact h

theorem Holds.release (h : Holds l s) :
    Holds ((releaseTxn zone entity).commit l) (s.serve (.release zone entity)) := by
  rw [Semaphore.serve, Semaphore.refusal, Txn.commit, ← h.releaseReason]
  by_cases hr : Releasable l zone entity
  · rw [if_pos (applies_release.2 hr), if_pos (releaseReason_empty.2 hr)]
    refine ⟨h.consistent.release hr, fun e d hd => ?_, fun z => ?_, fun e => ?_⟩
    · rw [lookup_drone_release] at hd
      split at hd
      · cases hd
      · exact h.filled e d hd
    · rw [lookup_occupancy_release]
      split
      · subst z
        rw [Option.map_map]
        exact h.zones zone
      · exact h.zones z
    · rw [lookup_drone_release, Semaphore.accept]
      by_cases he : e = entity
      · subst he
        rw [if_pos rfl]
        exact AList.lookup_erase ..
      · rw [if_neg he, ← h.inside e]
        exact AList.lookup_erase_ne he
  · rw [if_neg (applies_release.not.2 hr), if_neg (releaseReason_empty.not.2 hr)]
    exact h

theorem Holds.told (h : Holds l s) (action : String) (reason : String) (zone : String) :
    (⟨⟨action, decide (reason = ""), reason, ""⟩, zoneOf zone (clearanceState l)⟩ : Told) =
      ⟨⟨action, decide (reason = ""), reason, ""⟩, s.shown zone⟩ := by
  rw [h.shown]

/-- A call leaves what the semaphore has, and is told what the semaphore tells. -/
theorem Holds.call (h : Holds l s) (c : Call) :
    Holds (clearanceCall l c).1 (s.call c).1 ∧ (clearanceCall l c).2 = (s.call c).2 := by
  obtain ⟨action, request, outcome⟩ := c
  cases request with
  | grant zone entity grantedAt =>
    have hafter : Holds _ (s.serve (.grant zone entity grantedAt)) := h.grant grantedAt
    cases outcome with
    | returned =>
      refine ⟨hafter, ?_⟩
      simp only [clearanceCall, runGrant, clearanceStep, Semaphore.call, Semaphore.refusal, h.grantReason]
      exact hafter.told _ _ _
    | raised message took =>
      cases took with
      | false => exact ⟨h, rfl⟩
      | true => exact ⟨hafter, rfl⟩
  | release zone entity =>
    have hafter : Holds _ (s.serve (.release zone entity)) := h.release
    cases outcome with
    | returned =>
      refine ⟨hafter, ?_⟩
      simp only [clearanceCall, runRelease, clearanceStep, Semaphore.call, Semaphore.refusal, h.releaseReason]
      exact hafter.told _ _ _
    | raised message took =>
      cases took with
      | false => exact ⟨h, rfl⟩
      | true => exact ⟨hafter, rfl⟩

/-! ## From the start -/

theorem dlookup_filterMap {K V W : Type} [DecidableEq K] (f : V → Option W) (es : List (Sigma fun _ : K => V))
    (hes : es.NodupKeys) (k : K) :
    (es.filterMap fun e => (f e.2).map (Sigma.mk (β := fun _ => W) e.1)).dlookup k = (es.dlookup k).bind f := by
  induction es with
  | nil => rfl
  | cons e es ih =>
    obtain ⟨a, v⟩ := e
    obtain ⟨hnew, hrest⟩ := List.nodupKeys_cons.1 hes
    rw [List.filterMap_cons]
    by_cases hk : k = a
    · subst hk
      rw [List.dlookup_cons_eq]
      cases hv : f v with
      | none =>
        simp only [Option.map_none, Option.bind_some, hv]
        rw [ih hrest, List.dlookup_eq_none.2 hnew]
        rfl
      | some w => simp only [Option.map_some, Option.bind_some, hv, List.dlookup_cons_eq]
    · rw [List.dlookup_cons_ne _ _ hk]
      cases hv : f v with
      | none => simpa only [Option.map_none, hv] using ih hrest
      | some w =>
        simp only [Option.map_some]
        rw [List.dlookup_cons_ne _ _ hk, ih hrest]

theorem holds_kept (hc : Consistent l) (hf : Filled l) : Holds l (kept l) := by
  refine ⟨hc, hf, fun _ => rfl, fun e => ?_⟩
  rw [kept, AList.lookup_to_alist]
  exact dlookup_filterMap (·.zoneId) _ l.droneClearance.nodupKeys e

theorem filled_step {w w' : World} {a : Action} (hf : Filled w.ledger) (h : step w a = some w') :
    Filled w'.ledger := by
  have htransact {cql : Binder (Txn Ledger)} {params : List Value} {took : Bool} {t : Txn Ledger} {l' : Ledger}
      (ht : bound cql params = some t) (hkeep : Filled (t.writes w.ledger))
      (hl : transact cql params took w.ledger = some l') : Filled l' := by
    rcases transact_cases ht hl with rfl | ⟨-, rfl⟩
    · exact hf
    · exact hkeep
  cases a with
  | seed =>
    obtain rfl := Option.some.inj h
    exact hf
  | readZone raises =>
    simp only [step] at h
    split at h
    · split at h
      · obtain rfl := Option.some.inj h
        exact hf
      · obtain rfl := Option.some.inj h
        exact hf
    · cases h
  | insertZone took =>
    simp only [step] at h
    split at h
    · obtain rfl := Option.some.inj h
      show Filled (if took = true then insertOccupancy _ w.ledger else w.ledger)
      split
      · exact hf
      · exact hf
    · cases h
  | grant zone entity grantedAt took =>
    simp only [step] at h
    obtain ⟨l', hl', rfl⟩ := Option.map_eq_some_iff.1 h
    refine htransact (bound_grant ..) (fun e d hd => ?_) hl'
    rw [lookup_drone_grant] at hd
    split at hd
    · obtain rfl := Option.some.inj hd
      exact Option.some_ne_none _
    · exact hf e d hd
  | release zone entity took =>
    simp only [step] at h
    obtain ⟨l', hl', rfl⟩ := Option.map_eq_some_iff.1 h
    refine htransact (bound_release ..) (fun e d hd => ?_) hl'
    rw [lookup_drone_release] at hd
    split at hd
    · cases hd
    · exact hf e d hd

/-- Whatever was done to the ledger, a semaphore says what it holds. -/
theorem holds_reached {as : List Action} {w : World} (h : exec step start as = some w) :
    Holds w.ledger (kept w.ledger) := by
  have hall : Always step (fun w => Consistent w.ledger ∧ Filled w.ledger) start as := by
    refine always_of_inv (I := fun w => Inv w ∧ Filled w.ledger) ?_ (fun _ hI => ⟨hI.1.1, hI.2⟩) ?_ as
    · rintro w a w' ⟨hI, hf⟩ hstep
      exact ⟨inv_step hI hstep, filled_step hf hstep⟩
    · exact ⟨⟨consistent_empty, by simp [start]⟩, by simp [start, Filled, Clearance.empty]⟩
  obtain ⟨hc, hf⟩ := hall.last h
  exact holds_kept hc hf

theorem Holds.run (h : Holds l s) (calls : List Call) :
    Holds (Keyed.run clearanceCall l calls).1 (Keyed.run Semaphore.call s calls).1 ∧
      (Keyed.run clearanceCall l calls).2 = (Keyed.run Semaphore.call s calls).2 := by
  refine Keyed.run_refines (R := Holds) (V := fun _ => True) ?_ h calls fun _ _ => trivial
  intro l s c h _
  exact h.call c

/-! ## The demonstration -/

def demoZone : String := "zone-oslo-airport"

def demoOtherZone : String := "zone-royal-palace"

def demoMeasureZone : String := "zone-fornebu"

/-- When a grant is made, and how the call ends. -/
abbrev Fate := Int × Outcome

/-- The seven steps. -/
def demoCalls (fates : Nat → Fate) : List Call :=
  [⟨"grant asset-000000 into zone-oslo-airport", .grant demoZone "asset-000000" (fates 0).1, (fates 0).2⟩,
    ⟨"replay the grant of asset-000000", .grant demoZone "asset-000000" (fates 1).1, (fates 1).2⟩,
    ⟨"grant asset-000000 a second clearance, into zone-royal-palace",
      .grant demoOtherZone "asset-000000" (fates 2).1, (fates 2).2⟩,
    ⟨"grant asset-000001 the last slot", .grant demoZone "asset-000001" (fates 3).1, (fates 3).2⟩,
    ⟨"grant asset-000002 into a full zone", .grant demoZone "asset-000002" (fates 4).1, (fates 4).2⟩,
    ⟨"release asset-000000", .release demoZone "asset-000000", (fates 5).2⟩,
    ⟨"release asset-000000 again", .release demoZone "asset-000000", (fates 6).2⟩]

/-- `_repeat_clearance`: how many of the grants and of the releases were applied. -/
def repeatClearance (grants releases : Nat → Fate) : Nat → Ledger → (Nat × Nat) × Ledger
  | 0, l => ((0, 0), l)
  | n + 1, l =>
    let before := repeatClearance grants releases n l
    let grant := runGrant "measure grant" demoMeasureZone "asset-measure" (grants n).1 (grants n).2 before.2
    let release := runRelease "measure release" demoMeasureZone "asset-measure" (releases n).2 grant.2
    ((before.1.1 + (if grant.1.applied then 1 else 0), before.1.2 + (if release.1.applied then 1 else 0)), release.2)

structure ClearanceDemoResult where
  steps : List Told
  state : ClearanceState
  repeats : Nat
  releases : Nat

/-- `clearance_demo`. -/
def clearanceDemo (outcome : String → String → Outcome) (fates grants releases : Nat → Fate) (repeats : Nat)
    (l : Ledger) : ClearanceDemoResult :=
  let run := Keyed.run clearanceCall (clearanceReset outcome l).2 (demoCalls fates)
  let repeated := repeatClearance grants releases repeats run.1
  { steps := run.2.map Prod.snd
    state := clearanceState repeated.2
    repeats := repeated.1.1
    releases := repeated.1.2 }

/-- Whatever the sink, the grants and the releases did before: the next calls are told what the semaphore tells
that the ledger keeps, it is what they leave, and no zone has more drones inside than it admits. -/
theorem clearances_are_a_semaphore (as : List Action) (w : World) (h : exec step start as = some w)
    (calls : List Call) :
    let done := Keyed.run clearanceCall w.ledger calls
    let served := Keyed.run Semaphore.call (kept w.ledger) calls
    done.2 = served.2 ∧
      (∀ zone, (kept done.1).zones zone = served.1.zones zone) ∧
      (∀ e, (kept done.1).inside.lookup e = served.1.inside.lookup e) ∧
      ∀ zone place, served.1.zones zone = some place → (served.1.holders zone).length ≤ place.capacity := by
  obtain ⟨hholds, htold⟩ := (holds_reached h).run calls
  refine ⟨htold, fun zone => (hholds.zones zone).symm, fun e => ?_, fun zone place hplace => ?_⟩
  · rw [(holds_kept hholds.consistent hholds.filled).inside, hholds.inside]
  · rw [hholds.zones, Option.map_eq_some_iff] at hplace
    obtain ⟨row, hrow, rfl⟩ := hplace
    obtain ⟨c, -, hc, -⟩ := hholds.consistent.slots zone row hrow
    have hle := hholds.consistent.holders_le hrow hc
    rw [hholds.holders zone] at hle
    simpa [place, hc] using hle

/-! ## What the demonstration shows -/

theorem Semaphore.zones_serve (s : Semaphore) (r : Request) : (s.serve r).zones = s.zones := by
  unfold Semaphore.serve
  split
  · cases r with
    | grant zone entity grantedAt => rfl
    | release zone entity => rfl
  · rfl

theorem Semaphore.zones_call (s : Semaphore) (c : Call) : (s.call c).1.zones = s.zones := by
  unfold Semaphore.call
  split
  · exact s.zones_serve c.request
  · split
    · exact s.zones_serve c.request
    · rfl

theorem Holds.releaseAll (h : Holds l s) (outcome : String → String → Outcome) (ps : List (String × String)) :
    ∃ s', Holds (releaseAll outcome ps l).2 s' ∧ s'.zones = s.zones := by
  induction ps generalizing l s with
  | nil => exact ⟨s, h, rfl⟩
  | cons p ps ih =>
    obtain ⟨zone, entity⟩ := p
    obtain ⟨s', hs', hzones⟩ := ih (h.call ⟨"release " ++ entity, .release zone entity, outcome zone entity⟩).1
    exact ⟨s', hs', hzones.trans (s.zones_call _)⟩

/-- After the reset the semaphore is empty. -/
theorem Holds.reset (h : Holds l s) : Holds (clearanceReset (fun _ _ => .returned) l).2 ⟨s.zones, ∅⟩ := by
  obtain ⟨s', hs', hzones⟩ := h.releaseAll (fun _ _ => .returned) (Contention.shown (clearanceState l))
  obtain ⟨-, hnone, -⟩ := clearanceReset_returned h.consistent
  refine ⟨hs'.consistent, hs'.filled, fun zone => ?_, fun e => ?_⟩
  · exact (congrFun hzones zone).symm.trans (hs'.zones zone)
  · cases hd : (clearanceReset (fun _ _ => .returned) l).2.droneClearance.lookup e with
    | none => rfl
    | some d => exact absurd (hnone e d hd) (hs'.filled e d hd)

section
variable {action : String} {grantedAt : Int} {at_ : Place}

theorem Semaphore.refuseGrant_held {held : String} (hzone : s.zones zone = some at_)
    (hheld : s.inside.lookup entity = some held) :
    s.refuseGrant zone entity = entity ++ " already holds a clearance into " ++ held := by
  simp only [Semaphore.refuseGrant, hzone, hheld]

theorem Semaphore.refuseGrant_full (hzone : s.zones zone = some at_) (hfree : s.inside.lookup entity = none)
    (hfull : at_.capacity ≤ (s.holders zone).length) :
    s.refuseGrant zone entity = zone ++ " is full: all " ++ toString at_.capacity ++ " slots are held" := by
  simp only [Semaphore.refuseGrant, hzone, hfree, if_pos hfull]

theorem Semaphore.call_granted (hzone : s.zones zone = some at_) (hfree : s.inside.lookup entity = none)
    (hroom : ((s.holders zone).length : Int) < at_.capacity) :
    s.call ⟨action, .grant zone entity grantedAt, .returned⟩ =
      (s.accept (.grant zone entity grantedAt),
        ⟨⟨action, true, "", ""⟩, (s.accept (.grant zone entity grantedAt)).shown zone⟩) := by
  have hgrant : s.refuseGrant zone entity = "" := by
    simp only [Semaphore.refuseGrant, hzone, hfree, if_neg (not_le.2 hroom)]
  simp only [Semaphore.call, Semaphore.serve, Semaphore.refusal, hgrant, if_true, decide_true, Request.zone]

theorem Semaphore.call_refused {request : Request} {reason : String} (hreason : s.refusal request = reason)
    (hne : reason ≠ "") : s.call ⟨action, request, .returned⟩ =
      (s, ⟨⟨action, false, reason, ""⟩, s.shown request.zone⟩) := by
  simp only [Semaphore.call, Semaphore.serve, hreason, if_neg hne, decide_eq_false hne]

theorem Semaphore.call_released (hheld : s.inside.lookup entity = some zone) :
    s.call ⟨action, .release zone entity, .returned⟩ =
      (s.accept (.release zone entity), ⟨⟨action, true, "", ""⟩, (s.accept (.release zone entity)).shown zone⟩) := by
  have hrelease : s.refuseRelease zone entity = "" := by
    simp only [Semaphore.refuseRelease, hheld, ne_eq, not_true, if_false]
  simp only [Semaphore.call, Semaphore.serve, Semaphore.refusal, hrelease, if_true, decide_true, Request.zone]

end

/-- What a semaphore says is what it looks up. -/
theorem Holds.congr {s' : Semaphore} (h : Holds l s) (hzones : s'.zones = s.zones)
    (hinside : ∀ e, s'.inside.lookup e = s.inside.lookup e) : Holds l s' :=
  ⟨h.consistent, h.filled, fun zone => hzones ▸ h.zones zone, fun e => (hinside e).trans (h.inside e)⟩

/-- A drone that is in no zone goes in and out of one with room, and leaves the ledger as it was. -/
theorem Holds.repeatClearance (h : Holds l s) {measured : Place} (hzone : s.zones demoMeasureZone = some measured)
    (hfree : s.inside.lookup "asset-measure" = none)
    (hroom : ((s.holders demoMeasureZone).length : Int) < measured.capacity) {grants releases : Nat → Fate}
    (hgrants : ∀ i, (grants i).2 = .returned) (hreleases : ∀ i, (releases i).2 = .returned) (n : Nat) :
    (repeatClearance grants releases n l).1 = (n, n) ∧ Holds (repeatClearance grants releases n l).2 s := by
  induction n with
  | zero => exact ⟨rfl, h⟩
  | succ n ih =>
    obtain ⟨hcount, hbefore⟩ := ih
    have hgrant := hbefore.call ⟨"measure grant", .grant demoMeasureZone "asset-measure" (grants n).1, .returned⟩
    rw [Semaphore.call_granted hzone hfree hroom] at hgrant
    obtain ⟨hinside, hgranted⟩ := hgrant
    have hrelease := hinside.call ⟨"measure release", .release demoMeasureZone "asset-measure", .returned⟩
    rw [Semaphore.call_released (AList.lookup_insert _)] at hrelease
    obtain ⟨houtside, hreleased⟩ := hrelease
    have hgranted' := congrArg (·.step.applied) hgranted
    have hreleased' := congrArg (·.step.applied) hreleased
    refine ⟨?_, ?_⟩
    · rw [Airspace.repeatClearance, hcount, hgrants, hreleases]
      exact Prod.ext (congrArg (n + ·) (if_pos hgranted')) (congrArg (n + ·) (if_pos hreleased'))
    · rw [Airspace.repeatClearance, hgrants, hreleases]
      refine houtside.congr rfl fun e => ?_
      by_cases he : e = "asset-measure"
      · subst he
        rw [hfree]
        exact (AList.lookup_erase "asset-measure" (s.inside.insert "asset-measure" demoMeasureZone)).symm
      · exact ((AList.lookup_erase_ne he).trans (AList.lookup_insert_ne he)).symm

/-- Nobody is in a zone under whose own row it is not. -/
theorem mismatched_nil (h : Consistent l) : (clearanceState l).mismatched = [] := by
  have hnone : ((occupancyRows l).flatMap fun row => unmirrored l row.1 (holdersOf l row.1)) = [] := by
    rw [List.flatMap_eq_nil_iff]
    intro row _
    rw [unmirrored, List.filter_eq_nil_iff]
    intro e he
    obtain ⟨d, hd, hz⟩ := (h.mirror row.1 e).1 (mem_holdersOf.1 he)
    simp [mirrors, hd, hz, pyStr]
  rw [clearanceState, report, hnone]
  rfl

/-- Who is inside after the first grant, the second and the release. -/
def oneInside : Table String String := AList.insert "asset-000000" demoZone ∅

def twoInside : Table String String := oneInside.insert "asset-000001" demoZone

def secondInside : Table String String := twoInside.erase "asset-000000"

theorem holders_secondInside (zones : String → Option Place) (zone : String) :
    (Semaphore.mk zones secondInside).holders zone = if zone = demoZone then ["asset-000001"] else [] := by
  have hentries : secondInside.entries = [⟨"asset-000001", demoZone⟩] := by decide
  rw [Semaphore.holders, hentries]
  by_cases hzone : zone = demoZone
  · subst hzone
    rfl
  · rw [if_neg hzone, List.filter_cons_of_neg (by simpa using Ne.symm hzone)]
    rfl

/-- The seven steps on an empty semaphore. -/
theorem run_demoCalls {zones : String → Option Place} {airport palace : Place}
    (hairport : zones demoZone = some airport) (hpalace : zones demoOtherZone = some palace)
    (htwo : airport.capacity = 2) {fates : Nat → Fate} (hfates : ∀ i, (fates i).2 = .returned) :
    let run := Keyed.run Semaphore.call ⟨zones, ∅⟩ (demoCalls fates)
    run.1 = ⟨zones, secondInside⟩ ∧
      (run.2.map Prod.snd).map (fun told => (told.step.applied, told.step.reason)) =
        [(true, ""), (false, "asset-000000 already holds a clearance into zone-oslo-airport"),
          (false, "asset-000000 already holds a clearance into zone-oslo-airport"), (true, ""),
          (false, "zone-oslo-airport is full: all 2 slots are held"), (true, ""),
          (false, "the transaction projected nothing, so its guards cannot be read")] ∧
      (run.2.map Prod.snd).map (fun told => told.state.map (·.remaining)) =
        [some 1, some 1, some palace.capacity, some 0, some 0, some 1, some 1] := by
  have hroom₀ : (((Semaphore.mk zones ∅).holders demoZone).length : Int) < airport.capacity := by
    rw [htwo]
    exact (by decide : (0 : Int) < 2)
  have hone : (Semaphore.mk zones oneInside).holders demoZone = ["asset-000000"] := by
    show sorted ((oneInside.entries.filter fun e => e.2 = demoZone).map (·.1)) = _
    decide
  have hpair : (Semaphore.mk zones twoInside).holders demoZone = ["asset-000000", "asset-000001"] := by
    show sorted ((twoInside.entries.filter fun e => e.2 = demoZone).map (·.1)) = _
    decide
  have hsecond := (holders_secondInside zones demoZone).trans (if_pos rfl)
  have h₀ (action : String) (t : Int) :
      Semaphore.call ⟨zones, ∅⟩ ⟨action, .grant demoZone "asset-000000" t, .returned⟩ =
        (⟨zones, oneInside⟩, ⟨⟨action, true, "", ""⟩, Semaphore.shown ⟨zones, oneInside⟩ demoZone⟩) :=
    Semaphore.call_granted hairport rfl hroom₀
  have h₁ (action : String) (t : Int) :
      Semaphore.call ⟨zones, oneInside⟩ ⟨action, .grant demoZone "asset-000000" t, .returned⟩ =
        (⟨zones, oneInside⟩, ⟨⟨action, false, "asset-000000 already holds a clearance into zone-oslo-airport", ""⟩,
          Semaphore.shown ⟨zones, oneInside⟩ demoZone⟩) := by
    refine Semaphore.call_refused ?_ (by decide)
    exact (Semaphore.refuseGrant_held hairport rfl).trans (by decide)
  have h₂ (action : String) (t : Int) :
      Semaphore.call ⟨zones, oneInside⟩ ⟨action, .grant demoOtherZone "asset-000000" t, .returned⟩ =
        (⟨zones, oneInside⟩, ⟨⟨action, false, "asset-000000 already holds a clearance into zone-oslo-airport", ""⟩,
          Semaphore.shown ⟨zones, oneInside⟩ demoOtherZone⟩) := by
    refine Semaphore.call_refused ?_ (by decide)
    exact (Semaphore.refuseGrant_held hpalace rfl).trans (by decide)
  have h₃ (action : String) (t : Int) :
      Semaphore.call ⟨zones, oneInside⟩ ⟨action, .grant demoZone "asset-000001" t, .returned⟩ =
        (⟨zones, twoInside⟩, ⟨⟨action, true, "", ""⟩, Semaphore.shown ⟨zones, twoInside⟩ demoZone⟩) := by
    refine Semaphore.call_granted hairport rfl ?_
    rw [hone, htwo]
    decide
  have h₄ (action : String) (t : Int) :
      Semaphore.call ⟨zones, twoInside⟩ ⟨action, .grant demoZone "asset-000002" t, .returned⟩ =
        (⟨zones, twoInside⟩, ⟨⟨action, false, "zone-oslo-airport is full: all 2 slots are held", ""⟩,
          Semaphore.shown ⟨zones, twoInside⟩ demoZone⟩) := by
    refine Semaphore.call_refused ?_ (by decide)
    have hfull : airport.capacity ≤ ((Semaphore.mk zones twoInside).holders demoZone).length := by
      rw [hpair, htwo]
      decide
    refine (Semaphore.refuseGrant_full hairport rfl hfull).trans ?_
    rw [htwo]
    decide
  have h₅ (action : String) :
      Semaphore.call ⟨zones, twoInside⟩ ⟨action, .release demoZone "asset-000000", .returned⟩ =
        (⟨zones, secondInside⟩, ⟨⟨action, true, "", ""⟩, Semaphore.shown ⟨zones, secondInside⟩ demoZone⟩) :=
    Semaphore.call_released rfl
  have h₆ (action : String) :
      Semaphore.call ⟨zones, secondInside⟩ ⟨action, .release demoZone "asset-000000", .returned⟩ =
        (⟨zones, secondInside⟩,
          ⟨⟨action, false, "the transaction projected nothing, so its guards cannot be read", ""⟩,
            Semaphore.shown ⟨zones, secondInside⟩ demoZone⟩) := by
    refine Semaphore.call_refused ?_ (by decide)
    rfl
  have hother : (Semaphore.mk zones oneInside).holders demoOtherZone = [] := by
    show sorted ((oneInside.entries.filter fun e => e.2 = demoOtherZone).map (·.1)) = _
    decide
  simp only [demoCalls, hfates, Keyed.run, h₀, h₁, h₂, h₃, h₄, h₅, h₆]
  refine ⟨trivial, rfl, ?_⟩
  simp only [List.map_cons, List.map_nil, Semaphore.shown, hairport, hpalace, hone, hpair, hsecond, hother, htwo,
    Option.map_some]
  simp

/-- Whatever was done to the ledger before: three of the seven steps are applied, four are refused for the
reasons that the page shows, every pair that is timed is applied, and the ledger adds up. -/
theorem clearance_demo_exact (as : List Action) (w : World) (h : exec step start as = some w)
    (airport palace measured : Place) (hairport : (kept w.ledger).zones demoZone = some airport)
    (hpalace : (kept w.ledger).zones demoOtherZone = some palace)
    (hmeasured : (kept w.ledger).zones demoMeasureZone = some measured) (htwo : airport.capacity = 2)
    (hroom : 0 < measured.capacity) (fates grants releases : Nat → Fate) (hfates : ∀ i, (fates i).2 = .returned)
    (hgrants : ∀ i, (grants i).2 = .returned) (hreleases : ∀ i, (releases i).2 = .returned) (repeats : Nat) :
    let result := clearanceDemo (fun _ _ => .returned) fates grants releases repeats w.ledger
    result.steps.map (fun told => (told.step.applied, told.step.reason)) =
        [(true, ""), (false, "asset-000000 already holds a clearance into zone-oslo-airport"),
          (false, "asset-000000 already holds a clearance into zone-oslo-airport"), (true, ""),
          (false, "zone-oslo-airport is full: all 2 slots are held"), (true, ""),
          (false, "the transaction projected nothing, so its guards cannot be read")] ∧
      result.steps.map (fun told => told.state.map (·.remaining)) =
        [some 1, some 1, some palace.capacity, some 0, some 0, some 1, some 1] ∧
      (∀ zone z, zoneOf zone result.state = some z →
        z.consistent = true ∧ z.holders = if zone = demoZone then ["asset-000001"] else []) ∧
      result.state.mismatched = [] ∧ result.repeats = repeats ∧ result.releases = repeats := by
  obtain ⟨hholds, htold⟩ := (holds_reached h).reset.run (demoCalls fates)
  obtain ⟨hafter, hsteps, hremaining⟩ := run_demoCalls hairport hpalace htwo hfates
  rw [hafter] at hholds
  obtain ⟨hcount, hend⟩ := hholds.repeatClearance hmeasured rfl hroom hgrants hreleases repeats
  dsimp only [clearanceDemo]
  rw [htold]
  refine ⟨hsteps, hremaining, fun zone z hz => ?_, mismatched_nil hend.consistent, ?_, ?_⟩
  · rw [hend.shown, Semaphore.shown, Option.map_eq_some_iff] at hz
    obtain ⟨place, -, rfl⟩ := hz
    exact ⟨rfl, holders_secondInside _ zone⟩
  · rw [hcount]
  · rw [hcount]

/-- The sink seeds its zones. -/
def seeding : List Action :=
  [.seed, .readZone false, .insertZone true, .readZone false, .insertZone true, .readZone false, .insertZone true]

def seeded : World :=
  ⟨demoZones.foldl (fun l z => insertOccupancy z l) Clearance.empty, [], false⟩

theorem exec_seeding : exec step start seeding = some seeded := rfl

/-- A grant that was made though its call raised, and another of the same drone. -/
def raisedGrant : List Call :=
  [⟨"grant", .grant demoZone "asset-000000" 0, .raised "timeout" true⟩,
    ⟨"grant", .grant demoOtherZone "asset-000000" 1, .returned⟩]

theorem clearances_are_a_semaphore_raised :
    (Keyed.run clearanceCall seeded.ledger raisedGrant).2 =
      (Keyed.run Semaphore.call (kept seeded.ledger) raisedGrant).2 :=
  (clearances_are_a_semaphore seeding seeded exec_seeding raisedGrant).1

theorem clearance_demo_exact_seeded :
    (clearanceDemo (fun _ _ => .returned) (fun _ => (0, .returned)) (fun _ => (0, .returned))
      (fun _ => (0, .returned)) 20 seeded.ledger).repeats = 20 := by
  have hall := clearance_demo_exact seeding seeded exec_seeding ⟨"Oslo Lufthavn Gardermoen", "critical", 2⟩
    ⟨"Det Kongelige Slott", "critical", 3⟩ ⟨"Fornebu Tech Park", "warning", 5⟩ rfl rfl rfl rfl (by decide)
    (fun _ => (0, .returned)) (fun _ => (0, .returned)) (fun _ => (0, .returned)) (fun _ => rfl) (fun _ => rfl)
    (fun _ => rfl) 20
  exact hall.2.2.2.2.1

end HtapStack.Airspace
