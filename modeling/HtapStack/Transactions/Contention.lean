import HtapStack.Transactions.LedgerView
/-!
# Contention for a zone

`clearance_contend` of `backend/app/routes/transactions.py` gives every clearance
back, lets many drones ask for one zone at the same time, and counts who got in.
Accord runs the grants one after another, in an order of its own.

- `reset_conserves`: giving the clearances back leaves what each zone's slots add up
  to as it was, be it right or wrong.
- `contention_exact`: whatever that order is, as many drones get in as the zone has
  slots, or all of them, and the ledger shows exactly those who were told so.

Left out: the lock, which refuses a second caller, and how long it all took.
-/

namespace HtapStack.Contention
open Cql Clearance LedgerView

/-! ## One transaction -/

/-- How a call of the driver ends. One that raises may have taken effect. -/
inductive Outcome where
  | returned
  | raised (message : String) (took : Bool)
  deriving DecidableEq

/-- The fields of `TransactionStep` that are read again. -/
structure TransactionStep where
  action : String
  applied : Bool
  reason : String
  error : String
  deriving DecidableEq

/-- Run one clearance transaction, bound as in `bound_grant` or `bound_release`,
and read off the row it returns whether it was applied. -/
def clearanceStep (action : String) (txn : Txn Ledger) (reasonOf : Dict → String) (outcome : Outcome)
    (l : Ledger) : TransactionStep × Ledger :=
  match outcome with
  | .returned =>
    let reason := reasonOf (txn.projection l)
    (⟨action, decide (reason = ""), reason, ""⟩, txn.commit l)
  | .raised message took => (⟨action, false, "", message⟩, if took then txn.commit l else l)

def runGrant (action zone entity : String) (grantedAt : Int) (outcome : Outcome) (l : Ledger) :
    TransactionStep × Ledger :=
  clearanceStep action (grantTxn zone entity grantedAt) (grantReason zone entity) outcome l

def runRelease (action zone entity : String) (outcome : Outcome) (l : Ledger) : TransactionStep × Ledger :=
  clearanceStep action (releaseTxn zone entity) (releaseReason zone entity) outcome l

/-! ## The reset -/

/-- Every clearance shown, by zone and drone. -/
def shown (s : ClearanceState) : List (String × String) :=
  s.zones.flatMap fun z => z.holders.map fun e => (z.zoneId, e)

/-- Give the clearances back one by one, each with the transaction that a caller
would use. -/
def releaseAll (outcome : String → String → Outcome) : List (String × String) → Ledger → List String × Ledger
  | [], l => ([], l)
  | (zone, entity) :: rest, l =>
    let step := runRelease ("release " ++ entity) zone entity (outcome zone entity) l
    let done := releaseAll outcome rest step.2
    let action := if step.1.applied then "released " ++ entity ++ " from " ++ zone
      else "could not release " ++ entity ++ " from " ++ zone ++ ": " ++
        if step.1.reason = "" then step.1.error else step.1.reason
    (action :: done.1, done.2)

/-- `_clearance_reset`. -/
def clearanceReset (outcome : String → String → Outcome) (l : Ledger) : List String × Ledger :=
  releaseAll outcome (shown (clearanceState l)) l

/-! ## The contention -/

/-- One drone's grant, as Accord comes to it. -/
structure Ask where
  entity : String
  grantedAt : Int
  outcome : Outcome

/-- The grants in the order that Accord runs them, with what each drone is told. -/
def asks (zone : String) : List Ask → Ledger → List (String × TransactionStep) × Ledger
  | [], l => ([], l)
  | a :: rest, l =>
    let step := runGrant ("grant " ++ a.entity) zone a.entity a.grantedAt a.outcome l
    let done := asks zone rest step.2
    ((a.entity, step.1) :: done.1, done.2)

/-- A drone of the fleet: its index in six digits, or more. -/
def assetId (index : Nat) : String :=
  String.ofList ("asset-".toList ++ (Nat.toDigits 10 index).leftpad 6 '0')

def entityIds (askers : Nat) : List String := (List.range askers).map assetId

structure ClearanceContentionResult where
  zoneId : String
  capacity : Int
  askers : Nat
  granted : Nat
  refused : Nat
  winners : List String
  errors : List String
  zone : Option ClearanceZone

def zoneOf (zone : String) (s : ClearanceState) : Option ClearanceZone := s.zones.find? (·.zoneId == zone)

/-- `clearance_contend`, or the status and detail of the error it answers with. -/
def clearanceContend (zone : String) (askers : Nat) (outcome : String → String → Outcome) (order : List Ask)
    (l : Ledger) : Except (Nat × String) ClearanceContentionResult × Ledger :=
  let l := (clearanceReset outcome l).2
  match zoneOf zone (clearanceState l) with
  | none => (.error (404, zone ++ " has no occupancy row"), l)
  | some before =>
    let run := asks zone order l
    -- The pool returns the steps in the order of the drones, whoever came first.
    let steps := (entityIds askers).filterMap fun e => run.1.lookup e
    let after := zoneOf zone (clearanceState run.2)
    (.ok {
      zoneId := zone
      capacity := before.capacity
      askers := askers
      granted := steps.countP fun step => step.applied
      refused := steps.countP fun step => !step.applied && step.error = ""
      winners := (after.map fun z => sorted z.holders).getD []
      errors := (steps.filter fun step => step.error ≠ "").map fun step => step.action ++ ": " ++ step.error
      zone := after }, run.2)

/-! ## What the reset leaves -/

section
variable {l : Ledger} {zone entity : String} {row : OccupancyRow}

theorem release_of_releasable (h : Releasable l zone entity) (action : String) :
    (runRelease action zone entity .returned l).2 = (releaseTxn zone entity).writes l :=
  if_pos (applies_release.2 h)

theorem release_of_not_releasable (h : ¬ Releasable l zone entity) (action : String) :
    (runRelease action zone entity .returned l).2 = l :=
  if_neg (applies_release.not.2 h)

/-- A drone's clearance is into one zone, and once that is given back into none. -/
theorem releasable_release {z e : String} (h : Releasable l zone entity) :
    Releasable ((releaseTxn zone entity).writes l) z e ↔ (z, e) ≠ (zone, entity) ∧ Releasable l z e := by
  unfold Releasable at h ⊢
  rw [lookup_drone_release]
  by_cases he : e = entity
  · subst he
    obtain ⟨d, hd, hz⟩ := h
    simp [hd, hz, eq_comm]
  · simp [he]

/-- Of the clearances to give back, those whose two sides agree come off the ledger,
and their slots come back. -/
theorem releaseAll_returned (ps : List (String × String)) (hnodup : ps.Nodup)
    (hheld : ∀ p ∈ ps, p ∈ l.zoneClearance) :
    (∀ k, k ∈ (releaseAll (fun _ _ => .returned) ps l).2.zoneClearance ↔
      k ∈ l.zoneClearance ∧ ¬(k ∈ ps ∧ Releasable l k.1 k.2)) ∧
    (∀ e d, (releaseAll (fun _ _ => .returned) ps l).2.droneClearance.lookup e = some d ↔
      l.droneClearance.lookup e = some d ∧ ∀ z, (z, e) ∈ ps → d.zoneId ≠ some z) ∧
    ∀ z, ∃ n : Nat, (releaseAll (fun _ _ => .returned) ps l).2.zoneOccupancy.lookup z =
        (l.zoneOccupancy.lookup z).map (fun r => { r with remaining := r.remaining.map (· + (n : Int)) }) ∧
      holders (releaseAll (fun _ _ => .returned) ps l).2 z + n = holders l z := by
  induction ps generalizing l with
  | nil => exact ⟨fun k => by simp [releaseAll], fun e => by simp [releaseAll], fun z => ⟨0, by simp [releaseAll]⟩⟩
  | cons p ps ih =>
    obtain ⟨zone, entity⟩ := p
    obtain ⟨hnew, hnodup⟩ := List.nodup_cons.1 hnodup
    obtain ⟨hp, hheld⟩ := List.forall_mem_cons.1 hheld
    simp only [releaseAll]
    by_cases hrel : Releasable l zone entity
    · rw [release_of_releasable hrel]
      obtain ⟨hmem, hdrone, hrows⟩ := ih hnodup fun q hq =>
        mem_zoneClearance_release.2 ⟨fun h => hnew (h ▸ hq), hheld q hq⟩
      refine ⟨fun k => ?_, fun e d => ?_, fun z => ?_⟩
      · rw [hmem, mem_zoneClearance_release, releasable_release hrel, List.mem_cons]
        by_cases hk : k = (zone, entity)
        · subst hk
          simp [hrel]
        · simp [hk]
      · rw [hdrone, lookup_drone_release]
        by_cases he : e = entity
        · subst he
          obtain ⟨d', hd', hz⟩ := hrel
          simp only [if_true, reduceCtorEq, false_and, hd', Option.some.injEq, false_iff, not_and]
          rintro rfl h
          exact h zone List.mem_cons_self hz
        · simp [he]
      · obtain ⟨n, hrow, hcount⟩ := hrows z
        have hholders := holders_release hp z
        rw [lookup_occupancy_release] at hrow
        by_cases hz : z = zone
        · subst hz
          rw [if_pos rfl] at hrow hholders
          refine ⟨n + 1, ?_, by omega⟩
          rw [hrow]
          cases l.zoneOccupancy.lookup z with
          | none => rfl
          | some r =>
            cases hr : r.remaining with
            | none => simp [hr]
            | some m =>
              simp only [Option.map_some, hr, Option.some.injEq, OccupancyRow.mk.injEq, true_and]
              omega
        · rw [if_neg (Ne.symm hz)] at hholders
          rw [if_neg hz] at hrow
          exact ⟨n, hrow, by omega⟩
    · rw [release_of_not_releasable hrel]
      obtain ⟨hmem, hdrone, hrows⟩ := ih hnodup hheld
      refine ⟨fun k => ?_, fun e d => ?_, hrows⟩
      · rw [hmem, List.mem_cons]
        by_cases hk : k = (zone, entity)
        · subst hk
          simp [hrel]
        · simp [hk]
      · rw [hdrone]
        refine and_congr_right fun hd => ⟨fun h z hz => ?_, fun h z hz => h z (List.mem_cons_of_mem _ hz)⟩
        rcases List.mem_cons.1 hz with heq | hz
        · cases heq
          exact fun hzone => hrel ⟨d, hd, hzone⟩
        · exact h z hz

theorem mem_shown {k : String × String} :
    k ∈ shown (clearanceState l) ↔ k ∈ l.zoneClearance ∧ k.1 ∈ l.zoneOccupancy := by
  simp only [shown, clearanceState, report, List.mem_flatMap, List.mem_insertionSort, List.mem_map]
  constructor
  · rintro ⟨_, ⟨row, hrow, rfl⟩, e, he, rfl⟩
    simp only [clearanceZone, sorted, List.mem_insertionSort] at he
    exact ⟨mem_holdersOf.1 he, AList.lookup_isSome.1 (by simp [clearanceZone, mem_occupancyRows.1 hrow])⟩
  · rintro ⟨hk, hzone⟩
    obtain ⟨r, hr⟩ := Option.isSome_iff_exists.1 (AList.lookup_isSome.2 hzone)
    have hrow : (k.1, r) ∈ occupancyRows l := mem_occupancyRows.2 hr
    exact ⟨_, ⟨(k.1, r), hrow, rfl⟩, k.2, by simpa [clearanceZone, sorted, mem_holdersOf] using hk, rfl⟩

theorem nodup_shown (l : Ledger) : (shown (clearanceState l)).Nodup := by
  have hzones : ((clearanceState l).zones.map (·.zoneId)).Nodup := by
    have hperm := (List.perm_insertionSort (fun a b : ClearanceZone => a.zoneId ≤ b.zoneId)
      ((occupancyRows l).map fun row => clearanceZone row (holdersOf l row.1))).map (·.zoneId)
    refine hperm.nodup_iff.2 ?_
    rw [List.map_map]
    have hkeys : (occupancyRows l).map (fun row => row.1) = l.zoneOccupancy.keys := by
      simp [occupancyRows, AList.keys, List.keys, Function.comp_def]
    exact hkeys ▸ l.zoneOccupancy.keys_nodup
  refine List.nodup_flatMap.2 ⟨fun z hz => ?_, (List.pairwise_map.1 hzones).imp fun hne => ?_⟩
  · simp only [clearanceState, report, List.mem_insertionSort, List.mem_map] at hz
    obtain ⟨row, -, rfl⟩ := hz
    exact ((List.perm_insertionSort _ _).nodup_iff.2 (nodup_holdersOf l row.1)).map fun _ _ h => (Prod.mk.inj h).2
  · rintro k hk hk'
    obtain ⟨e, -, rfl⟩ := List.mem_map.1 hk
    obtain ⟨e', -, h⟩ := List.mem_map.1 hk'
    exact hne (Prod.mk.inj h).1.symm

/-- After a reset nobody holds a clearance, and every slot remains. -/
theorem clearanceReset_returned (h : Consistent l) :
    (∀ k, k ∉ (clearanceReset (fun _ _ => .returned) l).2.zoneClearance) ∧
    (∀ e d, (clearanceReset (fun _ _ => .returned) l).2.droneClearance.lookup e = some d → d.zoneId = none) ∧
    ∀ z r, l.zoneOccupancy.lookup z = some r →
      (clearanceReset (fun _ _ => .returned) l).2.zoneOccupancy.lookup z = some { r with remaining := r.capacity } := by
  obtain ⟨hmem, hdrone, hrows⟩ := releaseAll_returned _ (nodup_shown l) fun p hp => (mem_shown.1 hp).1
  have hnone : ∀ k, k ∉ (clearanceReset (fun _ _ => .returned) l).2.zoneClearance := fun k hk => by
    obtain ⟨hk, hkept⟩ := (hmem k).1 hk
    exact hkept ⟨mem_shown.2 ⟨hk, h.zoned _ _ hk⟩, (h.mirror _ _).1 hk⟩
  refine ⟨hnone, fun e d hd => ?_, fun z r hr => ?_⟩
  · obtain ⟨hd, hother⟩ := (hdrone e d).1 hd
    cases hz : d.zoneId with
    | none => rfl
    | some z =>
      have hk := (h.mirror z e).2 ⟨d, hd, hz⟩
      exact absurd hz (hother z (mem_shown.2 ⟨hk, h.zoned _ _ hk⟩))
  · obtain ⟨n, hrow, hcount⟩ := hrows z
    obtain ⟨c, m, hcap, hrem, hsum, -⟩ := h.slots z r hr
    have h0 : holders (clearanceReset (fun _ _ => .returned) l).2 z = 0 :=
      Table.countKeys_eq_zero.2 fun k hk => absurd hk (hnone k)
    have hn : n = holders l z := by
      rw [← hcount]
      exact (congrArg (· + n) h0).trans (Nat.zero_add n) |>.symm
    have hfull : m + (n : Int) = c := by omega
    refine hrow.trans ?_
    simp [hr, hrem, hcap, hfull]

variable (l) in
/-- Whatever the ledger: the reset takes off it the clearances whose two sides agree,
and each zone's slots add up as they did before, or failed to. From a ledger that
agrees with itself all slots are left, and nobody holds one. -/
theorem reset_conserves :
    let l' : Ledger := (clearanceReset (fun _ _ => .returned) l).2
    (∀ z row (c n : Int), l.zoneOccupancy.lookup z = some row → row.capacity = some c → row.remaining = some n →
      ∃ n', l'.zoneOccupancy.lookup z = some { row with remaining := some n' } ∧
        c - n' - holders l' z = c - n - holders l z) ∧
    (∀ z e, (z, e) ∈ l'.zoneClearance ↔
      (z, e) ∈ l.zoneClearance ∧ ¬(z ∈ l.zoneOccupancy ∧ Releasable l z e)) ∧
    (Balanced l → ∀ z row, l.zoneOccupancy.lookup z = some row →
      holders l' z = 0 ∧ l'.zoneOccupancy.lookup z = some { row with remaining := row.capacity }) := by
  obtain ⟨hmem, -, hrows⟩ := releaseAll_returned _ (nodup_shown l) fun p hp => (mem_shown.1 hp).1
  have hleft (z e : String) : (z, e) ∈ (clearanceReset (fun _ _ => .returned) l).2.zoneClearance ↔
      (z, e) ∈ l.zoneClearance ∧ ¬(z ∈ l.zoneOccupancy ∧ Releasable l z e) := by
    rw [clearanceReset, hmem, mem_shown]
    tauto
  refine ⟨fun z row c n hrow _ hn => ?_, hleft, fun hb z row hrow => ?_⟩
  · obtain ⟨k, hrow', hcount⟩ := hrows z
    refine ⟨n + k, hrow'.trans (by simp [hrow, hn]), ?_⟩
    have hcount' : holders (clearanceReset (fun _ _ => .returned) l).2 z + k = holders l z := hcount
    omega
  · obtain ⟨k, hrow', hcount⟩ := hrows z
    obtain ⟨c, n, hc, hn, hsum⟩ := hb.slots z row hrow
    have h0 : holders (clearanceReset (fun _ _ => .returned) l).2 z = 0 := by
      refine Table.countKeys_eq_zero.2 fun p hp => beq_eq_false_iff_ne.2 ?_
      rintro rfl
      obtain ⟨hheld, hkept⟩ := (hleft p.1 p.2).1 hp
      exact hkept ⟨AList.lookup_isSome.1 (by simp [hrow]), (hb.mirror _ _).1 hheld⟩
    have hk : n + (k : Int) = c := by
      have hcount' : holders (clearanceReset (fun _ _ => .returned) l).2 z + k = holders l z := hcount
      omega
    exact ⟨h0, hrow'.trans (by simp [hrow, hn, hc, hk])⟩

end

/-! ## Who gets in -/

/-- While drones without a clearance ask for a zone, the first ones get in, as
many as it has slots left, and each is told so exactly if it got in. -/
theorem asks_spec {l : Ledger} {zone : String} {row : OccupancyRow} {n : Nat} {order : List Ask}
    (hrow : l.zoneOccupancy.lookup zone = some row) (hn : row.remaining = some (n : Int))
    (hfree : ∀ a ∈ order, ∀ d, l.droneClearance.lookup a.entity = some d → d.zoneId = none)
    (hnodup : (order.map Ask.entity).Nodup) (hok : ∀ a ∈ order, a.outcome = .returned) :
    (asks zone order l).1.map Prod.fst = order.map Ask.entity ∧
    ((asks zone order l).1.filter (·.2.applied)).map Prod.fst = (order.take n).map Ask.entity ∧
    (∀ x ∈ (asks zone order l).1, x.2.error = "") ∧
    (asks zone order l).2.zoneOccupancy.lookup zone =
      some { row with remaining := some ((n : Int) - min order.length n) } ∧
    ∀ k, k ∈ (asks zone order l).2.zoneClearance ↔
      k ∈ l.zoneClearance ∨ ∃ a ∈ order.take n, k = (zone, a.entity) := by
  induction order generalizing l row n with
  | nil =>
    refine ⟨rfl, by simp [asks], by simp [asks], ?_, by simp [asks]⟩
    simp [asks, hrow, ← hn]
  | cons a order ih =>
    rw [List.forall_mem_cons] at hfree hok
    rw [List.map_cons, List.nodup_cons] at hnodup
    have hguard : Grantable l zone a.entity ↔ 0 < n := by
      constructor
      · rintro ⟨⟨r, m, hr, hm, hpos⟩, -⟩
        obtain rfl : row = r := by simpa [hrow] using hr
        obtain rfl : (n : Int) = m := by simpa [hn] using hm
        omega
      · exact fun hpos => ⟨⟨row, n, hrow, hn, by omega⟩, hfree.1⟩
    have hreturned (action : String) : runGrant action zone a.entity a.grantedAt .returned l =
        (⟨action, decide (grantReason zone a.entity ((grantTxn zone a.entity a.grantedAt).projection l) = ""),
          grantReason zone a.entity ((grantTxn zone a.entity a.grantedAt).projection l), ""⟩,
          (grantTxn zone a.entity a.grantedAt).commit l) := rfl
    simp only [asks, hok.1, hreturned]
    have hverdict : grantReason zone a.entity ((grantTxn zone a.entity a.grantedAt).projection l) = "" ↔
        Grantable l zone a.entity := grantReason_empty
    by_cases hpos : 0 < n
    · -- A slot is left: the drone gets it.
      obtain ⟨n, rfl⟩ : ∃ m, n = m + 1 := ⟨n - 1, by omega⟩
      have hg := hguard.2 hpos
      have hcommit : (grantTxn zone a.entity a.grantedAt).commit l =
          (grantTxn zone a.entity a.grantedAt).writes l := if_pos (applies_grant.2 hg)
      have hfree' : ∀ b ∈ order, ∀ d, ((grantTxn zone a.entity a.grantedAt).writes l).droneClearance.lookup
          b.entity = some d → d.zoneId = none := by
        intro b hb d hd
        rw [lookup_drone_grant, if_neg] at hd
        · exact hfree.2 b hb d hd
        · intro heq
          exact hnodup.1 (heq ▸ List.mem_map_of_mem hb)
      obtain ⟨h₁, h₂, h₃, h₄, h₅⟩ := @ih ((grantTxn zone a.entity a.grantedAt).writes l)
        { row with remaining := some (n : Int) } n
        (by simp [lookup_occupancy_grant, hrow, hn]) rfl hfree' hnodup.2 hok.2
      rw [hcommit]
      refine ⟨by simp [h₁], by simp [hverdict.2 hg, h₂], ?_, ?_, fun k => ?_⟩
      · simpa using h₃
      · rw [h₄]
        simp only [List.length_cons, Option.some.injEq, OccupancyRow.mk.injEq, true_and]
        omega
      · rw [h₅, mem_zoneClearance_grant]
        simp only [List.take_succ_cons, List.mem_cons, exists_eq_or_imp]
        tauto
    · -- The zone is full, and stays as it is.
      obtain rfl : n = 0 := by omega
      have hg : ¬ Grantable l zone a.entity := fun hg => hpos (hguard.1 hg)
      have hcommit : (grantTxn zone a.entity a.grantedAt).commit l = l := if_neg (applies_grant.not.2 hg)
      obtain ⟨h₁, h₂, h₃, h₄, h₅⟩ := ih hrow hn hfree.2 hnodup.2 hok.2
      rw [hcommit]
      refine ⟨by simp [h₁], by simpa [hverdict.not.2 hg] using h₂, by simpa using h₃, ?_, ?_⟩
      · simpa using h₄
      · simpa using h₅

/-! ## The tally -/

theorem assetId_inj {i j : Nat} (h : assetId i = assetId j) : i = j := by
  have hdigits := List.append_cancel_left (String.ofList_injective h)
  have hread (k : Nat) : Nat.ofDigitChars 10 ((Nat.toDigits 10 k).leftpad 6 '0') 0 = k := by
    rw [List.leftpad, Nat.ofDigitChars_append, Nat.ofDigitChars_replicate_zero, Nat.mul_zero,
      Nat.ofDigitChars_ten_toDigits]
  rw [← hread i, hdigits, hread j]

theorem nodup_entityIds (askers : Nat) : (entityIds askers).Nodup :=
  List.nodup_range.map fun _ _ => assetId_inj

/-- Looking each name up returns what is listed for it. -/
theorem filterMap_lookup {V : Type} {ps : List (String × V)} (h : (ps.map Prod.fst).Nodup) :
    (ps.map Prod.fst).filterMap (ps.lookup ·) = ps.map Prod.snd := by
  induction ps with
  | nil => rfl
  | cons p ps ih =>
    rw [List.map_cons, List.nodup_cons] at h
    have htail : (ps.map Prod.fst).filterMap (fun k => (p :: ps).lookup k) =
        (ps.map Prod.fst).filterMap (ps.lookup ·) := by
      refine List.filterMap_congr fun k hk => ?_
      have hne : (k == p.1) = false := beq_eq_false_iff_ne.2 fun heq => h.1 (heq ▸ hk)
      rw [List.lookup_cons, hne]
    have hhead : (p :: ps).lookup p.1 = some p.2 := by rw [List.lookup_cons, beq_self_eq_true]
    rw [List.map_cons, List.filterMap_cons, htail, ih h.2, hhead, List.map_cons]

/-- The zone shown under a name is the one the ledger has. -/
theorem zoneOf_eq {l : Ledger} {zone : String} {row : OccupancyRow}
    (hrow : l.zoneOccupancy.lookup zone = some row) :
    zoneOf zone (clearanceState l) = some (clearanceZone (zone, row) (holdersOf l zone)) := by
  have hmem : ∀ z, z ∈ (clearanceState l).zones ↔
      ∃ r ∈ occupancyRows l, clearanceZone r (holdersOf l r.1) = z := fun z => by
    simp only [clearanceState, report, List.mem_insertionSort, List.mem_map]
  cases hf : zoneOf zone (clearanceState l) with
  | none =>
    have := List.find?_eq_none.1 hf _ ((hmem _).2 ⟨(zone, row), mem_occupancyRows.2 hrow, rfl⟩)
    simp [clearanceZone] at this
  | some z =>
    obtain ⟨r, hr, rfl⟩ := (hmem z).1 (List.mem_of_find?_eq_some hf)
    have hzone : r.1 = zone := by simpa [clearanceZone] using List.find?_some hf
    have hr' := mem_occupancyRows.1 hr
    rw [hzone, hrow, Option.some.injEq] at hr'
    rw [← hzone, hr']

/-- Where no call raises, who is not granted is refused. -/
theorem countP_refused {steps : List TransactionStep} (h : ∀ step ∈ steps, step.error = "") :
    steps.countP (fun step => !step.applied && step.error = "") =
      steps.length - steps.countP fun step => step.applied := by
  have hsplit := steps.length_eq_countP_add_countP fun step => step.applied
  have hrefused : steps.countP (fun step => !step.applied && step.error = "") =
      steps.countP fun step => decide ¬step.applied = true :=
    List.countP_congr fun step hs => by simp [h step hs]
  omega

/-- Whatever the order in which Accord runs the grants: as many drones get in as
the zone has slots, those and no others are told so, and the slots they leave
remain. -/
theorem contention_exact {l : Ledger} (h : Consistent l) {zone : String} {row : OccupancyRow} {c : Nat}
    (hrow : l.zoneOccupancy.lookup zone = some row) (hcap : row.capacity = some (c : Int)) (n : Nat)
    (order : List Ask) (hperm : (order.map Ask.entity).Perm (entityIds n))
    (hok : ∀ a ∈ order, a.outcome = .returned) :
    ∃ result l', clearanceContend zone n (fun _ _ => .returned) order l = (.ok result, l') ∧
      result.capacity = c ∧ result.askers = n ∧ result.errors = [] ∧
      result.granted = min n c ∧ result.refused = n - min n c ∧
      result.winners.Perm (((asks zone order (clearanceReset (fun _ _ => .returned) l).2).1.filter
        (·.2.applied)).map Prod.fst) ∧
      (∀ e, e ∈ result.winners ↔ (zone, e) ∈ l'.zoneClearance) ∧
      l'.zoneOccupancy.lookup zone = some { row with remaining := some ((c : Int) - min n c) } ∧
      result.zone.map (·.remaining) = some ((c : Int) - min n c) := by
  obtain ⟨hnone, hfree, hfull⟩ := clearanceReset_returned h
  have hrow₁ := hfull zone row hrow
  have hlen : order.length = n := by simpa [entityIds] using hperm.length_eq
  have hnodup : (order.map Ask.entity).Nodup := hperm.nodup_iff.2 (nodup_entityIds n)
  obtain ⟨hnames, hin, herr, hrow₂, hmem⟩ := asks_spec hrow₁ hcap (fun a _ d => hfree a.entity d) hnodup hok
  rw [hlen] at hrow₂
  -- The steps, in whatever order, are those of the run.
  have hsteps : ((entityIds n).filterMap fun e =>
      (asks zone order (clearanceReset (fun _ _ => .returned) l).2).1.lookup e).Perm
        ((asks zone order (clearanceReset (fun _ _ => .returned) l).2).1.map Prod.snd) := by
    rw [← filterMap_lookup (hnames ▸ hnodup), hnames]
    exact hperm.symm.filterMap _
  generalize hrun : asks zone order (clearanceReset (fun _ _ => .returned) l).2 = run at *
  simp only at hrow₂
  have hcount : (run.1.map Prod.snd).countP (fun step => step.applied) = min n c := by
    have := congrArg List.length hin
    rw [List.countP_map, List.countP_eq_length_filter]
    simpa [hlen, Nat.min_comm, Function.comp_def] using this
  have htotal : (run.1.map Prod.snd).length = n := by
    have := congrArg List.length hnames
    simpa [hlen] using this
  have herr' : ∀ step ∈ run.1.map Prod.snd, step.error = "" := by
    simpa using fun step entity hx => herr (entity, step) hx
  have hholders : ∀ e, e ∈ holdersOf run.2 zone ↔ e ∈ (order.take c).map Ask.entity := fun e => by
    rw [mem_holdersOf, hmem]
    simp only [hnone, Prod.mk.injEq, true_and, false_or, List.mem_map, eq_comm]
  have hwinners : (sorted (sorted (holdersOf run.2 zone))).Perm ((order.take c).map Ask.entity) :=
    ((List.perm_insertionSort _ _).trans (List.perm_insertionSort _ _)).trans
      ((List.perm_ext_iff_of_nodup (nodup_holdersOf _ _)
        (hnodup.sublist ((List.take_sublist c order).map Ask.entity))).2 hholders)
  refine ⟨_, run.2, by simp only [clearanceContend, zoneOf_eq hrow₁, hrun]; rfl, ?_⟩
  simp only [zoneOf_eq hrow₂, Option.map_some, Option.getD_some]
  refine ⟨by simp [clearanceZone, hcap], trivial, ?_, ?_, ?_, hin ▸ hwinners, fun e => ?_, hrow₂,
    by simp [clearanceZone]⟩
  · have hnone : (run.1.map Prod.snd).filter (fun step => decide (step.error ≠ "")) = [] := by
      simpa [List.filter_eq_nil_iff] using herr'
    rw [List.map_eq_nil_iff, ← List.length_eq_zero_iff, (hsteps.filter _).length_eq, hnone]
    rfl
  · rw [hsteps.countP_eq, hcount]
  · rw [hsteps.countP_eq, countP_refused herr', hcount, htotal]
  · rw [← mem_holdersOf]
    exact hwinners.mem_iff.trans (hholders e).symm

/-- Three drones ask for two slots, and the last of them comes first. -/
def lastFirst : List Ask :=
  [⟨"asset-000002", 0, .returned⟩, ⟨"asset-000000", 1, .returned⟩, ⟨"asset-000001", 2, .returned⟩]

theorem contention_exact_airport : ∃ result l',
    clearanceContend "zone-oslo-airport" 3 (fun _ _ => .returned) lastFirst airport = (.ok result, l') ∧
      result.granted = 2 ∧ result.refused = 1 := by
  have hrow : airport.zoneOccupancy.lookup "zone-oslo-airport" =
      some ⟨some "Oslo Lufthavn Gardermoen", some "critical", some 2, some 2⟩ := by decide
  obtain ⟨result, l', hrun, -, -, -, hgranted, hrefused, -⟩ :=
    contention_exact consistent_airport (c := 2) hrow rfl 3 lastFirst
      (by decide) (by simp [lastFirst])
  exact ⟨result, l', hrun, hgranted, hrefused⟩

end HtapStack.Contention
