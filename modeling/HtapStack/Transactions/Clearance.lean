import HtapStack.Lib.Cql
import HtapStack.Lib.Runs
/-!
# The clearance ledger

The second Accord demonstration of `backend/app/routes/transactions.py`: a drone
is granted a clearance into a zone while the zone has a slot left and the drone
holds none, and gives it back. The ledger is three tables. The sink seeds the
first (`seed_zone_occupancy` in `ingress/consumer/consumer.py`), and may restart
and seed again while clearances are held.

`ledger_consistent`: whatever the sink, the grants and the releases do, in any
order, each zone's capacity is what remains plus its holders.
-/

namespace HtapStack.Clearance
open Cql Runs

structure OccupancyRow where
  zoneName : Option String
  severity : Option String
  capacity : Option Int
  remaining : Option Int
  deriving DecidableEq, Repr

structure DroneRow where
  zoneId : Option String
  grantedAt : Option Int
  deriving DecidableEq, Repr

structure Ledger where
  zoneOccupancy : Table String OccupancyRow
  /-- By zone and drone: `granted_at`. -/
  zoneClearance : Table (String × String) (Option Int)
  droneClearance : Table String DroneRow

def empty : Ledger := ⟨∅, ∅, ∅⟩

/-! ## The statements -/

/-- `LET occ = (SELECT capacity, remaining FROM zone_occupancy WHERE zone_id = ?)`. -/
def occ (zone : String) : Let Ledger where
  name := "occ"
  read l := (l.zoneOccupancy.lookup zone).map fun r =>
    [("capacity", r.capacity.map .bigint), ("remaining", r.remaining.map .bigint)]

/-- `LET held = (SELECT zone_id FROM drone_clearance WHERE entity_id = ?)`. -/
def held (entity : String) : Let Ledger where
  name := "held"
  read l := (l.droneClearance.lookup entity).map fun r => [("zone_id", r.zoneId.map .text)]

/-- `UPDATE zone_occupancy SET remaining += n`. A null stays null. -/
def addRemaining (n : Int) (zone : String) (l : Ledger) : Ledger :=
  { l with zoneOccupancy :=
      l.zoneOccupancy.modify zone fun r => { r with remaining := r.remaining.map (· + n) } }

def insertZoneClearance (zone entity : String) (grantedAt : Int) (l : Ledger) : Ledger :=
  { l with zoneClearance := l.zoneClearance.insert (zone, entity) (some grantedAt) }

def insertDroneClearance (entity zone : String) (grantedAt : Int) (l : Ledger) : Ledger :=
  { l with droneClearance := l.droneClearance.insert entity ⟨some zone, some grantedAt⟩ }

def deleteZoneClearance (zone entity : String) (l : Ledger) : Ledger :=
  { l with zoneClearance := l.zoneClearance.erase (zone, entity) }

def deleteDroneClearance (entity : String) (l : Ledger) : Ledger :=
  { l with droneClearance := l.droneClearance.erase entity }

def grantCql : Binder (Txn Ledger) := do
  let occ ← occ <$> bindText
  let held ← held <$> bindText
  let take ← addRemaining (-1) <$> bindText
  let zoneRow ← insertZoneClearance <$> bindText <*> bindText <*> bindTimestamp
  let droneRow ← insertDroneClearance <$> bindText <*> bindText <*> bindTimestamp
  pure {
    lets := [occ, held]
    select := [("occ", "remaining"), ("occ", "capacity"), ("held", "zone_id")]
    cond := .and (.and (.isNotNull "occ" "remaining") (.gt "occ" "remaining" 0)) (.isNull "held" "zone_id")
    writes := fun l => droneRow (zoneRow (take l)) }

/-- The parameters of `_run_grant`. -/
def grantParams (zone entity : String) (grantedAt : Int) : List Value :=
  [.text zone, .text entity, .text zone, .text zone, .text entity, .timestamp grantedAt,
    .text entity, .text zone, .timestamp grantedAt]

/-- The zone the drone must hold comes as a value too: a reference cannot stand
in a write's `WHERE`. -/
def releaseCql : Binder (Txn Ledger) := do
  let held ← held <$> bindText
  let zone ← bindText
  let give ← addRemaining 1 <$> bindText
  let zoneRow ← deleteZoneClearance <$> bindText <*> bindText
  let droneRow ← deleteDroneClearance <$> bindText
  pure {
    lets := [held]
    select := [("held", "zone_id")]
    cond := .eq "held" "zone_id" (.text zone)
    writes := fun l => droneRow (zoneRow (give l)) }

/-- The parameters of `_run_release`. -/
def releaseParams (zone entity : String) : List Value :=
  [.text entity, .text zone, .text zone, .text zone, .text entity, .text entity]

/-- Python's `str()` of a value, as far as the columns here need it. -/
def pyStr : Option Value → String
  | some (.text s) => s
  | some (.bigint n) => toString n
  | _ => "None"

/-- Why a grant did not fire. -/
def grantReason (zone entity : String) (projection : Dict) : String :=
  if projection.isEmpty then
    "the transaction projected nothing, so its guards cannot be read"
  else match projection.get "occ.remaining" with
    | some (.bigint remaining) =>
      if (projection.get "held.zone_id").isSome then
        entity ++ " already holds a clearance into " ++ pyStr (projection.get "held.zone_id")
      else if remaining ≤ 0 then
        zone ++ " is full: all " ++ pyStr (projection.get "occ.capacity") ++ " slots are held"
      else ""
    | _ => zone ++ " has no occupancy row, so there is no capacity to draw on"

/-- Why a release did not fire. -/
def releaseReason (zone entity : String) (projection : Dict) : String :=
  if projection.isEmpty then
    "the transaction projected nothing, so its guards cannot be read"
  else if (projection.get "held.zone_id").isNone then
    entity ++ " holds no clearance, so there is nothing to give back"
  else if pyStr (projection.get "held.zone_id") ≠ zone then
    entity ++ " holds a clearance into " ++ pyStr (projection.get "held.zone_id") ++ ", not into " ++ zone
  else ""

/-! ## The transactions bound -/

def grantTxn (zone entity : String) (grantedAt : Int) : Txn Ledger where
  lets := [occ zone, held entity]
  select := [("occ", "remaining"), ("occ", "capacity"), ("held", "zone_id")]
  cond := .and (.and (.isNotNull "occ" "remaining") (.gt "occ" "remaining" 0)) (.isNull "held" "zone_id")
  writes l := insertDroneClearance entity zone grantedAt
    (insertZoneClearance zone entity grantedAt (addRemaining (-1) zone l))

def releaseTxn (zone entity : String) : Txn Ledger where
  lets := [held entity]
  select := [("held", "zone_id")]
  cond := .eq "held" "zone_id" (.text zone)
  writes l := deleteDroneClearance entity (deleteZoneClearance zone entity (addRemaining 1 zone l))

theorem bound_grant (zone entity : String) (grantedAt : Int) :
    bound grantCql (grantParams zone entity grantedAt) = some (grantTxn zone entity grantedAt) := rfl

theorem bound_release (zone entity : String) :
    bound releaseCql (releaseParams zone entity) = some (releaseTxn zone entity) := rfl

/-! ## What the guards ask -/

/-- The zone has a slot left and the drone holds no clearance. -/
def Grantable (l : Ledger) (zone entity : String) : Prop :=
  (∃ row n, l.zoneOccupancy.lookup zone = some row ∧ row.remaining = some n ∧ 0 < n) ∧
    ∀ d, l.droneClearance.lookup entity = some d → d.zoneId = none

/-- The drone's clearance is into the zone. -/
def Releasable (l : Ledger) (zone entity : String) : Prop :=
  ∃ d, l.droneClearance.lookup entity = some d ∧ d.zoneId = some zone

variable {l : Ledger} {zone entity : String} {grantedAt : Int}

theorem applies_grant : (grantTxn zone entity grantedAt).applies l = true ↔ Grantable l zone entity := by
  unfold Txn.applies Grantable
  cases ho : l.zoneOccupancy.lookup zone with
  | none => simp [grantTxn, Cond.eval, Txn.env, Env.col, occ, held, ho]
  | some row =>
    cases hr : row.remaining with
    | none => simp [grantTxn, Cond.eval, Txn.env, Env.col, occ, held, ho, hr]
    | some n =>
      cases hd : l.droneClearance.lookup entity <;>
      simp [grantTxn, Cond.eval, Txn.env, Env.col, occ, held, ho, hr, hd]

theorem applies_release : (releaseTxn zone entity).applies l = true ↔ Releasable l zone entity := by
  unfold Txn.applies Releasable
  cases hd : l.droneClearance.lookup entity with
  | none => simp [releaseTxn, Cond.eval, Txn.env, Env.col, held, hd]
  | some d =>
    cases hz : d.zoneId <;>
    simp [releaseTxn, Cond.eval, Txn.env, Env.col, held, hd, hz]

theorem grantReason_empty :
    grantReason zone entity ((grantTxn zone entity grantedAt).projection l) = "" ↔
      Grantable l zone entity := by
  unfold grantReason Grantable
  cases ho : l.zoneOccupancy.lookup zone with
  | none =>
    cases hd : l.droneClearance.lookup entity <;>
    simp [grantTxn, Txn.projection, Txn.env, Env.col, occ, held, ho, hd]
  | some row =>
    cases hr : row.remaining with
    | none => simp [grantTxn, Txn.projection, Txn.env, Env.col, occ, held, ho, hr]
    | some n =>
      cases hd : l.droneClearance.lookup entity with
      | none => simp [grantTxn, Txn.projection, Txn.env, Env.col, occ, held, ho, hr, hd]
      | some d =>
        cases hz : d.zoneId <;>
        simp [grantTxn, Txn.projection, Txn.env, Env.col, occ, held, ho, hr, hd, hz]

theorem releaseReason_empty :
    releaseReason zone entity ((releaseTxn zone entity).projection l) = "" ↔ Releasable l zone entity := by
  unfold releaseReason Releasable
  cases hd : l.droneClearance.lookup entity with
  | none => simp [releaseTxn, Txn.projection, held, hd]
  | some d =>
    cases hz : d.zoneId <;>
    simp [releaseTxn, Txn.projection, Txn.env, Env.col, held, hd, hz, pyStr]

/-! ## What the writes change -/

/-- How many clearances into the zone are held. -/
def holders (l : Ledger) (zone : String) : Nat :=
  Table.countKeys (fun k => k.1 == zone) l.zoneClearance

theorem mem_zoneClearance_grant {k : String × String} :
    k ∈ ((grantTxn zone entity grantedAt).writes l).zoneClearance ↔ k = (zone, entity) ∨ k ∈ l.zoneClearance := by
  simp only [grantTxn, insertDroneClearance, insertZoneClearance, addRemaining, AList.mem_insert]

theorem lookup_drone_grant (e : String) :
    ((grantTxn zone entity grantedAt).writes l).droneClearance.lookup e =
      if e = entity then some ⟨some zone, some grantedAt⟩ else l.droneClearance.lookup e := by
  simp only [grantTxn, insertDroneClearance]
  by_cases he : e = entity
  · subst he
    simp
  · simp [AList.lookup_insert_ne he, he, insertZoneClearance, addRemaining]

theorem lookup_occupancy_grant (z : String) :
    ((grantTxn zone entity grantedAt).writes l).zoneOccupancy.lookup z =
      if z = zone then (l.zoneOccupancy.lookup zone).map fun r => { r with remaining := r.remaining.map (· + -1) }
      else l.zoneOccupancy.lookup z := by
  simp only [grantTxn, insertDroneClearance, insertZoneClearance, addRemaining, Table.lookup_modify]

theorem mem_zoneOccupancy_grant {z : String} :
    z ∈ ((grantTxn zone entity grantedAt).writes l).zoneOccupancy ↔ z ∈ l.zoneOccupancy := Table.mem_modify

theorem holders_grant (hnew : (zone, entity) ∉ l.zoneClearance) (z : String) :
    holders ((grantTxn zone entity grantedAt).writes l) z = holders l z + if zone = z then 1 else 0 := by
  simp only [holders, grantTxn, insertDroneClearance, insertZoneClearance, addRemaining,
    Table.countKeys_insert hnew, beq_iff_eq]

theorem mem_zoneClearance_release {k : String × String} :
    k ∈ ((releaseTxn zone entity).writes l).zoneClearance ↔ k ≠ (zone, entity) ∧ k ∈ l.zoneClearance := by
  simp only [releaseTxn, deleteDroneClearance, deleteZoneClearance, addRemaining, AList.mem_erase]

theorem lookup_drone_release (e : String) :
    ((releaseTxn zone entity).writes l).droneClearance.lookup e =
      if e = entity then none else l.droneClearance.lookup e := by
  simp only [releaseTxn, deleteDroneClearance]
  by_cases he : e = entity
  · subst he
    simp
  · simp [AList.lookup_erase_ne he, he, deleteZoneClearance, addRemaining]

theorem lookup_occupancy_release (z : String) :
    ((releaseTxn zone entity).writes l).zoneOccupancy.lookup z =
      if z = zone then (l.zoneOccupancy.lookup zone).map fun r => { r with remaining := r.remaining.map (· + 1) }
      else l.zoneOccupancy.lookup z := by
  simp only [releaseTxn, deleteDroneClearance, deleteZoneClearance, addRemaining, Table.lookup_modify]

theorem mem_zoneOccupancy_release {z : String} :
    z ∈ ((releaseTxn zone entity).writes l).zoneOccupancy ↔ z ∈ l.zoneOccupancy := Table.mem_modify

theorem holders_release (hheld : (zone, entity) ∈ l.zoneClearance) (z : String) :
    holders l z = holders ((releaseTxn zone entity).writes l) z + if zone = z then 1 else 0 := by
  simp only [holders, releaseTxn, deleteDroneClearance, deleteZoneClearance, addRemaining,
    Table.countKeys_erase hheld, beq_iff_eq]

/-! ## The two sides of a clearance -/

/-- A clearance is recorded under its zone exactly if it is under its drone. -/
def Mirrored (l : Ledger) : Prop := ∀ zone entity, (zone, entity) ∈ l.zoneClearance ↔
  ∃ d, l.droneClearance.lookup entity = some d ∧ d.zoneId = some zone

/-- A drone that may be granted a clearance has none under any zone. -/
theorem Mirrored.free (h : Mirrored l) (hg : Grantable l zone entity) (z : String) :
    (z, entity) ∉ l.zoneClearance := by
  intro hmem
  obtain ⟨d, hd, hz⟩ := (h _ _).1 hmem
  simp [hg.2 d hd] at hz

theorem Mirrored.grant (h : Mirrored l) (hg : Grantable l zone entity) (grantedAt : Int) :
    Mirrored ((grantTxn zone entity grantedAt).writes l) := by
  intro z e
  rw [mem_zoneClearance_grant, lookup_drone_grant, Prod.mk.injEq]
  by_cases he : e = entity
  · subst he
    simp only [if_pos, Option.some.injEq, exists_eq_left', h.free hg, or_false, and_true]
    exact eq_comm
  · simp only [he, and_false, false_or, if_false]
    exact h z e

theorem Mirrored.release (h : Mirrored l) (hr : Releasable l zone entity) :
    Mirrored ((releaseTxn zone entity).writes l) := by
  intro z e
  rw [mem_zoneClearance_release, lookup_drone_release, h]
  by_cases he : e = entity
  · subst he
    obtain ⟨d, hd, hdz⟩ := hr
    simp [hd, hdz, eq_comm]
  · simp [he]

/-! ## The sink, and everyone else -/

structure DemoZone where
  zoneId : String
  name : String
  severity : String
  capacity : Nat

/-- `DEMO_ZONES`, without the polygons. -/
def demoZones : List DemoZone :=
  [⟨"zone-oslo-airport", "Oslo Lufthavn Gardermoen", "critical", 2⟩,
    ⟨"zone-royal-palace", "Det Kongelige Slott", "critical", 3⟩,
    ⟨"zone-fornebu", "Fornebu Tech Park", "warning", 5⟩]

/-- The ledger, and how far the sink is with its zones: at the first of
`seeding`, with the read behind it if `inserting`. -/
structure World where
  ledger : Ledger
  seeding : List DemoZone
  inserting : Bool

def start : World := ⟨empty, [], false⟩

inductive Action where
  /-- The sink starts, or starts again: the zones from the first. -/
  | seed
  /-- The read for the zone at hand, which may raise. -/
  | readZone (raises : Bool)
  /-- The insert for it. One that raises may have taken effect. -/
  | insertZone (took : Bool)
  | grant (zone entity : String) (grantedAt : Int) (took : Bool)
  | release (zone entity : String) (took : Bool)

def insertOccupancy (z : DemoZone) (l : Ledger) : Ledger :=
  { l with zoneOccupancy :=
      l.zoneOccupancy.insert z.zoneId ⟨some z.name, some z.severity, some z.capacity, some z.capacity⟩ }

/-- Run a transaction, which may raise before it takes effect. -/
def transact (cql : Binder (Txn Ledger)) (params : List Value) (took : Bool) (l : Ledger) : Option Ledger :=
  (bound cql params).map fun t => if took then t.commit l else l

def step (w : World) : Action → Option World
  | .seed => some { w with seeding := demoZones, inserting := false }
  | .readZone raises =>
    match w.seeding, w.inserting with
    | z :: zones, false =>
      if raises ∨ z.zoneId ∈ w.ledger.zoneOccupancy then some { w with seeding := zones }
      else some { w with inserting := true }
    | _, _ => none
  | .insertZone took =>
    match w.seeding, w.inserting with
    | z :: zones, true =>
      some ⟨if took then insertOccupancy z w.ledger else w.ledger, zones, false⟩
    | _, _ => none
  | .grant zone entity grantedAt took =>
    (transact grantCql (grantParams zone entity grantedAt) took w.ledger).map ({ w with ledger := · })
  | .release zone entity took =>
    (transact releaseCql (releaseParams zone entity) took w.ledger).map ({ w with ledger := · })

/-! ## The invariant -/

structure Consistent (l : Ledger) : Prop where
  /-- A zone's slots are those that remain and those that are held. -/
  slots : ∀ zone row, l.zoneOccupancy.lookup zone = some row → ∃ capacity remaining : Int,
    row.capacity = some capacity ∧ row.remaining = some remaining ∧
      capacity = remaining + holders l zone ∧ 0 ≤ remaining ∧ remaining ≤ capacity
  /-- Clearances are into zones of the ledger. -/
  zoned : ∀ zone entity, (zone, entity) ∈ l.zoneClearance → zone ∈ l.zoneOccupancy
  /-- The two sides of a clearance agree. -/
  mirror : ∀ zone entity, (zone, entity) ∈ l.zoneClearance ↔
    ∃ d, l.droneClearance.lookup entity = some d ∧ d.zoneId = some zone

/-- No zone has more holders than slots. -/
theorem Consistent.holders_le (h : Consistent l) {row : OccupancyRow} {capacity : Int}
    (hrow : l.zoneOccupancy.lookup zone = some row) (hcap : row.capacity = some capacity) :
    holders l zone ≤ capacity := by
  obtain ⟨c, r, hc, -, hsum, hr, -⟩ := h.slots zone row hrow
  obtain rfl : c = capacity := by simpa [hc] using hcap
  omega

/-- No drone holds two clearances. -/
theorem Consistent.one_zone (h : Consistent l) {zone' : String} (hz : (zone, entity) ∈ l.zoneClearance)
    (hz' : (zone', entity) ∈ l.zoneClearance) : zone = zone' := by
  obtain ⟨d, hd, hdz⟩ := (h.mirror _ _).1 hz
  obtain ⟨d', hd', hdz'⟩ := (h.mirror _ _).1 hz'
  obtain rfl : d = d' := by simpa [hd] using hd'
  simpa [hdz] using hdz'

theorem consistent_empty : Consistent empty where
  slots := by simp [empty]
  zoned := by simp [empty]
  mirror := by simp [empty]

/-- A zone that is not in the ledger has no holders yet, so it may be added full. -/
theorem Consistent.seed (h : Consistent l) {z : DemoZone} (hz : z.zoneId ∉ l.zoneOccupancy) :
    Consistent (insertOccupancy z l) where
  slots := by
    intro zone row hrow
    by_cases hzone : zone = z.zoneId
    · subst hzone
      simp only [insertOccupancy, AList.lookup_insert, Option.some.injEq] at hrow
      subst hrow
      -- A holder would have its zone in the ledger.
      have h0 : holders l z.zoneId = 0 := by
        refine Table.countKeys_eq_zero.2 ?_
        rintro ⟨zone, entity⟩ hmem
        have := h.zoned zone entity hmem
        rw [beq_eq_false_iff_ne]
        rintro rfl
        exact hz this
      refine ⟨z.capacity, z.capacity, rfl, rfl, ?_, by omega, by omega⟩
      show (z.capacity : Int) = z.capacity + (holders l z.zoneId : Nat)
      omega
    · rw [insertOccupancy, AList.lookup_insert_ne hzone] at hrow
      exact h.slots zone row hrow
  zoned := fun zone entity hmem => AList.mem_insert _ |>.2 (.inr (h.zoned zone entity hmem))
  mirror := h.mirror

theorem Consistent.grant (h : Consistent l) (hg : Grantable l zone entity) (grantedAt : Int) :
    Consistent ((grantTxn zone entity grantedAt).writes l) := by
  have hmirror := Mirrored.grant h.mirror hg grantedAt
  -- The guard reads the drone's side only; the zone's side follows by `mirror`.
  have hnew := Mirrored.free h.mirror hg zone
  obtain ⟨⟨row, n, hrow, hn, hpos⟩, -⟩ := hg
  refine ⟨?_, ?_, hmirror⟩
  · intro z r hr
    rw [holders_grant hnew]
    rw [lookup_occupancy_grant] at hr
    split at hr
    · subst z
      obtain ⟨c, m, hc, hm, hsum, -, -⟩ := h.slots zone row hrow
      simp only [hrow, Option.map_some, Option.some.injEq] at hr
      obtain rfl : m = n := by simpa [hm] using hn
      subst hr
      refine ⟨c, m - 1, hc, by simp [hm]; rfl, ?_, by omega, by omega⟩
      rw [if_pos rfl]
      omega
    · rename_i hne
      rw [if_neg (Ne.symm hne)]
      exact h.slots z r hr
  · intro z e hmem
    rw [mem_zoneOccupancy_grant]
    rcases mem_zoneClearance_grant.1 hmem with heq | hmem
    · obtain ⟨rfl, rfl⟩ := Prod.mk.inj heq
      exact AList.lookup_isSome.1 (by simp [hrow])
    · exact h.zoned z e hmem

theorem Consistent.release (h : Consistent l) (hr : Releasable l zone entity) :
    Consistent ((releaseTxn zone entity).writes l) := by
  have hheld : (zone, entity) ∈ l.zoneClearance := (h.mirror _ _).2 hr
  refine ⟨?_, ?_, Mirrored.release h.mirror hr⟩
  · intro z r hz
    have hz' := holders_release hheld z
    rw [lookup_occupancy_release] at hz
    split at hz
    · subst z
      obtain ⟨row, hrow, rfl⟩ := Option.map_eq_some_iff.1 hz
      obtain ⟨c, m, hc, hm, hsum, hm0, -⟩ := h.slots zone row hrow
      rw [if_pos rfl] at hz'
      exact ⟨c, m + 1, hc, by simp [hm], by omega, by omega, by omega⟩
    · rename_i hne
      rw [if_neg (Ne.symm hne), Nat.add_zero] at hz'
      rw [← hz']
      exact h.slots z r hz
  · intro z e hmem
    rw [mem_zoneOccupancy_release]
    exact h.zoned z e (mem_zoneClearance_release.1 hmem).2

/-! ## Every run -/

/-- What holds between the sink's statements: an insert that is due is for a zone
that the ledger does not have. -/
def Inv (w : World) : Prop :=
  Consistent w.ledger ∧ (w.inserting = true → ∀ z, w.seeding.head? = some z → z.zoneId ∉ w.ledger.zoneOccupancy)

/-- A transaction changes nothing, or its guard holds and its writes are made. -/
theorem transact_cases {cql : Binder (Txn Ledger)} {params : List Value} {took : Bool} {t : Txn Ledger}
    {l' : Ledger} (ht : bound cql params = some t) (h : transact cql params took l = some l') :
    l' = l ∨ t.applies l = true ∧ l' = t.writes l := by
  simp only [transact, ht, Option.map_some, Option.some.injEq, Txn.commit] at h
  subst h
  split
  · split
    · exact .inr ⟨‹_›, rfl⟩
    · exact .inl rfl
  · exact .inl rfl

/-- A transaction that is granted only where its guard holds keeps what its
writes keep, and the zones of the ledger. -/
theorem inv_transact {w : World} {l' : Ledger} {cql : Binder (Txn Ledger)} {params : List Value} {took : Bool}
    {t : Txn Ledger} (hI : Inv w) (ht : bound cql params = some t)
    (hkeep : t.applies w.ledger = true → Consistent (t.writes w.ledger))
    (hzones : ∀ z, z ∈ (t.writes w.ledger).zoneOccupancy ↔ z ∈ w.ledger.zoneOccupancy)
    (h : transact cql params took w.ledger = some l') : Inv { w with ledger := l' } := by
  rcases transact_cases ht h with rfl | ⟨happ, rfl⟩
  · exact hI
  · exact ⟨hkeep happ, fun hi z hz => (hzones _).not.2 (hI.2 hi z hz)⟩

theorem inv_step {w w' : World} {a : Action} (hI : Inv w) (h : step w a = some w') : Inv w' := by
  cases a with
  | seed =>
    obtain rfl := Option.some.inj h
    exact ⟨hI.1, by simp⟩
  | readZone raises =>
    simp only [step] at h
    split at h
    · rename_i z zones hseed hins
      split at h
      · obtain rfl := Option.some.inj h
        exact ⟨hI.1, by simp [hins]⟩
      · rename_i hno
        obtain rfl := Option.some.inj h
        refine ⟨hI.1, fun _ z' hz' => ?_⟩
        obtain rfl : z = z' := by simpa [hseed] using hz'
        exact fun hmem => hno (.inr hmem)
    · cases h
  | insertZone took =>
    simp only [step] at h
    split at h
    · rename_i z zones hseed hins
      obtain rfl := Option.some.inj h
      refine ⟨?_, by simp⟩
      show Consistent (if took = true then insertOccupancy z w.ledger else w.ledger)
      -- Nobody but the sink adds zones, so its read of this one still stands.
      split
      · exact hI.1.seed (hI.2 hins z (by simp [hseed]))
      · exact hI.1
    · cases h
  | grant zone entity grantedAt took =>
    simp only [step] at h
    obtain ⟨l', hl', rfl⟩ := Option.map_eq_some_iff.1 h
    exact inv_transact hI (bound_grant ..) (fun happ => hI.1.grant (applies_grant.1 happ) _)
      (fun _ => Table.mem_modify) hl'
  | release zone entity took =>
    simp only [step] at h
    obtain ⟨l', hl', rfl⟩ := Option.map_eq_some_iff.1 h
    exact inv_transact hI (bound_release ..) (fun happ => hI.1.release (applies_release.1 happ))
      (fun _ => Table.mem_modify) hl'

/-- Along every run the ledger is consistent, no zone is oversubscribed, and no
drone holds two clearances. -/
theorem ledger_consistent (as : List Action) :
    Always step (fun w => Consistent w.ledger ∧
      (∀ zone row capacity, w.ledger.zoneOccupancy.lookup zone = some row → row.capacity = some capacity →
        holders w.ledger zone ≤ capacity) ∧
      ∀ entity zone zone', (zone, entity) ∈ w.ledger.zoneClearance →
        (zone', entity) ∈ w.ledger.zoneClearance → zone = zone') start as := by
  refine always_of_inv (I := Inv) (fun _ _ _ => inv_step) (fun w hI => ⟨hI.1, ?_, ?_⟩)
    ⟨consistent_empty, by simp [start]⟩ as
  · exact fun _ _ _ => hI.1.holders_le
  · exact fun _ _ _ => hI.1.one_zone

end HtapStack.Clearance
