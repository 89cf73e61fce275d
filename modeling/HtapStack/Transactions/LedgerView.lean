import HtapStack.Transactions.Clearance
import Mathlib.Data.List.Dedup
import Mathlib.Data.List.Sort
/-!
# The clearance state shown

`_clearance_state` of `backend/app/routes/transactions.py` reads the three tables
with one query after another: the zones, then for each zone its holders, and for
each holder the drone's own row. The route that shows it takes no lock, so grants
and releases may be applied between two of its reads.

- `scan_alone`: with nothing in between, the reads show the ledger as it is.
- `scan_clean_iff`: otherwise the report stays free of complaints exactly while
  each zone has as many holders, when they are read, as when the zones were, and
  each holder still has its clearance when its own row is read.
-/

namespace HtapStack.LedgerView
open Cql Runs Clearance

/-- A row of `zone_occupancy`. -/
abbrev Row := String × OccupancyRow

structure ClearanceZone where
  zoneId : String
  zoneName : String
  severity : String
  capacity : Int
  remaining : Int
  holders : List String
  consistent : Bool
  deriving DecidableEq

structure ClearanceState where
  zones : List ClearanceZone
  mismatched : List String
  deriving DecidableEq

/-- Python's `sorted`, of strings. -/
def sorted (xs : List String) : List String := xs.insertionSort (· ≤ ·)

/-! ## The queries -/

def occupancyRows (l : Ledger) : List Row := l.zoneOccupancy.entries.map fun e => (e.1, e.2)

/-- `SELECT entity_id FROM zone_clearance WHERE zone_id = ?`, in clustering order. -/
def holdersOf (l : Ledger) (zone : String) : List String :=
  sorted ((l.zoneClearance.keys.filter (·.1 == zone)).map (·.2))

/-- Whether the drone's own row names the zone. -/
def mirrors (l : Ledger) (zone entity : String) : Bool :=
  match l.droneClearance.lookup entity with
  | some d => pyStr (d.zoneId.map .text) == zone
  | none => false

/-! ## The report -/

def clearanceZone (row : Row) (holders : List String) : ClearanceZone where
  zoneId := row.1
  zoneName := row.2.zoneName.getD ""
  severity := row.2.severity.getD ""
  capacity := row.2.capacity.getD 0
  remaining := row.2.remaining.getD 0
  holders := sorted holders
  consistent := row.2.capacity.getD 0 == row.2.remaining.getD 0 + holders.length

def report (zones : List ClearanceZone) (mismatched : List String) : ClearanceState where
  zones := zones.insertionSort fun a b => a.zoneId ≤ b.zoneId
  mismatched := sorted mismatched.dedup

/-- The holders whose own rows do not name the zone. -/
def unmirrored (l : Ledger) (zone : String) (holders : List String) : List String :=
  holders.filter fun e => !mirrors l zone e

/-- `_clearance_state` on a ledger that nobody changes meanwhile. -/
def clearanceState (l : Ledger) : ClearanceState :=
  report ((occupancyRows l).map fun row => clearanceZone row (holdersOf l row.1))
    ((occupancyRows l).flatMap fun row => unmirrored l row.1 (holdersOf l row.1))

/-! ## Read by read -/

/-- The next query. A row or a drone stands before those that come after it. -/
inductive Pc where
  | occupancy
  | holders (row : Row) (rows : List Row)
  | mirror (row : Row) (holders : List String) (entity : String) (rest : List String) (rows : List Row)
  | done

structure Scan where
  zones : List ClearanceZone
  mismatched : List String
  pc : Pc

def startScan : Scan := ⟨[], [], .occupancy⟩

/-- On to the first of the zones that are left. -/
def toZone (zones : List ClearanceZone) (mismatched : List String) : List Row → Scan
  | [] => ⟨zones, mismatched, .done⟩
  | row :: rows => ⟨zones, mismatched, .holders row rows⟩

/-- On to the first of the holders that are left, or past the zone. -/
def toMirror (zones : List ClearanceZone) (mismatched : List String) (row : Row) (holders : List String)
    (rows : List Row) : List String → Scan
  | [] => toZone (zones ++ [clearanceZone row holders]) mismatched rows
  | e :: rest => ⟨zones, mismatched, .mirror row holders e rest rows⟩

/-- One query, and what is computed until the next. -/
def Scan.read (l : Ledger) (s : Scan) : Scan :=
  match s.pc with
  | .occupancy => toZone s.zones s.mismatched (occupancyRows l)
  | .holders row rows => toMirror s.zones s.mismatched row (holdersOf l row.1) rows (holdersOf l row.1)
  | .mirror row holders e rest rows =>
    toMirror s.zones (if mirrors l row.1 e then s.mismatched else s.mismatched ++ [e]) row holders rows rest
  | .done => s

/-- The zone whose holders are read, and whose mirrors are being read. -/
def Scan.pending (s : Scan) : List ClearanceZone :=
  match s.pc with
  | .mirror row holders _ _ _ => [clearanceZone row holders]
  | _ => []

/-- What is decided so far: at the end, what the function returns. -/
def Scan.decided (s : Scan) : ClearanceState := report (s.zones ++ s.pending) s.mismatched

/-! ## Nothing in between -/

section
variable (l : Ledger)

/-- The holders of a zone, checked one by one. -/
theorem read_mirrors (zones : List ClearanceZone) (mismatched : List String) (row : Row)
    (holders : List String) (rows : List Row) (rest : List String) :
    ∃ n, (Scan.read l)^[n] (toMirror zones mismatched row holders rows rest) =
      toZone (zones ++ [clearanceZone row holders]) (mismatched ++ unmirrored l row.1 rest) rows := by
  induction rest generalizing mismatched with
  | nil => exact ⟨0, by simp [toMirror, unmirrored]⟩
  | cons e rest ih =>
    obtain ⟨n, hn⟩ := ih (if mirrors l row.1 e then mismatched else mismatched ++ [e])
    refine ⟨n + 1, ?_⟩
    rw [Function.iterate_succ_apply]
    show (Scan.read l)^[n] (toMirror zones (if mirrors l row.1 e then mismatched else mismatched ++ [e])
      row holders rows rest) = _
    rw [hn]
    by_cases he : mirrors l row.1 e = true <;> simp [unmirrored, he]

/-- The zones, one by one. -/
theorem read_zones (zones : List ClearanceZone) (mismatched : List String) (rows : List Row) :
    ∃ n, (Scan.read l)^[n] (toZone zones mismatched rows) =
      ⟨zones ++ rows.map fun row => clearanceZone row (holdersOf l row.1),
        mismatched ++ rows.flatMap fun row => unmirrored l row.1 (holdersOf l row.1), .done⟩ := by
  induction rows generalizing zones mismatched with
  | nil => exact ⟨0, by simp [toZone]⟩
  | cons row rows ih =>
    obtain ⟨n, hn⟩ := read_mirrors l zones mismatched row (holdersOf l row.1) rows (holdersOf l row.1)
    obtain ⟨m, hm⟩ := ih (zones ++ [clearanceZone row (holdersOf l row.1)])
      (mismatched ++ unmirrored l row.1 (holdersOf l row.1))
    refine ⟨m + (n + 1), ?_⟩
    rw [Function.iterate_add_apply, Function.iterate_succ_apply]
    show (Scan.read l)^[m] ((Scan.read l)^[n] (toMirror zones mismatched row (holdersOf l row.1) rows
      (holdersOf l row.1))) = _
    rw [hn, hm]
    simp

/-- The queries of one scan, with nothing between them, come to an end and
return the state of the ledger. -/
theorem scan_alone : ∃ n, ((Scan.read l)^[n] startScan).pc = .done ∧
    ((Scan.read l)^[n] startScan).decided = clearanceState l := by
  obtain ⟨n, hn⟩ := read_zones l [] [] (occupancyRows l)
  refine ⟨n + 1, ?_⟩
  rw [Function.iterate_succ_apply]
  show ((Scan.read l)^[n] (toZone [] [] (occupancyRows l))).pc = _ ∧
    ((Scan.read l)^[n] (toZone [] [] (occupancyRows l))).decided = _
  rw [hn]
  exact ⟨rfl, by simp [Scan.decided, Scan.pending, clearanceState]⟩

end

/-! ## Grants and releases in between -/

/-- The ledger, the scan, and the ledger as it was when the zones were read. -/
structure World where
  ledger : Ledger
  scan : Scan
  cut : Ledger

def start (l : Ledger) : World := ⟨l, startScan, l⟩

inductive Action where
  | read
  | grant (zone entity : String) (grantedAt : Int) (took : Bool)
  | release (zone entity : String) (took : Bool)

def step (w : World) : Action → Option World
  | .read =>
    match w.scan.pc with
    | .occupancy => some ⟨w.ledger, w.scan.read w.ledger, w.ledger⟩
    | .done => none
    | _ => some { w with scan := w.scan.read w.ledger }
  | .grant zone entity grantedAt took =>
    (transact grantCql (grantParams zone entity grantedAt) took w.ledger).map ({ w with ledger := · })
  | .release zone entity took =>
    (transact releaseCql (releaseParams zone entity) took w.ledger).map ({ w with ledger := · })

/-- Every zone adds up, and every holder has its mirror. -/
def Clean (s : Scan) : Prop := (∀ z ∈ s.decided.zones, z.consistent = true) ∧ s.decided.mismatched = []

instance (s : Scan) : Decidable (Clean s) := inferInstanceAs (Decidable (_ ∧ _))

/-- What a ledger is to keep: the slots of each zone add up, and the two sides of
each clearance agree. -/
structure Balanced (l : Ledger) : Prop where
  slots : ∀ zone row, l.zoneOccupancy.lookup zone = some row → ∃ capacity remaining : Int,
    row.capacity = some capacity ∧ row.remaining = some remaining ∧ capacity = remaining + holders l zone
  mirror : Mirrored l

/-- Nothing that this read is about has changed since it was first read: the
holders of a zone in number, the clearance of a holder itself. -/
def Undisturbed (w : World) : Action → Prop
  | .read =>
    match w.scan.pc with
    | .holders row _ => holders w.ledger row.1 = holders w.cut row.1
    | .mirror row _ e _ _ => Releasable w.ledger row.1 e
    | _ => True
  | _ => True

section
variable {l l' : Ledger} {zone entity : String} {grantedAt : Int} {w w' : World}

theorem balanced_of_consistent (h : Consistent l) : Balanced l where
  slots zone row hrow := by
    obtain ⟨c, r, hc, hr, hsum, -⟩ := h.slots zone row hrow
    exact ⟨c, r, hc, hr, hsum⟩
  mirror := h.mirror

theorem Balanced.grant (h : Balanced l) (hg : Grantable l zone entity) :
    Balanced ((grantTxn zone entity grantedAt).writes l) := by
  refine ⟨fun z r hr => ?_, h.mirror.grant hg grantedAt⟩
  rw [holders_grant (h.mirror.free hg zone)]
  rw [lookup_occupancy_grant] at hr
  split at hr
  · subst z
    obtain ⟨row, hrow, rfl⟩ := Option.map_eq_some_iff.1 hr
    obtain ⟨c, m, hc, hm, hsum⟩ := h.slots zone row hrow
    refine ⟨c, m + -1, hc, by simp [hm], ?_⟩
    rw [if_pos rfl]
    omega
  · rename_i hne
    rw [if_neg (Ne.symm hne)]
    exact h.slots z r hr

theorem Balanced.release (h : Balanced l) (hr : Releasable l zone entity) :
    Balanced ((releaseTxn zone entity).writes l) := by
  refine ⟨fun z r hz => ?_, h.mirror.release hr⟩
  have hcount := holders_release ((h.mirror _ _).2 hr) z
  rw [lookup_occupancy_release] at hz
  split at hz
  · subst z
    obtain ⟨row, hrow, rfl⟩ := Option.map_eq_some_iff.1 hz
    obtain ⟨c, m, hc, hm, hsum⟩ := h.slots zone row hrow
    rw [if_pos rfl] at hcount
    exact ⟨c, m + 1, hc, by simp [hm], by omega⟩
  · rename_i hne
    rw [if_neg (Ne.symm hne), Nat.add_zero] at hcount
    rw [← hcount]
    exact h.slots z r hz

/-! ### What a scan has in hand -/

/-- The zones whose holders are still to be read. -/
def Scan.rows (s : Scan) : List Row :=
  match s.pc with
  | .holders row rows => row :: rows
  | .mirror _ _ _ _ rows => rows
  | _ => []

/-- The holders whose own rows are still to be read. -/
def Scan.unchecked (s : Scan) : List String :=
  match s.pc with
  | .mirror _ _ e rest _ => e :: rest
  | _ => []

/-- No row of the drone stands for no zone. -/
def Named (l : Ledger) (entity : String) : Prop :=
  ∀ d, l.droneClearance.lookup entity = some d → d.zoneId ≠ none

theorem Named.grant {e : String} (h : Named l e) : Named ((grantTxn zone entity grantedAt).writes l) e := by
  intro d hd
  rw [lookup_drone_grant] at hd
  split at hd
  · cases hd
    simp
  · exact h d hd

theorem Named.release {e : String} (h : Named l e) : Named ((releaseTxn zone entity).writes l) e := by
  intro d hd
  rw [lookup_drone_release] at hd
  split at hd
  · cases hd
  · exact h d hd

structure Inv (w : World) : Prop where
  balanced : Balanced w.ledger
  cut : Balanced w.cut
  /-- The rows in hand are those of the cut. -/
  rows : ∀ row ∈ w.scan.rows, w.cut.zoneOccupancy.lookup row.1 = some row.2
  named : ∀ e ∈ w.scan.unchecked, Named w.ledger e

section
variable {zones : List ClearanceZone} {mismatched holders' rest : List String} {row : Row} {rows : List Row}

@[simp] theorem rows_toZone : (toZone zones mismatched rows).rows = rows := by cases rows <;> rfl

@[simp] theorem unchecked_toZone : (toZone zones mismatched rows).unchecked = [] := by cases rows <;> rfl

@[simp] theorem rows_toMirror : (toMirror zones mismatched row holders' rows rest).rows = rows := by
  cases rest with
  | nil => exact rows_toZone
  | cons e rest => rfl

theorem unchecked_toMirror : (toMirror zones mismatched row holders' rows rest).unchecked = rest := by
  cases rest with
  | nil => exact unchecked_toZone
  | cons e rest => rfl

end

theorem mem_holdersOf {e : String} : e ∈ holdersOf l zone ↔ (zone, e) ∈ l.zoneClearance := by
  simp [holdersOf, sorted, AList.mem_keys]

theorem length_holdersOf (l : Ledger) (zone : String) : (holdersOf l zone).length = holders l zone := by
  simp [holdersOf, sorted, holders, Table.countKeys, List.countP_eq_length_filter]

theorem nodup_holdersOf (l : Ledger) (zone : String) : (holdersOf l zone).Nodup := by
  have hkeys : (l.zoneClearance.keys.filter (·.1 == zone)).Nodup := l.zoneClearance.keys_nodup.filter _
  refine (List.perm_insertionSort _ _).nodup_iff.2 ((List.nodup_map_iff_inj_on hkeys).2 fun k hk k' hk' h => ?_)
  have hz : k.1 = zone := by simpa using (List.mem_filter.1 hk).2
  have hz' : k'.1 = zone := by simpa using (List.mem_filter.1 hk').2
  exact Prod.ext (hz.trans hz'.symm) h

theorem mem_occupancyRows {row : Row} :
    row ∈ occupancyRows l ↔ l.zoneOccupancy.lookup row.1 = some row.2 := by
  simp only [occupancyRows, List.mem_map]
  constructor
  · rintro ⟨e, he, rfl⟩
    exact AList.mem_lookup_iff.2 he
  · exact fun h => ⟨⟨row.1, row.2⟩, AList.mem_lookup_iff.1 h, rfl⟩

theorem inv_start (h : Balanced l) : Inv (start l) := ⟨h, h, by simp [start, startScan, Scan.rows],
  by simp [start, startScan, Scan.unchecked]⟩

/-- A transaction that keeps the ledger balanced keeps the invariant. -/
theorem Inv.transact (hI : Inv w) (hb : Balanced l') (hn : ∀ e, Named w.ledger e → Named l' e) :
    Inv { w with ledger := l' } :=
  ⟨hb, hI.cut, hI.rows, fun e he => hn e (hI.named e he)⟩

theorem inv_step {a : Action} (hI : Inv w) (h : step w a = some w') : Inv w' := by
  cases a with
  | read =>
    simp only [step] at h
    cases hpc : w.scan.pc with
    | occupancy =>
      simp only [hpc, Option.some.injEq] at h
      subst h
      refine ⟨hI.balanced, hI.balanced, ?_, ?_⟩
      · simp only [Scan.read, hpc, rows_toZone]
        exact fun row => mem_occupancyRows.1
      · simp [Scan.read, hpc]
    | holders row rows =>
      simp only [hpc, Option.some.injEq] at h
      subst h
      have hrows := hI.rows
      simp only [Scan.rows, hpc, List.forall_mem_cons] at hrows
      refine ⟨hI.balanced, hI.cut, by simpa [Scan.read, hpc] using hrows.2, ?_⟩
      simp only [Scan.read, hpc, unchecked_toMirror, mem_holdersOf]
      intro e he d hd
      obtain ⟨d', hd', hz⟩ := (hI.balanced.mirror _ _).1 he
      obtain rfl : d = d' := by simpa [hd] using hd'
      simp [hz]
    | mirror row holders e rest rows =>
      simp only [hpc, Option.some.injEq] at h
      subst h
      have hrows := hI.rows
      have hnamed := hI.named
      simp only [Scan.rows, Scan.unchecked, hpc, List.forall_mem_cons] at hrows hnamed
      refine ⟨hI.balanced, hI.cut, by simpa [Scan.read, hpc] using hrows, ?_⟩
      simpa [Scan.read, hpc, unchecked_toMirror] using hnamed.2
    | done => simp [hpc] at h
  | grant zone entity grantedAt took =>
    simp only [step] at h
    obtain ⟨l', hl', rfl⟩ := Option.map_eq_some_iff.1 h
    rcases transact_cases (bound_grant ..) hl' with rfl | ⟨happ, rfl⟩
    · exact hI
    · exact hI.transact (hI.balanced.grant (applies_grant.1 happ)) fun _ => Named.grant
  | release zone entity took =>
    simp only [step] at h
    obtain ⟨l', hl', rfl⟩ := Option.map_eq_some_iff.1 h
    rcases transact_cases (bound_release ..) hl' with rfl | ⟨happ, rfl⟩
    · exact hI
    · exact hI.transact (hI.balanced.release (applies_release.1 happ)) fun _ => Named.release

/-! ### What a read adds to the report -/

theorem clean_iff (s : Scan) :
    Clean s ↔ (∀ z ∈ s.zones ++ s.pending, z.consistent = true) ∧ s.mismatched = [] := by
  have hnil : sorted s.mismatched.dedup = [] ↔ s.mismatched = [] := by
    rw [← List.length_eq_zero_iff, sorted, List.length_insertionSort, List.length_eq_zero_iff,
      List.dedup_eq_nil]
  simp [Clean, Scan.decided, report, hnil]

section
variable {zones : List ClearanceZone} {mismatched holders' rest : List String} {row : Row} {rows : List Row}

theorem clean_toZone :
    Clean (toZone zones mismatched rows) ↔ (∀ z ∈ zones, z.consistent = true) ∧ mismatched = [] := by
  rw [clean_iff]
  cases rows <;> simp [toZone, Scan.pending]

theorem clean_toMirror : Clean (toMirror zones mismatched row holders' rows rest) ↔
    (∀ z ∈ zones ++ [clearanceZone row holders'], z.consistent = true) ∧ mismatched = [] := by
  cases rest with
  | nil => rw [toMirror, clean_toZone]
  | cons e rest => simp [clean_iff, toMirror, Scan.pending]

end

/-- A zone of the cut adds up exactly if it has as many holders as it had then. -/
theorem consistent_iff {row : Row} (hcut : Balanced w.cut) (hrow : w.cut.zoneOccupancy.lookup row.1 = some row.2) :
    (clearanceZone row (holdersOf w.ledger row.1)).consistent = true ↔
      holders w.ledger row.1 = holders w.cut row.1 := by
  obtain ⟨c, r, hc, hr, hsum⟩ := hcut.slots _ _ hrow
  simp only [clearanceZone, hc, hr, Option.getD_some, length_holdersOf, beq_iff_eq]
  omega

theorem mirrors_iff {e : String} (h : Named l e) : mirrors l zone e = true ↔ Releasable l zone e := by
  unfold mirrors Releasable
  cases hd : l.droneClearance.lookup e with
  | none => simp
  | some d =>
    cases hz : d.zoneId with
    | none => exact absurd hz (h d hd)
    | some z => simp [pyStr, hz]

/-- From a clean report, the next read leads to one exactly if it is undisturbed. -/
theorem clean_step {a : Action} (hI : Inv w) (hc : Clean w.scan) (h : step w a = some w') :
    Clean w'.scan ↔ Undisturbed w a := by
  rw [clean_iff] at hc
  cases a with
  | read =>
    simp only [step] at h
    cases hpc : w.scan.pc with
    | occupancy =>
      simp only [hpc, Option.some.injEq] at h
      subst h
      simp only [Scan.read, hpc, clean_toZone, Undisturbed, iff_true]
      simpa [Scan.pending, hpc] using hc
    | holders row rows =>
      simp only [hpc, Option.some.injEq] at h
      subst h
      have hrow := hI.rows row (by simp [Scan.rows, hpc])
      simp only [Scan.pending, hpc, List.append_nil] at hc
      simp only [Scan.read, hpc, clean_toMirror, Undisturbed, ← consistent_iff hI.cut hrow]
      simp only [List.forall_mem_append, List.forall_mem_singleton, hc, and_true]
      exact and_iff_right hc.1
    | mirror row holders e rest rows =>
      simp only [hpc, Option.some.injEq] at h
      subst h
      have hnamed := hI.named e (by simp [Scan.unchecked, hpc])
      simp only [Scan.pending, hpc] at hc
      simp only [Scan.read, hpc, clean_toMirror, Undisturbed, ← mirrors_iff hnamed]
      by_cases he : mirrors w.ledger row.1 e = true
      · simp only [he, if_true, hc.2, and_true, iff_true]
        exact hc.1
      · simp [he]
    | done => simp [hpc] at h
  | grant zone entity grantedAt took =>
    simp only [step] at h
    obtain ⟨l', -, rfl⟩ := Option.map_eq_some_iff.1 h
    simpa [clean_iff, Undisturbed] using hc
  | release zone entity took =>
    simp only [step] at h
    obtain ⟨l', -, rfl⟩ := Option.map_eq_some_iff.1 h
    simpa [clean_iff, Undisturbed] using hc

end

/-- A scan amid grants and releases reports a ledger that adds up, and no holder
without its mirror, exactly while its reads are undisturbed. -/
theorem scan_clean_iff (l : Ledger) (h : Balanced l) (as : List Action) :
    Always step (fun w => Clean w.scan) (start l) as ↔ Each step Undisturbed (start l) as :=
  always_iff_each (fun _ _ _ hI _ h => inv_step hI h) (fun _ _ _ hI hc h => clean_step hI hc h)
    (inv_start h) ((clean_iff startScan).2 (by simp [startScan, Scan.pending])) as

/-- One zone of the demonstration, with its two slots free. -/
def airport : Ledger :=
  insertOccupancy ⟨"zone-oslo-airport", "Oslo Lufthavn Gardermoen", "critical", 2⟩ empty

theorem consistent_airport : Consistent airport := consistent_empty.seed (by decide)

theorem balanced_airport : Balanced airport := balanced_of_consistent consistent_airport

/-- A grant after the scan has read the zone's holder. -/
theorem scan_clean_iff_late : Balanced airport ∧
    (Always step (fun w => Clean w.scan) (start airport)
        [.read, .read, .grant "zone-oslo-airport" "asset-000000" 0 true] ↔
      Each step Undisturbed (start airport)
        [.read, .read, .grant "zone-oslo-airport" "asset-000000" 0 true]) :=
  ⟨balanced_airport, scan_clean_iff airport balanced_airport
    [.read, .read, .grant "zone-oslo-airport" "asset-000000" 0 true]⟩

/-- A grant between the two reads: the slot is still counted as free, and the
drone already as a holder. -/
def torn : List Action := [.read, .grant "zone-oslo-airport" "asset-000000" 0 true, .read, .read]

theorem torn_inconsistent :
    ¬ ∀ l, Balanced l → ∀ as, Always step (fun w => Clean w.scan) (start l) as := by
  intro h
  have hrun : (exec step (start airport) torn).map (·.scan.decided.zones.map (·.consistent)) =
      some [false] := by decide
  obtain ⟨w, hw, hz⟩ := Option.map_eq_some_iff.1 hrun
  have hclean := ((h airport balanced_airport torn).last hw).1
  obtain ⟨z, hmem, hfalse⟩ := List.mem_map.1 (hz ▸ List.mem_cons_self : false ∈ w.scan.decided.zones.map _)
  rw [hclean z hmem] at hfalse
  cases hfalse

end HtapStack.LedgerView
