import HtapStack.Engines.CqliteClient
import HtapStack.Lib.PyRat
import HtapStack.Lib.PyStr
import Mathlib.Data.List.Infix
import Mathlib.Data.List.Nodup
/-!
# What a cqlite statement read

`execute_query` of `backend/app/db/cqlite_client.py`. After a statement the figures
are added up from the last scan of every provider whose table the text of the
statement names, by `in`: the name of one table is part of another's, a statement
that fails early scans nothing, and one that reads a table twice scans it twice.

`figures_own_iff`: a statement is reported with the figures of its own scans,
whatever was scanned before, exactly when it scans each registered table that its
text names once, and no other. `figures_of_another`: a statement about
`drone_events_by_entity` alone is reported with the files of `events` as well.

What DataFusion does with a statement is a parameter: which providers it scans,
what they report, and what it returns or raises. Left out: the spelling of the rows.
-/

namespace HtapStack.Cqlite
open Py

/-! ## The errors -/

def errorPrefixes : List (List Char) :=
  ["FFI error: ", "DataFusion error: ", "Execution error: ", "External error: ", "cqlite: "].map String.toList

/-- One pass of the loop. -/
def stripPrefixes (text : List Char) : List Char :=
  errorPrefixes.foldl (fun text p => if p.isPrefixOf text then text.drop p.length else text) text

/-- The passes, until one changes nothing: each of the others takes something away. -/
def stripRepeatedly : Nat → List Char → List Char
  | 0, text => text
  | passes + 1, text =>
    if stripPrefixes text = text then text else stripRepeatedly passes (stripPrefixes text)

/-- `_MESSAGE_LIMIT`. -/
def messageLimit : Nat := 400

def readableError (error : List Char) : List Char :=
  let text := join [' '] (split error)
  (stripRepeatedly text.length text).take messageLimit

inductive Failure where
  | notConnected
  | cancelled
  | failed (message : List Char)
  deriving DecidableEq

def Failure.message : Failure → List Char
  | .notConnected => "cqlite reader not connected".toList
  | .cancelled => ("Cancelled: the scan was stopped, so the reader abandoned the merge.  " ++
      "The next query starts a new one.").toList
  | .failed message => message

/-! ## execute_query -/

/-- The figures of this thread's last statement. -/
structure Measured where
  files : Option Nat
  bytes : Option Nat
  readerOpenMs : Option ℚ
  dataAgeS : Option Int
  deriving DecidableEq

def Measured.reset : Measured := ⟨none, none, none, none⟩

/-- The figures of some scans, added up; the age is that of the oldest. -/
def figuresOf (scans : List Scan) : Measured :=
  if scans.isEmpty then .reset
  else
    ⟨some (scans.map Scan.files).sum, some (scans.map Scan.bytes).sum,
      some (round1 (scans.map Scan.readerOpenMs).sum), (scans.filterMap Scan.dataAgeS).max?⟩

/-- `table in sql.lower()`. -/
def named (sql : List Char) (t : Table) : Bool := decide (t.name.toList <:+: lower sql)

/-- What DataFusion does with a statement: the scans, in order, and what comes back. -/
structure Outcome (Rows : Type) where
  scans : List (Table × Scan)
  result : Except (List Char) Rows
  /-- `abort()` was called while it ran. -/
  aborted : Bool

/-- A provider keeps the last of the scans through it. -/
def lastScan (scans : List (Table × Scan)) (t : Table) : Option Scan :=
  ((scans.filter (·.1 = t)).map Prod.snd).getLast?

def Catalog.scanned (catalog : Catalog) (scans : List (Table × Scan)) : Catalog := fun t =>
  (catalog t).map fun p => { p with lastScan := (lastScan scans t).getD p.lastScan }

def Client.scanned (c : Client) (scans : List (Table × Scan)) : Client :=
  { c with ctx := c.ctx.map (·.scanned scans), providers := c.providers.scanned scans }

/-- `_collect_measured`. -/
def collectMeasured (c : Client) (sql : List Char) : Measured :=
  figuresOf ((c.providers.tables.filter (named sql)).filterMap fun t => (c.providers t).map Provider.lastScan)

structure Report (Rows : Type) where
  result : Except Failure Rows
  client : Client
  measured : Measured

def executeQuery {Rows : Type} (c : Client) (sql : List Char) (o : Outcome Rows) : Report Rows :=
  if c.ctx.isNone then ⟨.error .notConnected, c, .reset⟩
  else
    let c := c.scanned o.scans
    let measured := collectMeasured c sql
    match o.result with
    | .ok rows => ⟨.ok rows, c, measured⟩
    | .error e =>
      let message := readableError e
      if o.aborted ∨ "cancelled".toList <:+: lower message then ⟨.error .cancelled, c, measured⟩
      else ⟨.error (.failed message), c, measured⟩

variable {Rows : Type} {c : Client} {sql : List Char} {o : Outcome Rows} {scans : List (Table × Scan)} {t : Table}

/-- Whatever comes back, the figures are collected. -/
theorem executeQuery_measured (h : c.ctx ≠ none) :
    (executeQuery c sql o).measured = collectMeasured (c.scanned o.scans) sql := by
  unfold executeQuery
  rw [if_neg (by simpa using h)]
  dsimp only
  split
  · rfl
  · split <;> rfl

/-! ## Adding up -/

theorem figuresOf_files (xs : List Scan) : (figuresOf xs).files.getD 0 = (xs.map Scan.files).sum := by
  cases xs <;> rfl

theorem max?_perm {xs ys : List Int} (h : xs.Perm ys) : xs.max? = ys.max? := by
  cases hx : xs.max? with
  | none =>
    rw [List.max?_eq_none_iff] at hx
    subst hx
    rw [← h.nil_eq]
    rfl
  | some a =>
    obtain ⟨hmem, hmax⟩ := List.max?_eq_some_iff.1 hx
    exact (List.max?_eq_some_iff.2 ⟨h.mem_iff.1 hmem, fun b hb => hmax b (h.mem_iff.2 hb)⟩).symm

/-- The order of the scans does not matter. -/
theorem figuresOf_perm {xs ys : List Scan} (h : xs.Perm ys) : figuresOf xs = figuresOf ys := by
  have hempty : xs.isEmpty = ys.isEmpty := by
    rw [Bool.eq_iff_iff, List.isEmpty_iff, List.isEmpty_iff]
    exact ⟨fun hx => (hx ▸ h).nil_eq.symm, fun hy => (hy ▸ h).eq_nil⟩
  simp only [figuresOf, hempty, (h.map _).sum_eq, max?_perm (h.filterMap _)]

/-! ## The scans that are added up -/

/-- The last scan through the table's provider. -/
def Catalog.last (catalog : Catalog) (t : Table) : Option Scan := (catalog t).map Provider.lastScan

/-- The tables whose figures are added up. -/
def namedTables (catalog : Catalog) (sql : List Char) : List Table := catalog.tables.filter (named sql)

theorem mem_tables {catalog : Catalog} : t ∈ catalog.tables ↔ (catalog t).isSome := by
  simp [Catalog.tables, mem_cqliteTables]

theorem namedTables_nodup (catalog : Catalog) (sql : List Char) : (namedTables catalog sql).Nodup :=
  ((by decide : cqliteTables.Nodup).filter _).filter _

theorem tables_map (catalog : Catalog) (f : Table → Provider → Provider) :
    Catalog.tables (fun t => (catalog t).map (f t)) = catalog.tables := by
  simp [Catalog.tables]

theorem tables_scanned (catalog : Catalog) (scans : List (Table × Scan)) :
    (catalog.scanned scans).tables = catalog.tables := tables_map _ _

theorem collectMeasured_scanned : collectMeasured (c.scanned scans) sql =
    figuresOf ((namedTables c.providers sql).filterMap (c.providers.scanned scans).last) := by
  unfold collectMeasured namedTables
  rw [← tables_scanned c.providers scans]
  rfl

theorem last_scanned {catalog : Catalog} (h : t ∈ catalog.tables) {scan : Scan}
    (hscan : lastScan scans t = some scan) : (catalog.scanned scans).last t = some scan := by
  obtain ⟨p, hp⟩ := Option.isSome_iff_exists.1 (mem_tables.1 h)
  simp [Catalog.last, Catalog.scanned, hp, hscan]

/-- Of a table that is scanned once, that scan is the last. -/
theorem lastScan_of_nodup (hnodup : (scans.map Prod.fst).Nodup) {scan : Scan} (h : (t, scan) ∈ scans) :
    lastScan scans t = some scan := by
  have hsole : scans.filter (·.1 = t) = [(t, scan)] := by
    induction scans with
    | nil => cases h
    | cons x scans ih =>
      obtain ⟨hx, hrest⟩ := List.nodup_cons.1 hnodup
      rcases List.mem_cons.1 h with rfl | h
      · have hnone : scans.filter (·.1 = t) = [] := by
          refine List.filter_eq_nil_iff.2 fun y hy hyt => hx ?_
          exact List.mem_map.2 ⟨y, hy, by simpa using hyt⟩
        rw [List.filter_cons_of_pos (by simp), hnone]
      · have hne : ¬ decide (x.1 = t) = true := by
          intro heq
          exact hx (List.mem_map.2 ⟨_, h, (of_decide_eq_true heq).symm⟩)
        rw [List.filter_cons, if_neg hne, ih hrest h]
  rw [lastScan, hsole]
  rfl

/-- If each table that is named is scanned once, and no other, the scans are what is added up. -/
theorem collected_perm {catalog : Catalog} (h : (scans.map Prod.fst).Perm (namedTables catalog sql)) :
    ((namedTables catalog sql).filterMap (catalog.scanned scans).last).Perm (scans.map Prod.snd) := by
  have hnodup : (scans.map Prod.fst).Nodup := h.nodup_iff.2 (namedTables_nodup catalog sql)
  refine (h.symm.filterMap _).trans (.of_eq ?_)
  rw [List.filterMap_map, ← List.filterMap_eq_map]
  refine List.filterMap_congr fun x hx => ?_
  have hmem : x.1 ∈ namedTables catalog sql := h.mem_iff.1 (List.mem_map_of_mem hx)
  exact last_scanned (List.mem_filter.1 hmem).1 (lastScan_of_nodup hnodup hx)

/-! ## Any history -/

/-- The client with other last scans. -/
def Client.withLast (c : Client) (history : Table → Scan) : Client :=
  let providers : Catalog := fun t => (c.providers t).map fun p => { p with lastScan := history t }
  { c with ctx := some providers, providers := providers }

/-- A scan of so many files. -/
def scanOf (files : Nat) : Scan := ⟨files, 0, 0, none⟩

/-- The statement scans these tables, and the scans read these many files. -/
def scanning (used : List Table) (files : Table → Nat) : Outcome Unit :=
  ⟨used.map fun t => (t, scanOf (files t)), .ok (), false⟩

theorem lastScan_scanning (used : List Table) (files : Table → Nat) (t : Table) :
    lastScan (scanning used files).scans t = if t ∈ used then some (scanOf (files t)) else none := by
  have hsame : ∀ x ∈ (((scanning used files).scans.filter (·.1 = t)).map Prod.snd), x = scanOf (files t) := by
    intro x hx
    obtain ⟨y, hy, rfl⟩ := List.mem_map.1 hx
    obtain ⟨hmem, hyt⟩ := List.mem_filter.1 hy
    obtain ⟨u, -, rfl⟩ := List.mem_map.1 hmem
    exact congrArg (scanOf <| files ·) (of_decide_eq_true hyt)
  unfold lastScan
  split
  · next ht =>
    have hmem : scanOf (files t) ∈ ((scanning used files).scans.filter (·.1 = t)).map Prod.snd :=
      List.mem_map.2 ⟨(t, scanOf (files t)), List.mem_filter.2 ⟨List.mem_map_of_mem ht, by simp⟩, rfl⟩
    obtain ⟨x, hx⟩ := Option.isSome_iff_exists.1 (List.getLast?_isSome.2 (List.ne_nil_of_mem hmem))
    rw [hx, hsame x (List.mem_of_getLast? hx)]
  · next ht =>
    rw [List.getLast?_eq_none_iff, List.map_eq_nil_iff, List.filter_eq_nil_iff]
    intro y hy hyt
    obtain ⟨u, hu, rfl⟩ := List.mem_map.1 hy
    exact ht (of_decide_eq_true hyt ▸ hu)

/-- The files reported: of the statement's scan where there is one, else of one before. -/
theorem files_scanning (c : Client) (sql : List Char) (history files : Table → Nat) (used : List Table) :
    (executeQuery (c.withLast (scanOf <| history ·)) sql (scanning used files)).measured.files.getD 0 =
      ((namedTables c.providers sql).map fun t => if t ∈ used then files t else history t).sum := by
  have htables : namedTables (c.withLast (scanOf <| history ·)).providers sql = namedTables c.providers sql :=
    congrArg (List.filter (named sql)) (tables_map _ _)
  rw [executeQuery_measured (by simp [Client.withLast]), collectMeasured_scanned, figuresOf_files, htables]
  refine congrArg List.sum ?_
  rw [List.map_filterMap, ← List.filterMap_eq_map]
  refine List.filterMap_congr fun t ht => ?_
  obtain ⟨p, hp⟩ := Option.isSome_iff_exists.1 (mem_tables.1 (List.mem_filter.1 ht).1)
  simp only [Catalog.last, Catalog.scanned, Client.withLast, hp, Option.map_some, lastScan_scanning, Function.comp]
  split <;> rfl

theorem sum_indicator {α : Type} (p : α → Prop) [DecidablePred p] (xs : List α) :
    (xs.map fun x => if p x then 1 else 0).sum = xs.countP (p ·) := by
  induction xs with
  | nil => rfl
  | cons x xs ih =>
    rw [List.map_cons, List.sum_cons, ih, List.countP_cons]
    simp only [decide_eq_true_eq]
    exact Nat.add_comm _ _

theorem countP_eq (xs : List Table) (t : Table) : xs.countP (· = t) = xs.count t := by
  rw [List.count]
  exact List.countP_congr fun u _ => by simp

/-- If the files are right for every history, the named tables are scanned once each, and no others. -/
theorem perm_of_files {used tables : List Table} (htables : tables.Nodup) (h : ∀ history files : Table → Nat,
    (tables.map fun t => if t ∈ used then files t else history t).sum = (used.map files).sum) :
    used.Perm tables := by
  have hone (t : Table) : tables.countP (fun u => u ∈ used ∧ u = t) = used.count t := by
    have hfiles := h (fun _ => 0) fun u => if u = t then 1 else 0
    rw [sum_indicator (· = t), countP_eq] at hfiles
    rw [← hfiles, ← sum_indicator fun u => u ∈ used ∧ u = t]
    refine congrArg List.sum (List.map_congr_left fun u _ => ?_)
    split_ifs <;> tauto
  have hstale (t : Table) : tables.countP (fun u => u ∉ used ∧ u = t) = 0 := by
    have hfiles := h (fun u => if u = t then 1 else 0) fun _ => 0
    have hnone : (used.map fun _ => 0).sum = 0 := by simp
    rw [← sum_indicator fun u => u ∉ used ∧ u = t]
    refine (congrArg List.sum (List.map_congr_left fun u _ => ?_)).trans (hfiles.trans hnone)
    split_ifs <;> tauto
  have hnodup : used.Nodup := by
    refine List.nodup_iff_count_le_one.2 fun t => ?_
    calc used.count t = tables.countP (fun u => u ∈ used ∧ u = t) := (hone t).symm
      _ ≤ tables.countP (· = t) := List.countP_mono_left fun u _ hu => by simpa using (of_decide_eq_true hu).2
      _ = tables.count t := countP_eq tables t
      _ ≤ 1 := List.nodup_iff_count_le_one.1 htables t
  refine (List.perm_ext_iff_of_nodup hnodup htables).2 fun t => ⟨fun ht => ?_, fun ht => ?_⟩
  · have hpos := List.count_pos_iff.2 ht
    rw [← hone t, List.countP_pos_iff] at hpos
    obtain ⟨u, hu, hut⟩ := hpos
    exact (of_decide_eq_true hut).2 ▸ hu
  · by_contra hnot
    exact List.countP_eq_zero.1 (hstale t) t ht (decide_eq_true ⟨hnot, rfl⟩)

/-- A statement is reported with the figures of its own scans, whatever was scanned before and whatever its scans
read, exactly when it scans each registered table that its text names once, and no other table. A statement that
finds no session has no figures. -/
theorem figures_own_iff (c : Client) (sql : List Char) :
    (∀ o : Outcome Rows, c.ctx = none → (executeQuery c sql o).measured = figuresOf []) ∧
    ∀ used : List Table, (∀ (c' : Client) (o : Outcome Unit), c'.ctx = some c'.providers →
        c'.providers.tables = c.providers.tables → o.scans.map Prod.fst = used →
        (executeQuery c' sql o).measured = figuresOf (o.scans.map Prod.snd)) ↔
      used.Perm (c.providers.tables.filter (named sql)) := by
  refine ⟨fun o hnone => ?_, fun used => ⟨fun h => ?_, fun h c' o hctx htables hused => ?_⟩⟩
  · rw [executeQuery, if_pos (by simp [hnone])]
    rfl
  · refine perm_of_files (namedTables_nodup c.providers sql) fun history files => ?_
    have hown := h (c.withLast (scanOf <| history ·)) (scanning used files) rfl (tables_map _ _)
      (by simp [scanning, Function.comp_def])
    refine (files_scanning c sql history files used).symm.trans ?_
    rw [hown, figuresOf_files]
    simp [scanning, Function.comp_def, scanOf]
  · have hsame : namedTables c'.providers sql = c.providers.tables.filter (named sql) := by rw [← htables]; rfl
    rw [executeQuery_measured (by simp [hctx]), collectMeasured_scanned]
    exact figuresOf_perm (collected_perm (by rw [hused, hsame]; exact h))

/-! ## One name in another -/

/-- `events` and `drone_events_by_entity` are registered, and `events` was scanned before. -/
def scannedBefore : Client :=
  let providers : Catalog := fun t =>
    match t with
    | .events => some ⟨"events-1a11c4d07e2b11f19c5500163e000001", scanOf 5⟩
    | .droneEventsByEntity => some ⟨"drone_events_by_entity-1a12c4d07e2b11f19c5500163e000001", scanOf 0⟩
    | .droneLatestStatus => none
  ⟨some providers, providers, fun _ => none, 0, true⟩

def historyStatement : List Char := "SELECT count(*) FROM drone_events_by_entity".toList

/-- The statement scans three files, and eight are reported. -/
theorem figures_of_another : ¬ ∀ (c : Client) sql (o : Outcome Unit), c.ctx = some c.providers →
    (executeQuery c sql o).measured = figuresOf (o.scans.map Prod.snd) := by
  intro h
  have hfiles := congrArg Measured.files
    (h scannedBefore historyStatement (scanning [.droneEventsByEntity] fun _ => 3) rfl)
  exact absurd hfiles (by decide +kernel)

end HtapStack.Cqlite
