import HtapStack.Lib.Runs
import Mathlib.Data.Rat.Defs
import Mathlib.Logic.Function.Basic
/-!
# The cqlite reader's tables

The part of `CqliteClient` in `backend/app/db/cqlite_client.py` that registers a
provider for each table in a DataFusion session: `connect`, the retry in
`ensure_registered`, and `_table_directory`, which finds a table's files.

- `directory_current_iff`: `_table_directory` never answers with a directory other
  than that of the id the cluster reports exactly when it does not come to guess:
  without that directory, it takes the one that matches.
- `connected_iff`: in a run, the client says that it is connected whenever a table
  is registered, and not otherwise, exactly when no reconnect fails before it
  builds a new session while the old one has tables. `reconnect_forgets`: such a
  reconnect leaves the tables, and says that there are none.

Left out: the wording of the reasons for which a table is declined.
-/

namespace HtapStack.Cqlite
open Runs

inductive Table where
  | events
  | droneLatestStatus
  | droneEventsByEntity
  deriving DecidableEq, Repr

def Table.name : Table → String
  | .events => "events"
  | .droneLatestStatus => "drone_latest_status"
  | .droneEventsByEntity => "drone_events_by_entity"

/-- `CQLITE_TABLES`. -/
def cqliteTables : List Table := [.events, .droneLatestStatus, .droneEventsByEntity]

theorem mem_cqliteTables (t : Table) : t ∈ cqliteTables := by cases t <;> decide

/-- Why a table is not registered. -/
inductive Fault where
  /-- The cluster does not know the keyspace or the table. -/
  | unknown
  | noDirectory
  | several (matching : Nat)
  /-- The statement that created the table, or the reader, failed. -/
  | reader (message : String)
  deriving DecidableEq, Repr

/-! ## _table_directory -/

/-- What is in the keyspace's directory, by name, and whether it is a directory. -/
abbrev Disk := List (String × Bool)

def Disk.isDir (disk : Disk) (name : String) : Bool := disk.any (· == (name, true))

/-- `sorted(glob.glob(f"{table}-*"))`. -/
def Disk.matching (disk : Disk) (t : Table) : List String :=
  ((disk.map Prod.fst).filter fun name => (t.name ++ "-").toList.isPrefixOf name.toList).mergeSort

/-- `f"{table}-{str(table_id).replace('-', '')}"`. -/
def directoryName (t : Table) (tableId : String) : String :=
  t.name ++ "-" ++ String.ofList (tableId.toList.filter (· ≠ '-'))

/-- The one directory that matches. -/
def soleMatch (disk : Disk) (t : Table) : Except Fault String :=
  match disk.matching t with
  | [] => .error .noDirectory
  | [name] => .ok name
  | names => .error (.several names.length)

/-- `_table_directory`, by the name of the directory; `tableId` is what the cluster's metadata say. -/
def tableDirectory (tableId : Except Fault (Option String)) (disk : Disk) (t : Table) : Except Fault String :=
  match tableId with
  | .error e => .error e
  | .ok (some id) => if disk.isDir (directoryName t id) then .ok (directoryName t id) else soleMatch disk t
  | .ok none => soleMatch disk t

theorem soleMatch_eq_ok {disk : Disk} {t : Table} {name : String} :
    soleMatch disk t = .ok name ↔ disk.matching t = [name] := by
  unfold soleMatch
  split
  · next h => simp [h]
  · next h => simp [h]
  · next names hne hone =>
    refine iff_of_false (fun h => nomatch h) fun h => hone name h

/-- The directory of the reported id is there, or there is not exactly one that matches, or that is the one. -/
theorem directory_current_iff (disk : Disk) (t : Table) (id : String) :
    (∀ name, tableDirectory (.ok (some id)) disk t = .ok name → name = directoryName t id) ↔
      disk.isDir (directoryName t id) = true ∨ (disk.matching t).length ≠ 1 ∨
        disk.matching t = [directoryName t id] := by
  unfold tableDirectory
  by_cases hdir : disk.isDir (directoryName t id) = true
  · simp only [hdir, if_true, true_or, iff_true]
    intro name h
    exact (Except.ok.inj h).symm
  · simp only [hdir, Bool.false_eq_true, if_false, false_or, soleMatch_eq_ok, ne_eq, List.length_eq_one_iff]
    constructor
    · intro h
      by_cases hone : ∃ name, disk.matching t = [name]
      · obtain ⟨name, hname⟩ := hone
        exact .inr (h name hname ▸ hname)
      · exact .inl hone
    · rintro (hnone | hown) name hname
      · exact absurd ⟨name, hname⟩ hnone
      · exact (List.singleton_inj.1 (hown.symm.trans hname)).symm

/-- The table was dropped and created anew, and only the directory from before is there. -/
theorem stale_directory : ¬ ∀ disk t id name,
    tableDirectory (.ok (some id)) disk t = .ok name → name = directoryName t id := by
  intro h
  have hstale : tableDirectory (.ok (some "2b22e0a0-8f3c-11f1-9c55-00163e000001"))
      [("events-1a11c4d07e2b11f19c5500163e000001", true)] .events =
        .ok "events-1a11c4d07e2b11f19c5500163e000001" := by
    decide +kernel
  exact absurd (h _ _ _ _ hstale) (by decide +kernel)

/-! ## connect and ensure_registered -/

/-- `last_scan`: what the last scan through a provider read. -/
structure Scan where
  files : Nat
  bytes : Nat
  readerOpenMs : ℚ
  dataAgeS : Option Int
  deriving DecidableEq

structure Provider where
  directory : String
  lastScan : Scan

/-- The tables of a session, or of `_providers`. -/
abbrev Catalog := Table → Option Provider

def Catalog.empty : Catalog := fun _ => none

def Catalog.tables (catalog : Catalog) : List Table := cqliteTables.filter fun t => (catalog t).isSome

structure Client where
  ctx : Option Catalog
  providers : Catalog
  declined : Table → Option Fault
  attemptedAt : ℚ
  connected : Bool

def Client.init : Client := ⟨none, .empty, fun _ => none, 0, false⟩

/-- What a call finds: the clock, the packages, Cassandra (asked to connect if it was not), its metadata, the
disk, and what opening a directory's reader and registering it come to. -/
structure World where
  polledAt : ℚ
  attemptedAt : ℚ
  imports : Bool
  cassandra : Bool
  tableId : Table → Except Fault (Option String)
  disk : Table → Disk
  reader : Table → String → Except String Provider

/-- `_RETRY_AFTER_S`. -/
def retryAfterS : ℚ := 30

def World.usable (w : World) : Bool := w.imports && w.cassandra

def World.provider (w : World) (t : Table) : Except Fault Provider := do
  let directory ← tableDirectory (w.tableId t) (w.disk t) t
  (w.reader t directory).mapError .reader

/-- What the loops over the tables build up. -/
structure Registry where
  session : Catalog
  providers : Catalog
  declined : Table → Option Fault

/-- A table is registered, or the reason why not is kept. -/
def enroll (w : World) (r : Registry) (t : Table) : Registry :=
  match w.provider t with
  | .ok p =>
    ⟨Function.update r.session t (some p), Function.update r.providers t (some p), Function.update r.declined t none⟩
  | .error e => { r with declined := Function.update r.declined t (some e) }

def enrollMissing (w : World) (r : Registry) (t : Table) : Registry :=
  if (r.providers t).isSome then r else enroll w r t

/-- `connect`, which the operator's reconnect is as well. -/
def connect (w : World) (c : Client) : Client :=
  let c := { c with attemptedAt := w.attemptedAt, declined := fun _ => none }
  if w.usable then
    let r := cqliteTables.foldl (enroll w) ⟨.empty, .empty, c.declined⟩
    { c with ctx := some r.session, providers := r.providers, declined := r.declined,
             connected := !r.providers.tables.isEmpty }
  else { c with connected := false }

/-- `_register_missing`. -/
def registerMissing (w : World) (c : Client) : Client :=
  let c := { c with attemptedAt := w.attemptedAt }
  match c.ctx with
  | none => c
  | some session =>
    if w.usable then
      let r := cqliteTables.foldl (enrollMissing w) ⟨session, c.providers, c.declined⟩
      { c with ctx := some r.session, providers := r.providers, declined := r.declined }
    else c

def ensureRegistered (w : World) (c : Client) : Bool × Client :=
  if c.providers.tables.length = cqliteTables.length then (true, c)
  else if w.polledAt - c.attemptedAt < retryAfterS then (!c.providers.tables.isEmpty, c)
  else
    let c := if c.providers.tables.isEmpty then connect w c else registerMissing w c
    (!c.providers.tables.isEmpty, c)

/-- A table is registered in the session that the next statement uses. -/
def Client.Registered (c : Client) : Prop := ∃ session, c.ctx = some session ∧ session.tables ≠ []

/-! ## The session and the providers -/

/-- Without a session there are no providers, and else its tables are the providers. -/
def Client.Agrees (c : Client) : Prop :=
  match c.ctx with
  | none => c.providers = .empty
  | some session => session = c.providers

variable {w : World} {c : Client} {r : Registry}

theorem empty_tables : Catalog.empty.tables = [] := by decide

theorem Client.Agrees.registered (h : c.Agrees) : c.Registered ↔ c.providers.tables ≠ [] := by
  unfold Agrees at h
  unfold Registered
  cases hctx : c.ctx with
  | none =>
    simp only [hctx] at h
    simp [h, empty_tables]
  | some session =>
    simp only [hctx] at h
    simp [h]

theorem enroll_agrees (h : r.session = r.providers) (t : Table) :
    (enroll w r t).session = (enroll w r t).providers := by
  unfold enroll
  split
  · rw [h]
  · exact h

/-- The loops keep what their rounds keep. -/
theorem foldl_keeps {p : Registry → Prop} {f : Registry → Table → Registry} (hf : ∀ r t, p r → p (f r t))
    (ts : List Table) (h : p r) : p (ts.foldl f r) := by
  induction ts generalizing r with
  | nil => exact h
  | cons t ts ih => exact ih (hf r t h)

theorem connect_agrees (h : c.Agrees) : (connect w c).Agrees := by
  unfold connect
  dsimp only
  split
  · exact foldl_keeps (p := fun r => r.session = r.providers) (fun r t h => enroll_agrees h t) _ rfl
  · exact h

theorem enrollMissing_agrees (h : r.session = r.providers) (t : Table) :
    (enrollMissing w r t).session = (enrollMissing w r t).providers := by
  unfold enrollMissing
  split
  · exact h
  · exact enroll_agrees h t

/-- A table that is registered stays so. -/
theorem enrollMissing_keeps {t : Table} (h : (r.providers t).isSome) (u : Table) :
    ((enrollMissing w r u).providers t).isSome := by
  unfold enrollMissing
  split
  · exact h
  · unfold enroll
    split
    · dsimp only
      rcases eq_or_ne t u with rfl | hne
      · rw [Function.update_self]
        rfl
      · rw [Function.update_of_ne hne]
        exact h
    · exact h

theorem registerMissing_agrees (h : c.Agrees) : (registerMissing w c).Agrees := by
  unfold registerMissing
  dsimp only
  unfold Client.Agrees at h
  split
  · next hctx =>
    rw [hctx] at h
    simpa only [Client.Agrees, hctx] using h
  · next session hctx =>
    rw [hctx] at h
    split
    · exact foldl_keeps (p := fun r => r.session = r.providers) (fun r t h => enrollMissing_agrees h t) _ h
    · simpa only [Client.Agrees, hctx] using h

theorem tables_ne_nil {catalog : Catalog} : catalog.tables ≠ [] ↔ ∃ t, (catalog t).isSome := by
  simp [Catalog.tables, List.filter_eq_nil_iff, mem_cqliteTables, Option.isSome_iff_ne_none]

theorem registerMissing_tables (h : c.providers.tables ≠ []) : (registerMissing w c).providers.tables ≠ [] := by
  obtain ⟨t, ht⟩ := tables_ne_nil.1 h
  refine tables_ne_nil.2 ⟨t, ?_⟩
  unfold registerMissing
  dsimp only
  split
  · exact ht
  · split
    · exact foldl_keeps (p := fun r => (r.providers t).isSome) (fun r u h => enrollMissing_keeps h u) _ ht
    · exact ht

theorem registerMissing_connected : (registerMissing w c).connected = c.connected := by
  unfold registerMissing
  dsimp only
  split
  · rfl
  · split <;> rfl

/-- A connect that gets to its session says whether a table is registered in it; else it says no. -/
theorem connect_connected :
    (connect w c).connected = true ↔ w.usable = true ∧ (connect w c).providers.tables ≠ [] := by
  unfold connect
  dsimp only
  split
  · simp [*]
  · simp [*]

theorem connect_unusable (h : w.usable = false) : (connect w c).providers = c.providers := by
  unfold connect
  simp [h]

/-! ## Runs -/

/-- The client, and what the call before returned if it was `ensure_registered`. -/
structure State where
  client : Client
  answer : Option Bool

def State.init : State := ⟨.init, none⟩

inductive Action where
  | connect (w : World)
  | ensureRegistered (w : World)

def step (s : State) : Action → Option State
  | .connect w => some ⟨connect w s.client, none⟩
  | .ensureRegistered w =>
    let (answer, client) := ensureRegistered w s.client
    some ⟨client, some answer⟩

/-- The client says that it is connected, and `ensure_registered` says so, when a table is registered. -/
def Honest (s : State) : Prop :=
  (s.client.connected = true ↔ s.client.Registered) ∧ ∀ answer ∈ s.answer, (answer = true ↔ s.client.Registered)

/-- A connect gets to build a new session, or there are no tables in the old one. -/
def Renews (s : State) : Action → Prop
  | .connect w => w.usable = true ∨ s.client.providers.tables = []
  | .ensureRegistered _ => True

theorem honest_connect (h : c.Agrees) :
    Honest ⟨connect w c, none⟩ ↔ w.usable = true ∨ c.providers.tables = [] := by
  rw [Honest, connect_connected, (connect_agrees h).registered]
  cases hw : w.usable with
  | true => simp
  | false => simp [connect_unusable hw]

/-- What `ensure_registered` leaves is what it found, a first connect, or a second try for what is missing. -/
theorem ensureRegistered_cases (w : World) (c : Client) : (ensureRegistered w c).2 = c ∨
    c.providers.tables = [] ∧ (ensureRegistered w c).2 = connect w c ∨
    c.providers.tables ≠ [] ∧ (ensureRegistered w c).2 = registerMissing w c := by
  unfold ensureRegistered
  split
  · exact .inl rfl
  · split
    · exact .inl rfl
    · by_cases hnone : c.providers.tables = []
      · exact .inr (.inl ⟨hnone, by simp [hnone]⟩)
      · exact .inr (.inr ⟨hnone, by simp [hnone]⟩)

/-- Its answer is about the tables it leaves. -/
theorem ensureRegistered_answer (w : World) (c : Client) :
    (ensureRegistered w c).1 = true ↔ (ensureRegistered w c).2.providers.tables ≠ [] := by
  unfold ensureRegistered
  split
  · next hall =>
    refine iff_of_true rfl fun hnone => ?_
    rw [hnone] at hall
    cases hall
  · split <;> simp

theorem ensureRegistered_agrees (h : c.Agrees) : (ensureRegistered w c).2.Agrees := by
  rcases ensureRegistered_cases w c with heq | ⟨-, heq⟩ | ⟨-, heq⟩ <;> rw [heq]
  · exact h
  · exact connect_agrees h
  · exact registerMissing_agrees h

theorem honest_ensureRegistered (h : c.Agrees) (hc : c.connected = true ↔ c.Registered) :
    Honest ⟨(ensureRegistered w c).2, some (ensureRegistered w c).1⟩ := by
  have hagrees := ensureRegistered_agrees (w := w) h
  refine ⟨?_, ?_⟩
  · rcases ensureRegistered_cases w c with heq | ⟨hnone, heq⟩ | ⟨hsome, heq⟩ <;> dsimp only <;> rw [heq]
    · exact hc
    · exact ((honest_connect h).2 (.inr hnone)).1
    · rw [registerMissing_connected, hc, h.registered, (registerMissing_agrees h).registered]
      exact iff_of_true hsome (registerMissing_tables hsome)
  · rintro answer ⟨⟩
    exact (ensureRegistered_answer w c).trans hagrees.registered.symm

/-- In a run, the client is honest all along exactly when every connect renews the session or finds no tables. -/
theorem connected_iff (as : List Action) : Always step Honest .init as ↔ Each step Renews .init as := by
  refine always_iff_each (I := fun s => s.client.Agrees) ?_ ?_ rfl ?_ as
  · rintro s a t hs - h
    cases a with
    | connect w =>
      cases h
      exact connect_agrees hs
    | ensureRegistered w =>
      cases h
      exact ensureRegistered_agrees hs
  · rintro s a t hs hhonest h
    cases a with
    | connect w =>
      cases h
      exact honest_connect hs
    | ensureRegistered w =>
      cases h
      exact iff_of_true (honest_ensureRegistered hs hhonest.1) trivial
  · refine ⟨?_, by simp [State.init]⟩
    exact (by decide : Client.init.connected = true ↔ Client.init.providers.tables ≠ []).trans
      (Client.Agrees.registered (c := Client.init) rfl).symm

/-! ## A reconnect that fails -/

/-- Cassandra is up or not; if it is, every table's directory is there and can be read. -/
def demo (cassandra : Bool) : World where
  polledAt := 0
  attemptedAt := 0
  imports := true
  cassandra := cassandra
  tableId _ := .ok (some "1a11c4d0-7e2b-11f1-9c55-00163e000001")
  disk t := [(directoryName t "1a11c4d0-7e2b-11f1-9c55-00163e000001", true)]
  reader _ directory := .ok ⟨directory, ⟨0, 0, 0, none⟩⟩

/-- The operator reconnects while Cassandra is down: the tables stay, and the client says that there are none. -/
theorem reconnect_forgets : ¬ ∀ as, Always step Honest .init as := by
  intro h
  have hlast := ((h [.connect (demo true), .connect (demo false)]).2 _ rfl).2 _ rfl
  have hkept : (connect (demo false) (connect (demo true) .init)).Registered := ⟨_, rfl, by decide +kernel⟩
  exact absurd (hlast.1.2 hkept) (by decide)

end HtapStack.Cqlite
