import HtapStack.Lib.PyStr
import HtapStack.Lib.Runs
import Mathlib.Data.List.Perm.Basic
import Mathlib.Data.Set.Function
import Mathlib.Logic.Function.Basic
/-!
# What the live embedder believes it indexed

`LiveEmbedder._prime` and `_pass`, and `_run_indexing` behind `/index-all`, of
`backend/app/routes/vector.py`. Both read the snippets of `drone_latest_status`,
embed them one by one and write `drone_text_embeddings`; only the embedder keeps
`_seen`, the digest of the snippet it wrote for each asset.

Every read of a row, every embedding, every write and every entry in `_seen` is a
step of its own, so a run is any interleaving of one embedder, any number of
index-all runs and the sink's changes.

`seen_of_followed`: between passes and with no index-all running, a digest in
`_seen` that is the current snippet's means that its text is in the row, as long
as no write that `_seen` is not told of lands where it records another text
(`Followed`), and no two texts of an asset have one digest. `stale_index` is a run
in which such a write lands.

Left out: the vectors, the switch and the figures of `status`.
-/

namespace HtapStack.LiveEmbedder
open Runs

abbrev Text := List Char

/-- Who embeds: the loop, or a run of index-all. -/
inductive Owner where
  | live
  | index (r : Nat)
  deriving DecidableEq, Repr

/-- A task that holds a vector and waits for its INSERT is `writing`; `written`
is the embedder's task between the INSERT and the entry in `_seen`. -/
inductive Stage where
  | embedding
  | writing
  | written
  deriving DecidableEq, Repr

structure Task (A : Type) where
  owner : Owner
  asset : A
  text : Text
  stage : Stage
  deriving DecidableEq, Repr

/-- What a pass has read so far: of the embeddings, then of the snippets. -/
inductive Scan (A : Type) where
  | none
  | priming (rows : List (A × Text))
  | reading (rows : List (A × Text))
  deriving DecidableEq, Repr

def Scan.stored {A : Type} : Scan A → List (A × Text)
  | .priming rows => rows
  | _ => []

/-- The two tables, the embedder's memory and everything under way. `late` are
writes that the driver has given up on and that Cassandra may still apply. -/
structure World (A D : Type) where
  snippet : A → Option Text
  table : A → Option Text
  seen : A → Option D
  primed : Bool
  scan : Scan A
  runs : Nat → Option (List (A × Text))
  tasks : List (Task A)
  late : List (A × Text)

variable {A D : Type} [DecidableEq A]

/-- The process starts, over whatever the two tables hold. -/
def init (snippet table : A → Option Text) : World A D :=
  ⟨snippet, table, fun _ => none, false, .none, fun _ => none, [], []⟩

/-- An INSERT is done, or raises: without effect, or while still on its way. -/
inductive Outcome where
  | done
  | lost
  | late
  deriving DecidableEq, Repr

inductive Action (A : Type) where
  /-- The sink writes the asset's snippet. -/
  | change (a : A) (snippet : Option Text)
  | beginPass
  | readStored (a : A)
  | prime
  | readSnippet (a : A)
  | choose
  /-- A read of the pass raises. -/
  | failPass
  | post (r : Nat)
  | readRow (r : Nat) (a : A)
  | chooseAll (r : Nat)
  | failRun (r : Nat)
  /-- The task at this place of the list has its vector, or has failed. -/
  | embedded (i : Nat) (ok : Bool)
  | wrote (i : Nat) (outcome : Outcome)
  | recorded (i : Nat)
  /-- A write that was given up on is applied. -/
  | applied (k : Nat)

/-- `settings.vector_live_max_per_cycle`, and the digest of `_snippet_key`. -/
structure Config (D : Type) where
  maxPerCycle : Int
  digest : Text → D

/-- `rows[:n]`. -/
def slice {α : Type} (n : Int) (rows : List α) : List α :=
  if 0 ≤ n then rows.take n.toNat else rows.take (rows.length - (-n).toNat)

def hasText (text : Text) : Bool := !(Py.strip text).isEmpty

/-- One more row of a scan, which returns each asset once. -/
def scanned (rows : List (A × Text)) (a : A) (text : Option Text) : Option (List (A × Text)) :=
  text.bind fun t => if a ∈ rows.map Prod.fst then none else some (rows ++ [(a, t)])

/-- The assignments of `_prime`. -/
def primedSeen (digest : Text → D) (seen : A → Option D) (rows : List (A × Text)) : A → Option D :=
  rows.foldl (fun seen row => if row.2.isEmpty then seen else Function.update seen row.1 (some (digest row.2))) seen

/-- The batch of `_pass`. -/
def changed [DecidableEq D] (cfg : Config D) (seen : A → Option D) (rows : List (A × Text)) : List (A × Text) :=
  slice cfg.maxPerCycle (rows.filter fun row => hasText row.2 && seen row.1 != some (cfg.digest row.2))

def begun (owner : Owner) (rows : List (A × Text)) : List (Task A) :=
  rows.map fun row => ⟨owner, row.1, row.2, .embedding⟩

def World.betweenPasses (w : World A D) : Bool := w.scan == .none && w.tasks.all fun task => task.owner != .live

def World.put (w : World A D) (a : A) (text : Text) : World A D :=
  { w with table := Function.update w.table a (some text) }

def World.setRun (w : World A D) (r : Nat) (rows : Option (List (A × Text))) : World A D :=
  { w with runs := Function.update w.runs r rows }

/-- The tasks without the one at this place. -/
def World.drop (w : World A D) (i : Nat) : World A D := { w with tasks := w.tasks.eraseIdx i }

def World.add (w : World A D) (task : Task A) : World A D := { w with tasks := task :: w.tasks }

def World.wrote (w : World A D) (task : Task A) : Outcome → World A D
  | .done =>
    match task.owner with
    | .live => (w.put task.asset task.text).add { task with stage := .written }
    | .index _ => w.put task.asset task.text
  | .lost => w
  | .late => { w with late := (task.asset, task.text) :: w.late }

def step [DecidableEq D] (cfg : Config D) (w : World A D) : Action A → Option (World A D)
  | .change a snippet => some { w with snippet := Function.update w.snippet a snippet }
  | .beginPass =>
    if w.betweenPasses then some { w with scan := if w.primed then .reading [] else .priming [] } else none
  | .readStored a =>
    match w.scan with
    | .priming rows => (scanned rows a (w.table a)).map fun rows => { w with scan := .priming rows }
    | _ => none
  | .prime =>
    match w.scan with
    | .priming rows =>
      some { w with seen := primedSeen cfg.digest w.seen rows, primed := true, scan := .reading [] }
    | _ => none
  | .readSnippet a =>
    match w.scan with
    | .reading rows => (scanned rows a (w.snippet a)).map fun rows => { w with scan := .reading rows }
    | _ => none
  | .choose =>
    match w.scan with
    | .reading rows => some { w with scan := .none, tasks := begun .live (changed cfg w.seen rows) ++ w.tasks }
    | _ => none
  | .failPass => if w.scan = .none then none else some { w with scan := .none }
  | .post r => if (w.runs r).isNone then some (w.setRun r (some [])) else none
  | .readRow r a => (w.runs r).bind fun rows => (scanned rows a (w.snippet a)).map fun rows => w.setRun r (some rows)
  | .chooseAll r =>
    (w.runs r).map fun rows =>
      { w.setRun r none with tasks := begun (.index r) (rows.filter fun row => hasText row.2) ++ w.tasks }
  | .failRun r => (w.runs r).map fun _ => w.setRun r none
  | .embedded i ok =>
    w.tasks[i]?.bind fun task =>
      if task.stage = .embedding then
        some (if ok then (w.drop i).add { task with stage := .writing } else w.drop i)
      else none
  | .wrote i outcome =>
    w.tasks[i]?.bind fun task => if task.stage = .writing then some ((w.drop i).wrote task outcome) else none
  | .recorded i =>
    w.tasks[i]?.bind fun task =>
      if task.owner = .live ∧ task.stage = .written then
        some { w.drop i with seen := Function.update w.seen task.asset (some (cfg.digest task.text)) }
      else none
  | .applied k => w.late[k]?.map fun row => { w.put row.1 row.2 with late := w.late.eraseIdx k }

/-- An index-all is reading its rows or works on one of them. -/
def World.Indexing (w : World A D) : Prop :=
  (∃ r, w.runs r ≠ none) ∨ ∃ task ∈ w.tasks, task.owner ≠ .live

/-- What the embedder believes of a current snippet is so. -/
def SeenIsIndexed (cfg : Config D) (w : World A D) : Prop :=
  w.betweenPasses = true → ¬ w.Indexing →
    ∀ a, ∀ s ∈ w.snippet a, w.seen a = some (cfg.digest s) → w.table a = some s

/-! ## Writes that `_seen` is not told of -/

/-- The embedder has written this asset and not noted it yet. -/
def Task.Applied (task : Task A) (a : A) : Prop := task.owner = .live ∧ task.asset = a ∧ task.stage = .written

instance (task : Task A) (a : A) : Decidable (task.Applied a) := by unfold Task.Applied; infer_instance

def World.Applied (w : World A D) (a : A) : Prop := ∃ task ∈ w.tasks, task.Applied a

instance (w : World A D) (a : A) : Decidable (w.Applied a) := by unfold World.Applied; infer_instance

/-- Where `_seen` is not told of a write of this text, it records no other, and is not about to: by the embedder's
own write that waits for its entry, or by a row that priming has read. -/
structure World.Heard (cfg : Config D) (w : World A D) (a : A) (text : Text) : Prop where
  recorded : ∀ d ∈ w.seen a, d = cfg.digest text
  waiting : ∀ task ∈ w.tasks, task.Applied a → task.text = text
  primed : ∀ row ∈ w.scan.stored, row.1 = a → row.2 = text

/-- The writes of index-all, and those the driver gave up on, land where `_seen` records no other text. -/
def Followed (cfg : Config D) (w : World A D) : Action A → Prop
  | .wrote i .done => ∀ task ∈ w.tasks[i]?, task.owner ≠ .live → w.Heard cfg task.asset task.text
  | .applied k => ∀ row ∈ w.late[k]?, w.Heard cfg row.1 row.2
  | _ => True

instance [DecidableEq D] (cfg : Config D) (w : World A D) (a : A) (text : Text) : Decidable (w.Heard cfg a text) :=
  decidable_of_iff ((∀ d ∈ w.seen a, d = cfg.digest text) ∧
      (∀ task ∈ w.tasks, task.Applied a → task.text = text) ∧ ∀ row ∈ w.scan.stored, row.1 = a → row.2 = text)
    ⟨fun ⟨h₁, h₂, h₃⟩ => ⟨h₁, h₂, h₃⟩, fun ⟨h₁, h₂, h₃⟩ => ⟨h₁, h₂, h₃⟩⟩

instance [DecidableEq D] (cfg : Config D) (w : World A D) : (a : Action A) → Decidable (Followed cfg w a)
  | .wrote i .done =>
    inferInstanceAs (Decidable (∀ task ∈ w.tasks[i]?, task.owner ≠ .live → w.Heard cfg task.asset task.text))
  | .applied k => inferInstanceAs (Decidable (∀ row ∈ w.late[k]?, w.Heard cfg row.1 row.2))
  | .wrote _ .lost | .wrote _ .late | .change .. | .beginPass | .readStored _ | .prime | .readSnippet _ | .choose
  | .failPass | .post _ | .readRow .. | .chooseAll _ | .failRun _ | .embedded .. | .recorded _ => isTrue trivial

/-- The texts of an asset in a run: of its snippet and its row at the start, and what the sink writes. -/
def texts (snippet table : A → Option Text) (as : List (Action A)) (a : A) : Set Text :=
  {s | s ∈ snippet a ∨ s ∈ table a ∨ .change a (some s) ∈ as}

/-! ## The invariant -/

structure Inv (cfg : Config D) (w : World A D) : Prop where
  apart : w.tasks.Pairwise fun x y => x.owner = .live → y.owner = .live → x.asset ≠ y.asset
  rows : ∀ rows, w.scan = .reading rows → (rows.map Prod.fst).Nodup
  alone : w.scan ≠ .none → ∀ task ∈ w.tasks, task.owner ≠ .live
  written : ∀ task ∈ w.tasks, ∀ a, task.Applied a → w.table a = some task.text
  stored : ∀ row ∈ w.scan.stored, w.table row.1 = some row.2
  follows : ∀ a, ∀ d ∈ w.seen a, w.Applied a ∨ ∃ text ∈ w.table a, cfg.digest text = d

variable {cfg : Config D} {w v : World A D}

/-- Between passes, a digest in `_seen` is that of what the row holds. -/
theorem Inv.digest_table (hI : Inv cfg w) (hbetween : w.betweenPasses = true) {a : A} {d : D} (hseen : w.seen a = some d) :
    ∃ text ∈ w.table a, cfg.digest text = d := by
  obtain ⟨task, hmem, hlive, -, -⟩ | h := hI.follows a d hseen
  · have := (Bool.and_eq_true_iff.1 hbetween).2
    simpa [hlive] using List.all_eq_true.1 this task hmem
  · exact h

omit [DecidableEq A] in
theorem inv_init (snippet table : A → Option Text) : Inv cfg (init snippet table) where
  apart := .nil
  rows := by simp [init]
  alone := by simp [init]
  written := by simp [init]
  stored := by simp [init, Scan.stored]
  follows := by simp [init]

/-! ## Scans -/

theorem scanned_nodup {rows rows' : List (A × Text)} {a : A} {text : Option Text}
    (h : scanned rows a text = some rows') (hn : (rows.map Prod.fst).Nodup) : (rows'.map Prod.fst).Nodup := by
  obtain ⟨t, -, h⟩ := Option.bind_eq_some_iff.1 h
  simp only [Option.ite_none_left_eq_some, Option.some.injEq] at h
  obtain ⟨hnew, rfl⟩ := h
  rw [List.map_append, List.nodup_append]
  exact ⟨hn, by simp, by rintro x hx y hy rfl; simp at hy; exact hnew (hy ▸ hx)⟩

theorem mem_scanned {rows rows' : List (A × Text)} {a : A} {text : Option Text}
    (h : scanned rows a text = some rows') {row : A × Text} (hrow : row ∈ rows') :
    row ∈ rows ∨ row.1 = a ∧ text = some row.2 := by
  obtain ⟨t, ht, h⟩ := Option.bind_eq_some_iff.1 h
  simp only [Option.ite_none_left_eq_some, Option.some.injEq] at h
  obtain ⟨-, rfl⟩ := h
  obtain hrow | hrow := List.mem_append.1 hrow
  · exact .inl hrow
  · obtain rfl := List.mem_singleton.1 hrow
    exact .inr ⟨rfl, ht⟩

/-- What `_prime` puts into `_seen` is the digest of a row it read. -/
theorem primedSeen_cases {seen : A → Option D} {rows : List (A × Text)} {a : A} {d : D}
    (h : primedSeen cfg.digest seen rows a = some d) :
    seen a = some d ∨ ∃ row ∈ rows, row.1 = a ∧ cfg.digest row.2 = d := by
  induction rows generalizing seen with
  | nil => exact .inl h
  | cons row rows ih =>
    obtain h | ⟨r, hr, h⟩ := ih h
    · dsimp only at h
      split at h
      · exact .inl h
      · by_cases ha : row.1 = a
        · subst ha
          exact .inr ⟨row, List.mem_cons_self, rfl, by simpa using h⟩
        · exact .inl (by simpa [Function.update_of_ne (Ne.symm ha)] using h)
    · exact .inr ⟨r, List.mem_cons_of_mem _ hr, h⟩

theorem slice_sublist {α : Type} (n : Int) (rows : List α) : (slice n rows).Sublist rows := by
  unfold slice
  split <;> exact List.take_sublist _ _

omit [DecidableEq A] in
theorem changed_nodup [DecidableEq D] {seen : A → Option D} {rows : List (A × Text)} (hn : (rows.map Prod.fst).Nodup) :
    ((changed cfg seen rows).map Prod.fst).Nodup :=
  hn.sublist (((slice_sublist _ _).trans List.filter_sublist).map _)

omit [DecidableEq A] in
theorem mem_begun {owner : Owner} {rows : List (A × Text)} {task : Task A} (h : task ∈ begun owner rows) :
    task.owner = owner ∧ task.stage = .embedding := by
  obtain ⟨row, -, rfl⟩ := List.mem_map.1 h
  exact ⟨rfl, rfl⟩

/-! ## Tasks that come and go -/

/-- The task is the only one of the embedder's for its asset, in the second half of a pass. -/
def World.Fits (w : World A D) (task : Task A) : Prop :=
  task.owner = .live → w.scan = .none ∧ ∀ x ∈ w.tasks, x.owner = .live → x.asset ≠ task.asset

omit [DecidableEq A] in
theorem drop_perm {i : Nat} {task : Task A} (h : w.tasks[i]? = some task) :
    (task :: (w.drop i).tasks).Perm w.tasks := by
  obtain ⟨hi, rfl⟩ := List.getElem?_eq_some_iff.1 h
  exact List.getElem_cons_eraseIdx_perm hi

omit [DecidableEq A] in
theorem mem_drop_or {i : Nat} {task x : Task A} (h : w.tasks[i]? = some task) (hx : x ∈ w.tasks) :
    x = task ∨ x ∈ (w.drop i).tasks := List.mem_cons.1 ((drop_perm h).mem_iff.2 hx)

omit [DecidableEq A] in
theorem mem_of_drop {i : Nat} {x : Task A} (hx : x ∈ (w.drop i).tasks) : x ∈ w.tasks :=
  (List.eraseIdx_sublist ..).mem hx

theorem Inv.fits (hI : Inv cfg w) {i : Nat} {task : Task A} (h : w.tasks[i]? = some task) : (w.drop i).Fits task := by
  have hmem : task ∈ w.tasks := List.mem_of_getElem? h
  intro hlive
  constructor
  · by_contra hscan
    exact hI.alone hscan task hmem hlive
  · intro x hx hxlive
    have hpair : (task :: (w.drop i).tasks).Pairwise fun x y => x.owner = .live → y.owner = .live → x.asset ≠ y.asset :=
      (drop_perm h).symm.pairwise hI.apart fun hxy hy hx => (hxy hx hy).symm
    exact ((List.pairwise_cons.1 hpair).1 x hx hlive hxlive).symm

omit [DecidableEq A] in
/-- A task that fails, or is index-all's and done. -/
theorem Inv.drop (hI : Inv cfg w) {i : Nat} {task : Task A} (h : w.tasks[i]? = some task)
    (hstage : task.stage ≠ .written) : Inv cfg (w.drop i) where
  apart := hI.apart.sublist (List.eraseIdx_sublist ..)
  rows := hI.rows
  alone hscan x hx := hI.alone hscan x (mem_of_drop hx)
  written x hx := hI.written x (mem_of_drop hx)
  stored := hI.stored
  follows a d hseen := by
    obtain ⟨x, hx, hlive, ha, hwritten⟩ | ht := hI.follows a d hseen
    · obtain rfl | hx := mem_drop_or h hx
      · exact absurd hwritten hstage
      · exact .inl ⟨x, hx, hlive, ha, hwritten⟩
    · exact .inr ht

omit [DecidableEq A] in
theorem pairwise_add (task : Task A) (hI : Inv cfg w) (hfit : w.Fits task) :
    (task :: w.tasks).Pairwise fun x y => x.owner = .live → y.owner = .live → x.asset ≠ y.asset :=
  List.pairwise_cons.2 ⟨fun x hx hlive hxlive => ((hfit hlive).2 x hx hxlive).symm, hI.apart⟩

omit [DecidableEq A] in
/-- A task that has not written anything yet. -/
theorem Inv.add (hI : Inv cfg w) (task : Task A) (hfit : w.Fits task) (hstage : task.stage ≠ .written) :
    Inv cfg (w.add task) where
  apart := pairwise_add task hI hfit
  rows := hI.rows
  alone := by
    intro hscan x hx
    obtain rfl | hx := List.mem_cons.1 hx
    · exact fun hlive => hscan (hfit hlive).1
    · exact hI.alone hscan x hx
  written := by
    rintro x hx a ⟨hlive, ha, hwritten⟩
    obtain rfl | hx := List.mem_cons.1 hx
    · exact absurd hwritten hstage
    · exact hI.written x hx a ⟨hlive, ha, hwritten⟩
  stored := hI.stored
  follows a d hseen := (hI.follows a d hseen).imp_left fun ⟨x, hx, h⟩ => ⟨x, List.mem_cons_of_mem _ hx, h⟩

/-! ## Writes -/

theorem Inv.put (hI : Inv cfg w) {a : A} {text : Text} (h : w.Heard cfg a text) : Inv cfg (w.put a text) where
  apart := hI.apart
  rows := hI.rows
  alone := hI.alone
  written := by
    intro x hx b hb
    by_cases hba : b = a
    · subst hba
      simp [World.put, h.waiting x hx hb]
    · simpa [World.put, hba] using hI.written x hx b hb
  stored := by
    intro row hrow
    by_cases hba : row.1 = a
    · subst hba
      simp [World.put, h.primed row hrow rfl]
    · simpa [World.put, hba] using hI.stored row hrow
  follows := by
    intro b d hseen
    by_cases hba : b = a
    · subst hba
      exact .inr ⟨text, by simp [World.put], (h.recorded d hseen).symm⟩
    · exact (hI.follows b d hseen).imp_right fun ht => by simpa [World.put, hba] using ht

/-- The embedder's own write: its task goes on to note it. -/
theorem Inv.write (hI : Inv cfg w) {task : Task A} (hlive : task.owner = .live) (hfit : w.Fits task) :
    Inv cfg ((w.put task.asset task.text).add { task with stage := .written }) where
  apart := pairwise_add (w := w) { task with stage := .written } hI hfit
  rows := hI.rows
  alone hscan := absurd (hfit hlive).1 hscan
  written := by
    rintro x hx a ⟨hxlive, rfl, hwritten⟩
    obtain rfl | hx := List.mem_cons.1 hx
    · simp [World.add, World.put]
    · have hne := (hfit hlive).2 x hx hxlive
      simpa [World.add, World.put, hne] using hI.written x hx x.asset ⟨hxlive, rfl, hwritten⟩
  stored := by
    have hscan : w.scan = .none := (hfit hlive).1
    simp [World.add, World.put, hscan, Scan.stored]
  follows := by
    intro b d hseen
    by_cases hba : b = task.asset
    · exact .inl ⟨_, List.mem_cons_self, hlive, hba.symm, rfl⟩
    · obtain ⟨x, hx, h⟩ | ht := hI.follows b d hseen
      · exact .inl ⟨x, List.mem_cons_of_mem _ hx, h⟩
      · exact .inr (by simpa [World.add, World.put, hba] using ht)

/-- The entry in `_seen` after the write. -/
theorem Inv.record (hI : Inv cfg w) {i : Nat} {task : Task A} (h : w.tasks[i]? = some task)
    (hlive : task.owner = .live) (hstage : task.stage = .written) :
    Inv cfg { w.drop i with seen := Function.update w.seen task.asset (some (cfg.digest task.text)) } where
  apart := hI.apart.sublist (List.eraseIdx_sublist ..)
  rows := hI.rows
  alone hscan x hx := hI.alone hscan x (mem_of_drop hx)
  written x hx := hI.written x (mem_of_drop hx)
  stored := hI.stored
  follows := by
    intro b d hseen
    by_cases hba : b = task.asset
    · subst hba
      have hdigest : cfg.digest task.text = d := by simpa using hseen
      exact .inr ⟨task.text, hI.written task (List.mem_of_getElem? h) task.asset ⟨hlive, rfl, hstage⟩, hdigest⟩
    · obtain ⟨x, hx, hxb⟩ | ht := hI.follows b d (by simpa [hba] using hseen)
      · obtain rfl | hx := mem_drop_or h hx
        · exact absurd hxb.2.1.symm hba
        · exact .inl ⟨x, hx, hxb⟩
      · exact .inr ht

/-! ## Runs -/

omit [DecidableEq A] in
/-- New tasks: none of the embedder's, or a batch of distinct assets at the end of its scan. -/
theorem Inv.begun (hI : Inv cfg w) {owner : Owner} {rows : List (A × Text)} {scan : Scan A}
    (hscan : scan = w.scan ∧ owner ≠ .live ∨ scan = .none ∧ w.scan ≠ .none ∧ (rows.map Prod.fst).Nodup) :
    Inv cfg { w with scan := scan, tasks := LiveEmbedder.begun owner rows ++ w.tasks } where
  apart := by
    refine List.pairwise_append.2 ⟨?_, hI.apart, ?_⟩
    · obtain ⟨-, howner⟩ | ⟨-, -, hnodup⟩ := hscan
      · exact List.pairwise_of_forall_mem_list fun x hx _ _ hlive => absurd ((mem_begun hx).1 ▸ hlive) howner
      · exact List.pairwise_map.2 ((List.pairwise_map.1 hnodup).imp fun hne _ _ => hne)
    · intro x hx y hy hlive hylive
      obtain ⟨-, howner⟩ | ⟨-, hwas, -⟩ := hscan
      · exact absurd ((mem_begun hx).1 ▸ hlive) howner
      · exact absurd hylive (hI.alone hwas y hy)
  rows := by
    obtain ⟨rfl, -⟩ | ⟨rfl, -, -⟩ := hscan
    · exact hI.rows
    · simp
  alone := by
    obtain ⟨rfl, howner⟩ | ⟨rfl, -, -⟩ := hscan
    · intro hne x hx
      obtain hx | hx := List.mem_append.1 hx
      · exact fun hlive => howner ((mem_begun hx).1 ▸ hlive)
      · exact hI.alone hne x hx
    · simp
  written := by
    rintro x hx a ⟨hlive, ha, hwritten⟩
    obtain hx | hx := List.mem_append.1 hx
    · cases (mem_begun hx).2.symm.trans hwritten
    · exact hI.written x hx a ⟨hlive, ha, hwritten⟩
  stored := by
    obtain ⟨rfl, -⟩ | ⟨rfl, -, -⟩ := hscan
    · exact hI.stored
    · simp [Scan.stored]
  follows a d hseen := (hI.follows a d hseen).imp_left fun ⟨x, hx, h⟩ => ⟨x, List.mem_append_right _ hx, h⟩

omit [DecidableEq A] in
/-- The scan goes on, starts or is given up. -/
theorem Inv.scan (hI : Inv cfg w) {scan : Scan A} (hrows : ∀ rows, scan = .reading rows → (rows.map Prod.fst).Nodup)
    (halone : scan ≠ .none → ∀ task ∈ w.tasks, task.owner ≠ .live)
    (hstored : ∀ row ∈ scan.stored, w.table row.1 = some row.2) : Inv cfg { w with scan := scan } :=
  { hI with rows := hrows, alone := halone, stored := hstored }

omit [DecidableEq A] in
theorem Inv.setRun (hI : Inv cfg w) (r : Nat) (rows : Option (List (A × Text))) : Inv cfg (w.setRun r rows) :=
  ⟨hI.apart, hI.rows, hI.alone, hI.written, hI.stored, hI.follows⟩

theorem Inv.prime (hI : Inv cfg w) {rows : List (A × Text)} (hscan : w.scan = .priming rows) :
    Inv cfg { w with seen := primedSeen cfg.digest w.seen rows, primed := true, scan := .reading [] } where
  apart := hI.apart
  rows := by rintro _ ⟨⟩; exact .nil
  alone _ := hI.alone (by simp [hscan])
  written := hI.written
  stored := by simp [Scan.stored]
  follows := by
    intro a d hseen
    obtain hold | ⟨row, hrow, rfl, hd⟩ := primedSeen_cases hseen
    · exact hI.follows a d hold
    · exact .inr ⟨row.2, hI.stored row (by rw [hscan]; exact hrow), hd⟩

theorem Inv.wrote (hI : Inv cfg w) {i : Nat} {task : Task A} {outcome : Outcome} (h : w.tasks[i]? = some task)
    (hstage : task.stage = .writing)
    (hC : outcome = .done → task.owner ≠ .live → w.Heard cfg task.asset task.text) :
    Inv cfg ((w.drop i).wrote task outcome) := by
  have hdrop := hI.drop h (by simp [hstage])
  cases outcome with
  | done =>
    cases howner : task.owner with
    | live => simpa [World.wrote, howner] using hdrop.write howner (hI.fits h)
    | index r =>
      obtain ⟨hrecorded, hwaiting, hprimed⟩ := hC rfl (by simp [howner])
      have hheard : (w.drop i).Heard cfg task.asset task.text :=
        ⟨hrecorded, fun x hx => hwaiting x (mem_of_drop hx), hprimed⟩
      simpa [World.wrote, howner] using hdrop.put hheard
  | lost => exact hdrop
  | late => exact ⟨hdrop.apart, hdrop.rows, hdrop.alone, hdrop.written, hdrop.stored, hdrop.follows⟩

theorem inv_step [DecidableEq D] {a : Action A} (hI : Inv cfg w) (hC : Followed cfg w a) (h : step cfg w a = some v) :
    Inv cfg v := by
  cases a with
  | change a snippet =>
    cases h
    exact ⟨hI.apart, hI.rows, hI.alone, hI.written, hI.stored, hI.follows⟩
  | beginPass =>
    simp only [step, Option.ite_none_right_eq_some, Option.some.injEq] at h
    obtain ⟨hbetween, rfl⟩ := h
    have hquiet : ∀ task ∈ w.tasks, task.owner ≠ .live := by
      simpa using (Bool.and_eq_true_iff.1 hbetween).2
    refine hI.scan ?_ (fun _ => hquiet) ?_
    · cases w.primed <;> simp
    · cases w.primed <;> simp [Scan.stored]
  | readStored a =>
    simp only [step] at h
    split at h <;> [skip; cases h]
    rename_i rows hscan
    obtain ⟨rows', hrows, rfl⟩ := Option.map_eq_some_iff.1 h
    refine hI.scan (by simp) (fun _ => hI.alone (by simp [hscan])) fun row hrow => ?_
    obtain hrow | ⟨rfl, ht⟩ := mem_scanned hrows hrow
    · exact hI.stored row (by rw [hscan]; exact hrow)
    · exact ht
  | prime =>
    simp only [step] at h
    split at h <;> cases h
    rename_i rows hscan
    exact hI.prime hscan
  | readSnippet a =>
    simp only [step] at h
    split at h <;> [skip; cases h]
    rename_i rows hscan
    obtain ⟨rows', hrows, rfl⟩ := Option.map_eq_some_iff.1 h
    refine hI.scan ?_ (fun _ => hI.alone (by simp [hscan])) (by simp [Scan.stored])
    rintro _ ⟨⟩
    exact scanned_nodup hrows (hI.rows rows hscan)
  | choose =>
    simp only [step] at h
    split at h <;> cases h
    rename_i rows hscan
    exact hI.begun (.inr ⟨rfl, by simp [hscan], changed_nodup (hI.rows rows hscan)⟩)
  | failPass =>
    simp only [step, Option.ite_none_left_eq_some, Option.some.injEq] at h
    obtain ⟨-, rfl⟩ := h
    exact hI.scan (by simp) (by simp) (by simp [Scan.stored])
  | post r =>
    simp only [step, Option.ite_none_right_eq_some, Option.some.injEq] at h
    obtain ⟨-, rfl⟩ := h
    exact hI.setRun r _
  | readRow r a =>
    obtain ⟨rows, -, h⟩ := Option.bind_eq_some_iff.1 h
    obtain ⟨rows', -, rfl⟩ := Option.map_eq_some_iff.1 h
    exact hI.setRun r _
  | chooseAll r =>
    obtain ⟨rows, -, rfl⟩ := Option.map_eq_some_iff.1 h
    exact (hI.setRun r none).begun (.inl ⟨rfl, by simp⟩)
  | failRun r =>
    obtain ⟨rows, -, rfl⟩ := Option.map_eq_some_iff.1 h
    exact hI.setRun r none
  | embedded i ok =>
    obtain ⟨task, htask, h⟩ := Option.bind_eq_some_iff.1 h
    simp only [Option.ite_none_right_eq_some, Option.some.injEq] at h
    obtain ⟨hstage, rfl⟩ := h
    have hdrop := hI.drop htask (by simp [hstage])
    have hfits := hI.fits htask
    cases ok with
    | true => exact hdrop.add { task with stage := .writing } hfits (by simp)
    | false => exact hdrop
  | wrote i outcome =>
    obtain ⟨task, htask, h⟩ := Option.bind_eq_some_iff.1 h
    simp only [Option.ite_none_right_eq_some, Option.some.injEq] at h
    obtain ⟨hstage, rfl⟩ := h
    refine hI.wrote htask hstage ?_
    rintro rfl
    exact hC task htask
  | recorded i =>
    obtain ⟨task, htask, h⟩ := Option.bind_eq_some_iff.1 h
    simp only [Option.ite_none_right_eq_some, Option.some.injEq] at h
    obtain ⟨⟨hlive, hstage⟩, rfl⟩ := h
    exact hI.record htask hlive hstage
  | applied k =>
    obtain ⟨row, hrow, rfl⟩ := Option.map_eq_some_iff.1 h
    have hput := hI.put (hC row hrow)
    exact ⟨hput.apart, hput.rows, hput.alone, hput.written, hput.stored, hput.follows⟩

/-! ## The texts of a run -/

/-- Whatever is in the tables or under way for an asset is one of its texts. -/
structure Known (T : A → Set Text) (w : World A D) : Prop where
  snippet : ∀ a, ∀ s ∈ w.snippet a, s ∈ T a
  table : ∀ a, ∀ s ∈ w.table a, s ∈ T a
  scan : ∀ rows, w.scan = .reading rows → ∀ row ∈ rows, row.2 ∈ T row.1
  runs : ∀ r, ∀ rows ∈ w.runs r, ∀ row ∈ rows, row.2 ∈ T row.1
  tasks : ∀ task ∈ w.tasks, task.text ∈ T task.asset
  late : ∀ row ∈ w.late, row.2 ∈ T row.1

variable {T : A → Set Text}

theorem mem_update {f : A → Option Text} {a b : A} {text : Option Text} {s : Text} (hf : ∀ b, ∀ s ∈ f b, s ∈ T b)
    (htext : ∀ s ∈ text, s ∈ T a) (h : s ∈ Function.update f a text b) : s ∈ T b := by
  by_cases hba : b = a
  · subst hba
    exact htext s (by simpa using h)
  · exact hf b s (by simpa [hba] using h)

theorem Known.put (hK : Known T w) {a : A} {text : Text} (h : text ∈ T a) : Known T (w.put a text) :=
  { hK with table := fun _ _ hs => mem_update hK.table (by rintro _ ⟨⟩; exact h) hs }

omit [DecidableEq A] in
theorem Known.drop (hK : Known T w) (i : Nat) : Known T (w.drop i) :=
  { hK with tasks := fun task htask => hK.tasks task (mem_of_drop htask) }

omit [DecidableEq A] in
theorem Known.add (hK : Known T w) (task : Task A) (h : task.text ∈ T task.asset) : Known T (w.add task) :=
  { hK with tasks := List.forall_mem_cons.2 ⟨h, hK.tasks⟩ }

omit [DecidableEq A] in
theorem Known.begun (hK : Known T w) {owner : Owner} {rows : List (A × Text)} (h : ∀ row ∈ rows, row.2 ∈ T row.1) :
    ∀ task ∈ begun owner rows ++ w.tasks, task.text ∈ T task.asset := by
  refine List.forall_mem_append.2 ⟨fun task htask => ?_, hK.tasks⟩
  obtain ⟨row, hrow, rfl⟩ := List.mem_map.1 htask
  exact h row hrow

omit [DecidableEq A] in
theorem Known.setRun (hK : Known T w) (r : Nat) {rows : Option (List (A × Text))}
    (h : ∀ l ∈ rows, ∀ row ∈ l, row.2 ∈ T row.1) : Known T (w.setRun r rows) :=
  { hK with
    runs := by
      intro q l hl
      by_cases hqr : q = r
      · subst hqr
        exact h l (by simpa [World.setRun] using hl)
      · exact hK.runs q l (by simpa [World.setRun, hqr] using hl) }

theorem Known.scanned (hK : Known T w) {rows rows' : List (A × Text)} {a : A} (hrows : ∀ row ∈ rows, row.2 ∈ T row.1)
    (h : scanned rows a (w.snippet a) = some rows') : ∀ row ∈ rows', row.2 ∈ T row.1 := by
  intro row hrow
  obtain hrow | ⟨rfl, ht⟩ := mem_scanned h hrow
  · exact hrows row hrow
  · exact hK.snippet _ _ ht

theorem known_step [DecidableEq D] {a : Action A} (hK : Known T w) (ha : ∀ b s, a = .change b (some s) → s ∈ T b)
    (h : step cfg w a = some v) : Known T v := by
  cases a with
  | change a snippet =>
    cases h
    refine { hK with snippet := fun _ _ hs => mem_update hK.snippet (fun s hs => ?_) hs }
    exact ha a s (by rw [Option.mem_def.1 hs])
  | beginPass =>
    simp only [step, Option.ite_none_right_eq_some, Option.some.injEq] at h
    obtain ⟨-, rfl⟩ := h
    refine { hK with scan := ?_ }
    cases w.primed <;> simp
  | readStored a =>
    simp only [step] at h
    split at h <;> [skip; cases h]
    obtain ⟨rows', -, rfl⟩ := Option.map_eq_some_iff.1 h
    exact { hK with scan := by simp }
  | prime =>
    simp only [step] at h
    split at h <;> cases h
    exact { hK with scan := by simp }
  | readSnippet a =>
    simp only [step] at h
    split at h <;> [skip; cases h]
    rename_i rows hscan
    obtain ⟨rows', hrows, rfl⟩ := Option.map_eq_some_iff.1 h
    refine { hK with scan := ?_ }
    rintro _ ⟨⟩
    exact hK.scanned (hK.scan rows hscan) hrows
  | choose =>
    simp only [step] at h
    split at h <;> cases h
    rename_i rows hscan
    have hchanged : ∀ row ∈ changed cfg w.seen rows, row.2 ∈ T row.1 := fun row hrow =>
      hK.scan rows hscan row (((slice_sublist _ _).trans List.filter_sublist).mem hrow)
    exact { hK with scan := by simp, tasks := hK.begun hchanged }
  | failPass =>
    simp only [step, Option.ite_none_left_eq_some, Option.some.injEq] at h
    obtain ⟨-, rfl⟩ := h
    exact { hK with scan := by simp }
  | post r =>
    simp only [step, Option.ite_none_right_eq_some, Option.some.injEq] at h
    obtain ⟨-, rfl⟩ := h
    exact hK.setRun r (by simp)
  | readRow r a =>
    obtain ⟨rows, hrun, h⟩ := Option.bind_eq_some_iff.1 h
    obtain ⟨rows', hrows, rfl⟩ := Option.map_eq_some_iff.1 h
    refine hK.setRun r ?_
    rintro _ ⟨⟩
    exact hK.scanned (hK.runs r rows hrun) hrows
  | chooseAll r =>
    obtain ⟨rows, hrun, rfl⟩ := Option.map_eq_some_iff.1 h
    have hset : Known T (w.setRun r none) := hK.setRun r (by simp)
    exact { hset with tasks := hset.begun fun row hrow => hK.runs r rows hrun row (List.mem_of_mem_filter hrow) }
  | failRun r =>
    obtain ⟨rows, -, rfl⟩ := Option.map_eq_some_iff.1 h
    exact hK.setRun r (by simp)
  | embedded i ok =>
    obtain ⟨task, htask, h⟩ := Option.bind_eq_some_iff.1 h
    simp only [Option.ite_none_right_eq_some, Option.some.injEq] at h
    obtain ⟨-, rfl⟩ := h
    have hmem := hK.tasks task (List.mem_of_getElem? htask)
    cases ok with
    | true => exact (hK.drop i).add _ hmem
    | false => exact hK.drop i
  | wrote i outcome =>
    obtain ⟨task, htask, h⟩ := Option.bind_eq_some_iff.1 h
    simp only [Option.ite_none_right_eq_some, Option.some.injEq] at h
    obtain ⟨-, rfl⟩ := h
    have hmem := hK.tasks task (List.mem_of_getElem? htask)
    have hdrop := hK.drop i
    cases outcome with
    | done =>
      cases howner : task.owner with
      | live => simpa [World.wrote, howner] using (hdrop.put hmem).add { task with stage := .written } hmem
      | index r => simpa [World.wrote, howner] using hdrop.put hmem
    | lost => exact hdrop
    | late => exact { hdrop with late := List.forall_mem_cons.2 ⟨hmem, hdrop.late⟩ }
  | recorded i =>
    obtain ⟨task, -, h⟩ := Option.bind_eq_some_iff.1 h
    simp only [Option.ite_none_right_eq_some, Option.some.injEq] at h
    obtain ⟨-, rfl⟩ := h
    have hdrop := hK.drop i
    exact ⟨hdrop.snippet, hdrop.table, hdrop.scan, hdrop.runs, hdrop.tasks, hdrop.late⟩
  | applied k =>
    obtain ⟨row, hrow, rfl⟩ := Option.map_eq_some_iff.1 h
    have hput := hK.put (hK.late row (List.mem_of_getElem? hrow))
    exact { hput with late := fun x hx => hK.late x ((List.eraseIdx_sublist ..).mem hx) }

/-- What the embedder believes is indexed is, in every run in which `_seen` is followed and no two texts of an asset
have one digest: with any number of index-all runs and changes between any two steps. -/
theorem seen_of_followed [DecidableEq D] (cfg : Config D) (snippet table : A → Option Text) (as : List (Action A))
    (hdigest : ∀ a, Set.InjOn cfg.digest (texts snippet table as a))
    (h : Each (step cfg) (Followed cfg) (init snippet table) as) :
    Always (step cfg) (SeenIsIndexed cfg) (init snippet table) as := by
  have hin : Each (step cfg) (fun _ a => a ∈ as) (init snippet table) as := each_of_forall fun _ ha _ => ha
  refine always_of_each (I := fun w => Inv cfg w ∧ Known (texts snippet table as) w) ?_ ?_ ?_ (h.and hin)
  · rintro w a v ⟨hI, hK⟩ ⟨hC, ha⟩ hs
    exact ⟨inv_step hI hC hs, known_step hK (fun b s hb => .inr (.inr (hb ▸ ha))) hs⟩
  · rintro w ⟨hI, hK⟩ hbetween - a s hs hseen
    obtain ⟨text, htext, hsame⟩ := hI.digest_table hbetween hseen
    rw [hdigest a (hK.snippet a s hs) (hK.table a text htext) hsame.symm]
    exact htext
  · exact ⟨inv_init snippet table, fun _ _ => .inl, fun _ _ hs => .inr (.inl hs), fun _ h => (nomatch h),
      fun _ _ h => (nomatch h), fun _ h => (nomatch h), fun _ h => nomatch h⟩

/-! ## Two runs over one asset -/

/-- A digest in which no two texts meet. -/
def exact : Config Text := ⟨64, fun text => text⟩

def before : Text := "seen over the harbour".toList
def after : Text := "seen over the bridge".toList

def oneAsset : World Nat Text := init (fun a => if a = 0 then some before else none) fun _ => none

def embedOne (i : Nat) : List (Action Nat) := [.embedded i true, .wrote i .done]

def pass : List (Action Nat) := [.readSnippet 0, .choose] ++ embedOne 0 ++ [.recorded 0]

def indexAll : List (Action Nat) := [.post 0, .readRow 0 0, .chooseAll 0]

/-- Index-all writes a snippet, the embedder primes itself with it, the snippet
changes and a pass follows; a second index-all writes what the pass wrote. -/
theorem seen_of_followed_both :
    Always (step exact) (SeenIsIndexed exact) oneAsset
      (indexAll ++ embedOne 0 ++ [.beginPass, .readStored 0, .prime, .change 0 (some after)] ++ pass ++
        indexAll ++ embedOne 0) :=
  seen_of_followed exact _ _ _ (fun _ => Set.injOn_id _) (by decide)

/-- Index-all has read a snippet and not written it yet when the snippet changes
and a pass embeds the new one; then index-all writes. -/
theorem stale_index :
    ¬ ∀ as, Always (step exact) (SeenIsIndexed exact) oneAsset as := by
  intro h
  have hlast := (h (indexAll ++ [.change 0 (some after), .beginPass, .prime] ++ pass ++ embedOne 0)).last rfl
  refine absurd (hlast rfl ?_ 0 after rfl rfl) (by decide)
  rintro (⟨r, hr⟩ | ⟨task, htask, -⟩)
  · refine hr ?_
    change Function.update (Function.update (Function.update (fun _ => none) 0 _) 0 _) 0 none r = none
    by_cases h0 : r = 0
    · simp [h0]
    · simp [h0]
  · cases htask

end HtapStack.LiveEmbedder
