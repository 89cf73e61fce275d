import HtapStack.Search.LiveEmbedder
import Mathlib.Algebra.Order.Floor.Div
import Mathlib.Data.List.Nodup
/-!
# Passes of the live embedder

`_prime` and `_pass` of `LiveEmbedder` in `backend/app/routes/vector.py` one pass at
a time: what a pass reads, which of the changed snippets it takes, and what it leaves
behind. `exec_pass` shows a pass to be a run of the steps of `LiveEmbedder.step`.

`converges`: while the snippets stay as they are and every write succeeds, each pass
takes as many as it may, and what is pending falls by that number; once it is 0,
every snippet is stored and nothing more is embedded.
-/

namespace HtapStack.LiveEmbedder
open Runs

/-- What a pass reads: the rows of the embeddings, if it primes, and the snippets. -/
structure Reads (A : Type) where
  stored : List (A × Text)
  rows : List (A × Text)

/-- The embedder between two passes, with the table that it writes. -/
structure Embedder (A D : Type) where
  table : A → Option Text
  seen : A → Option D
  primed : Bool
  embedded : Nat
  failed : Nat
  passes : Nat
  lastEmbedded : Nat
  pending : Nat

variable {A D : Type} [DecidableEq A]

/-- The process starts, over the embeddings that there are. -/
def Embedder.init (table : A → Option Text) : Embedder A D := ⟨table, fun _ => none, false, 0, 0, 0, 0, 0⟩

/-- `changed` of `_pass`, before the cut. -/
def differing [DecidableEq D] (cfg : Config D) (seen : A → Option D) (rows : List (A × Text)) : List (A × Text) :=
  rows.filter fun row => hasText row.2 && seen row.1 != some (cfg.digest row.2)

/-- What `_pass` does first: `_prime`, unless it has. -/
def Embedder.prime (cfg : Config D) (e : Embedder A D) (stored : List (A × Text)) : Embedder A D :=
  if e.primed then e else { e with seen := primedSeen cfg.digest e.seen stored, primed := true }

/-- One row is written, and noted. -/
def Embedder.note (cfg : Config D) (e : Embedder A D) (row : A × Text) : Embedder A D :=
  { e with
    table := Function.update e.table row.1 (some row.2)
    seen := Function.update e.seen row.1 (some (cfg.digest row.2)) }

section
variable [DecidableEq D]

/-- The snippets that a pass finds changed. -/
def Embedder.waiting (cfg : Config D) (e : Embedder A D) (r : Reads A) : List (A × Text) :=
  differing cfg (e.prime cfg r.stored).seen r.rows

def Embedder.batch (cfg : Config D) (e : Embedder A D) (r : Reads A) : List (A × Text) :=
  slice cfg.maxPerCycle (e.waiting cfg r)

/-- `_pass`, given for which assets embedding and writing succeed. -/
def Embedder.pass (cfg : Config D) (e : Embedder A D) (r : Reads A) (succeeds : A → Bool) : Embedder A D :=
  let batch := e.batch cfg r
  let done := batch.filter fun row => succeeds row.1
  { done.foldl (Embedder.note cfg) (e.prime cfg r.stored) with
    embedded := e.embedded + done.length
    failed := e.failed + (batch.length - done.length)
    passes := e.passes + 1
    lastEmbedded := done.length
    pending := (e.waiting cfg r).length - batch.length }

end

/-! ## A pass as a run of steps -/

/-- No pass is under way, and nothing else writes. -/
def Embedder.world (e : Embedder A D) (snippet : A → Option Text) : World A D :=
  ⟨snippet, e.table, e.seen, e.primed, .none, fun _ => none, [], []⟩

/-- A pass is at these snippets. -/
def Embedder.busy (e : Embedder A D) (snippet : A → Option Text) (rows : List (A × Text)) : World A D :=
  { e.world snippet with tasks := begun .live rows }

/-- What is done about one snippet. -/
def rowActions (succeeds : A → Bool) (row : A × Text) : List (Action A) :=
  if succeeds row.1 then [.embedded 0 true, .wrote 0 .done, .recorded 0] else [.embedded 0 false]

def Embedder.actions [DecidableEq D] (cfg : Config D) (e : Embedder A D) (r : Reads A) (succeeds : A → Bool) :
    List (Action A) :=
  (.beginPass :: if e.primed then [] else r.stored.map (.readStored ·.1) ++ [.prime]) ++
    r.rows.map (.readSnippet ·.1) ++ [.choose] ++ (e.batch cfg r).flatMap (rowActions succeeds)

/-- What is in the table, each row once. -/
structure Lists (rows : List (A × Text)) (table : A → Option Text) : Prop where
  nodup : (rows.map Prod.fst).Nodup
  mem : ∀ row, row ∈ rows ↔ table row.1 = some row.2

section
variable [DecidableEq D] {cfg : Config D} {w : World A D} {had rows : List (A × Text)}

theorem scanned_new {row : A × Text} (h : row.1 ∉ had.map Prod.fst) :
    scanned had row.1 (some row.2) = some (had ++ [row]) := by
  simp only [scanned, Option.bind_some, if_neg h]

omit [DecidableEq A] in
theorem new_of_nodup {row : A × Text} (h : ((had ++ row :: rows).map Prod.fst).Nodup) : row.1 ∉ had.map Prod.fst := by
  rw [List.map_append, List.map_cons, List.nodup_append] at h
  exact fun hmem => h.2.2 _ hmem _ List.mem_cons_self rfl

theorem exec_readSnippets (hw : w.scan = .reading had) (hnew : ((had ++ rows).map Prod.fst).Nodup)
    (hrows : ∀ row ∈ rows, w.snippet row.1 = some row.2) :
    exec (step cfg) w (rows.map (.readSnippet ·.1)) = some { w with scan := .reading (had ++ rows) } := by
  induction rows generalizing had w with
  | nil => simp [exec, ← hw]
  | cons row rows ih =>
    obtain ⟨hrow, hrows⟩ := List.forall_mem_cons.1 hrows
    have hstep : step cfg w (.readSnippet row.1) = some { w with scan := .reading (had ++ [row]) } := by
      simp only [step, hw, hrow, scanned_new (new_of_nodup hnew), Option.map_some]
    have hassoc : had ++ row :: rows = had ++ [row] ++ rows := by simp
    rw [hassoc] at hnew ⊢
    rw [List.map_cons, exec, hstep, Option.bind_some]
    exact ih rfl hnew hrows

theorem exec_readStored (hw : w.scan = .priming had) (hnew : ((had ++ rows).map Prod.fst).Nodup)
    (hrows : ∀ row ∈ rows, w.table row.1 = some row.2) :
    exec (step cfg) w (rows.map (.readStored ·.1)) = some { w with scan := .priming (had ++ rows) } := by
  induction rows generalizing had w with
  | nil => simp [exec, ← hw]
  | cons row rows ih =>
    obtain ⟨hrow, hrows⟩ := List.forall_mem_cons.1 hrows
    have hstep : step cfg w (.readStored row.1) = some { w with scan := .priming (had ++ [row]) } := by
      simp only [step, hw, hrow, scanned_new (new_of_nodup hnew), Option.map_some]
    have hassoc : had ++ row :: rows = had ++ [row] ++ rows := by simp
    rw [hassoc] at hnew ⊢
    rw [List.map_cons, exec, hstep, Option.bind_some]
    exact ih rfl hnew hrows

theorem exec_prime (e : Embedder A D) {stored : List (A × Text)} (snippet : A → Option Text)
    (hstored : e.primed = false → Lists stored e.table) :
    exec (step cfg) (e.world snippet) (.beginPass :: if e.primed then [] else stored.map (.readStored ·.1) ++ [.prime]) =
      some { (e.prime cfg stored).world snippet with scan := .reading [] } := by
  by_cases hp : e.primed
  · simp [exec, step, hp, Embedder.prime, World.betweenPasses, Embedder.world]
  · have hbegin : step cfg (e.world snippet) .beginPass = some { e.world snippet with scan := .priming [] } := by
      simp [step, hp, World.betweenPasses, Embedder.world]
    have hrows := hstored (Bool.eq_false_of_not_eq_true hp)
    have hread : exec (step cfg) { e.world snippet with scan := .priming [] } (stored.map (.readStored ·.1)) =
        some { e.world snippet with scan := .priming ([] ++ stored) } :=
      exec_readStored rfl hrows.nodup fun row => (hrows.mem row).1
    rw [exec, hbegin, Option.bind_some, if_neg hp, exec_append hread]
    simp [exec, step, hp, Embedder.prime, Embedder.world]

/-- Embedding and writing what a pass has taken. -/
theorem exec_rows {e : Embedder A D} {snippet : A → Option Text} {succeeds : A → Bool} :
    exec (step cfg) (e.busy snippet rows) (rows.flatMap (rowActions succeeds)) =
      some (((rows.filter fun row => succeeds row.1).foldl (Embedder.note cfg) e).world snippet) := by
  induction rows generalizing e with
  | nil => rfl
  | cons row rows ih =>
    rw [List.flatMap_cons, List.filter_cons]
    by_cases hs : succeeds row.1
    · have hrow : exec (step cfg) (e.busy snippet (row :: rows)) (rowActions succeeds row) =
          some ((e.note cfg row).busy snippet rows) := by
        simp [rowActions, hs, exec, step, begun, World.drop, World.add, World.wrote, World.put, Embedder.busy,
          Embedder.world, Embedder.note]
      rw [exec_append hrow, ih, if_pos hs, List.foldl_cons]
    · have hrow : exec (step cfg) (e.busy snippet (row :: rows)) (rowActions succeeds row) =
          some (e.busy snippet rows) := by
        simp [rowActions, hs, exec, step, begun, World.drop, Embedder.busy, Embedder.world]
      rw [exec_append hrow, ih, if_neg hs]

/-- A pass that reads what is there is a run of the embedder's steps. -/
theorem exec_pass (e : Embedder A D) {r : Reads A} {snippet : A → Option Text} (succeeds : A → Bool)
    (hstored : e.primed = false → Lists r.stored e.table) (hrows : Lists r.rows snippet) :
    exec (step cfg) (e.world snippet) (e.actions cfg r succeeds) =
      some ((e.pass cfg r succeeds).world snippet) := by
  have hread : exec (step cfg) { (e.prime cfg r.stored).world snippet with scan := .reading [] }
      (r.rows.map (.readSnippet ·.1)) =
        some { (e.prime cfg r.stored).world snippet with scan := .reading ([] ++ r.rows) } :=
    exec_readSnippets rfl hrows.nodup fun row => (hrows.mem row).1
  have hchoose : exec (step cfg) { (e.prime cfg r.stored).world snippet with scan := .reading r.rows } [.choose] =
      some ((e.prime cfg r.stored).busy snippet (e.batch cfg r)) := by
    simp [exec, step, Embedder.busy, Embedder.world, Embedder.batch, Embedder.waiting, differing, changed]
  rw [Embedder.actions, List.append_assoc, List.append_assoc, exec_append (exec_prime e snippet hstored),
    exec_append hread, List.nil_append, exec_append hchoose, exec_rows]
  rfl

end

/-! ## What the embedder has noted -/

/-- The embedder after any passes, as long as nothing else writes the embeddings. -/
inductive Embedder.Ran [DecidableEq D] (cfg : Config D) : Embedder A D → Prop
  | init (table : A → Option Text) : Ran cfg (.init table)
  | pass {e : Embedder A D} (he : Ran cfg e) (r : Reads A) (succeeds : A → Bool)
      (hstored : e.primed = false → Lists r.stored e.table) : Ran cfg (e.pass cfg r succeeds)
  /-- The read of the snippets raises. -/
  | fail {e : Embedder A D} (he : Ran cfg e) (stored : List (A × Text))
      (hstored : e.primed = false → Lists stored e.table) : Ran cfg (e.prime cfg stored)

/-- A digest in `_seen` is the stored text's, and every stored text's is there once it is primed. -/
structure Embedder.Noted (cfg : Config D) (e : Embedder A D) : Prop where
  stored : ∀ a d, e.seen a = some d → ∃ t, e.table a = some t ∧ cfg.digest t = d
  seen : e.primed = true → ∀ a t, e.table a = some t → t ≠ [] → e.seen a = some (cfg.digest t)

section
variable {cfg : Config D} {e : Embedder A D} {rows : List (A × Text)} {a : A} {row : A × Text}

theorem note_self (cfg : Config D) (e : Embedder A D) (row : A × Text) :
    (e.note cfg row).table row.1 = some row.2 ∧ (e.note cfg row).seen row.1 = some (cfg.digest row.2) := by
  simp [Embedder.note]

theorem note_of_ne (cfg : Config D) (e : Embedder A D) (h : a ≠ row.1) :
    (e.note cfg row).table a = e.table a ∧ (e.note cfg row).seen a = e.seen a := by
  simp [Embedder.note, Function.update_of_ne h]

theorem notes_of_not_mem (h : a ∉ rows.map Prod.fst) :
    (rows.foldl (Embedder.note cfg) e).table a = e.table a ∧
      (rows.foldl (Embedder.note cfg) e).seen a = e.seen a := by
  induction rows generalizing e with
  | nil => exact ⟨rfl, rfl⟩
  | cons row rows ih =>
    rw [List.map_cons, List.mem_cons, not_or] at h
    obtain ⟨htable, hseen⟩ := note_of_ne cfg e h.1
    rw [List.foldl_cons, (ih h.2).1, (ih h.2).2]
    exact ⟨htable, hseen⟩

theorem notes_of_mem (hrows : (rows.map Prod.fst).Nodup) (h : row ∈ rows) :
    (rows.foldl (Embedder.note cfg) e).table row.1 = some row.2 ∧
      (rows.foldl (Embedder.note cfg) e).seen row.1 = some (cfg.digest row.2) := by
  induction rows generalizing e with
  | nil => cases h
  | cons head rows ih =>
    rw [List.map_cons, List.nodup_cons] at hrows
    rw [List.foldl_cons]
    obtain rfl | h := List.mem_cons.1 h
    · obtain ⟨htable, hseen⟩ := note_self cfg e row
      rw [(notes_of_not_mem hrows.1).1, (notes_of_not_mem hrows.1).2]
      exact ⟨htable, hseen⟩
    · exact ih hrows.2 h

theorem notes_primed : (rows.foldl (Embedder.note cfg) e).primed = e.primed := by
  induction rows generalizing e with
  | nil => rfl
  | cons row rows ih => exact ih

theorem Embedder.Noted.note (h : e.Noted cfg) (row : A × Text) : (e.note cfg row).Noted cfg where
  stored a d hd := by
    by_cases ha : a = row.1
    · subst ha
      obtain ⟨htable, hseen⟩ := note_self cfg e row
      exact ⟨row.2, htable, Option.some.inj (hseen.symm.trans hd)⟩
    · obtain ⟨htable, hseen⟩ := note_of_ne cfg e ha
      rw [htable]
      exact h.stored a d (hseen.symm.trans hd)
  seen hp a t ht hne := by
    by_cases ha : a = row.1
    · subst ha
      obtain ⟨htable, hseen⟩ := note_self cfg e row
      obtain rfl := Option.some.inj (htable.symm.trans ht)
      exact hseen
    · obtain ⟨htable, hseen⟩ := note_of_ne cfg e ha
      rw [hseen]
      exact h.seen hp a t (htable.symm.trans ht) hne

theorem Embedder.Noted.notes (h : e.Noted cfg) (rows : List (A × Text)) :
    (rows.foldl (Embedder.note cfg) e).Noted cfg := by
  induction rows generalizing e with
  | nil => exact h
  | cons row rows ih => exact ih (h.note row)

theorem primedSeen_of_not_mem {seen : A → Option D} (h : a ∉ rows.map Prod.fst) :
    primedSeen cfg.digest seen rows a = seen a := by
  induction rows generalizing seen with
  | nil => rfl
  | cons row rows ih =>
    rw [List.map_cons, List.mem_cons, not_or] at h
    have hrest := @ih (if row.2.isEmpty then seen else Function.update seen row.1 (some (cfg.digest row.2))) h.2
    refine hrest.trans ?_
    split
    · rfl
    · exact Function.update_of_ne h.1 ..

/-- Priming from a whole table. -/
theorem primedSeen_of_mem {seen : A → Option D} (hrows : (rows.map Prod.fst).Nodup) (h : row ∈ rows)
    (hne : row.2 ≠ []) : primedSeen cfg.digest seen rows row.1 = some (cfg.digest row.2) := by
  induction rows generalizing seen with
  | nil => cases h
  | cons head rows ih =>
    rw [List.map_cons, List.nodup_cons] at hrows
    obtain rfl | h := List.mem_cons.1 h
    · have hempty : row.2.isEmpty = false := by simpa using hne
      refine (primedSeen_of_not_mem hrows.1).trans ?_
      simp [hempty]
    · exact ih hrows.2 h

theorem Embedder.Noted.prime (h : e.Noted cfg) (hstored : e.primed = false → Lists rows e.table) :
    (e.prime cfg rows).Noted cfg := by
  by_cases hp : e.primed
  · rwa [Embedder.prime, if_pos hp]
  · have hrows := hstored (Bool.eq_false_of_not_eq_true hp)
    rw [Embedder.prime, if_neg hp]
    refine ⟨fun a d hd => ?_, fun _ a t ht hne => primedSeen_of_mem hrows.nodup ((hrows.mem (a, t)).2 ht) hne⟩
    obtain hd | ⟨row, hrow, rfl, rfl⟩ := primedSeen_cases hd
    · exact h.stored a d hd
    · exact ⟨row.2, (hrows.mem row).1 hrow, rfl⟩

theorem prime_primed (e : Embedder A D) (rows : List (A × Text)) : (e.prime cfg rows).primed = true := by
  by_cases hp : e.primed
  · rwa [Embedder.prime, if_pos hp]
  · rw [Embedder.prime, if_neg hp]

theorem prime_table (e : Embedder A D) (rows : List (A × Text)) : (e.prime cfg rows).table = e.table := by
  unfold Embedder.prime
  split <;> rfl

theorem Embedder.Ran.noted [DecidableEq D] (he : e.Ran cfg) : e.Noted cfg := by
  induction he with
  | init table => exact ⟨by simp [Embedder.init], by simp [Embedder.init]⟩
  | @pass e _ r succeeds hstored ih =>
    have h := (ih.prime hstored).notes ((e.batch cfg r).filter fun row => succeeds row.1)
    exact ⟨h.stored, h.seen⟩
  | fail _ _ hstored ih => exact ih.prime hstored

end

/-! ## Until nothing is pending -/

theorem filter_not_mem_take {rows : List (A × Text)} (n : Nat) (h : rows.Nodup) :
    (rows.filter fun row => row ∉ rows.take n) = rows.drop n := by
  have hapart : ∀ row ∈ rows.drop n, row ∉ rows.take n := by
    rw [← List.take_append_drop n rows, List.nodup_append] at h
    exact fun row hdrop htake => h.2.2 row htake row hdrop rfl
  have htake : ((rows.take n).filter fun row => row ∉ rows.take n) = [] := by
    simp
  have hdrop : ((rows.drop n).filter fun row => row ∉ rows.take n) = rows.drop n := by
    simpa [List.filter_eq_self] using hapart
  calc rows.filter (fun row => row ∉ rows.take n)
      = (rows.take n ++ rows.drop n).filter (fun row => row ∉ rows.take n) := by rw [List.take_append_drop]
    _ = rows.drop n := by rw [List.filter_append, htake, hdrop, List.nil_append]

omit [DecidableEq A] in
theorem Lists.perm {rows rows' : List (A × Text)} {table : A → Option Text} (h : Lists rows table)
    (h' : Lists rows' table) : rows.Perm rows' :=
  (List.perm_ext_iff_of_nodup h.nodup.of_map h'.nodup.of_map).2 fun row => (h.mem row).trans (h'.mem row).symm

section
variable [DecidableEq D] {cfg : Config D} {e : Embedder A D} {r : Reads A}

theorem batch_eq_take (hcap : 1 ≤ cfg.maxPerCycle) :
    e.batch cfg r = (e.waiting cfg r).take cfg.maxPerCycle.toNat := if_pos (by omega)

theorem waiting_sublist : (e.waiting cfg r).Sublist r.rows := List.filter_sublist

theorem batch_sublist : (e.batch cfg r).Sublist r.rows := (slice_sublist _ _).trans waiting_sublist

theorem pass_eq : e.pass cfg r (fun _ => true) =
    { (e.batch cfg r).foldl (Embedder.note cfg) (e.prime cfg r.stored) with
      embedded := e.embedded + (e.batch cfg r).length
      failed := e.failed
      passes := e.passes + 1
      lastEmbedded := (e.batch cfg r).length
      pending := (e.waiting cfg r).length - (e.batch cfg r).length } := by
  simp [Embedder.pass]

/-- A pass leaves what it defers, and that alone. -/
theorem differing_pass (hcap : 1 ≤ cfg.maxPerCycle) (hrows : (r.rows.map Prod.fst).Nodup) :
    differing cfg (e.pass cfg r fun _ => true).seen r.rows = (e.waiting cfg r).drop cfg.maxPerCycle.toNat := by
  have hbatch : (e.batch cfg r).Sublist r.rows := batch_sublist
  have hleft : ∀ row ∈ r.rows, (hasText row.2 && (e.pass cfg r fun _ => true).seen row.1 != some (cfg.digest row.2)) =
      (decide (row ∉ e.batch cfg r) && (hasText row.2 && (e.prime cfg r.stored).seen row.1 != some (cfg.digest row.2))) := by
    intro row hrow
    rw [pass_eq]
    by_cases hmem : row ∈ e.batch cfg r
    · simp [hmem, (notes_of_mem (hrows.sublist (hbatch.map _)) hmem).2]
    · have hkey : row.1 ∉ (e.batch cfg r).map Prod.fst := by
        intro hkey
        obtain ⟨row', hrow', heq⟩ := List.mem_map.1 hkey
        exact hmem (List.inj_on_of_nodup_map hrows (hbatch.subset hrow') hrow heq ▸ hrow')
      simp [hmem, (notes_of_not_mem hkey).2]
  have hnodup : (e.waiting cfg r).Nodup := hrows.of_map.sublist waiting_sublist
  calc differing cfg (e.pass cfg r fun _ => true).seen r.rows
      = (e.waiting cfg r).filter fun row => row ∉ e.batch cfg r := by
        rw [differing, List.filter_congr hleft, Embedder.waiting, differing, List.filter_filter]
    _ = (e.waiting cfg r).drop cfg.maxPerCycle.toNat := by
        rw [batch_eq_take hcap, filter_not_mem_take _ hnodup]

/-- The snippets that are not what was last embedded. -/
def stale (rows : List (A × Text)) (table : A → Option Text) : List (A × Text) :=
  rows.filter fun row => hasText row.2 && table row.1 != some row.2

omit [DecidableEq A] [DecidableEq D] in
theorem seen_iff (h : e.Noted cfg) (hp : e.primed = true) {a : A} {s : Text} (hs : hasText s = true)
    (hdigest : ∀ t, e.table a = some t → cfg.digest t = cfg.digest s → t = s) :
    e.seen a = some (cfg.digest s) ↔ e.table a = some s := by
  constructor
  · intro hseen
    obtain ⟨t, ht, hd⟩ := h.stored a _ hseen
    rw [ht, hdigest t ht hd]
  · refine fun ht => h.seen hp a s ht ?_
    rintro rfl
    cases hs

/-- Where no two texts share a digest, a pass finds what is not stored. -/
theorem waiting_eq_stale (h : e.Noted cfg) (hstored : e.primed = false → Lists r.stored e.table)
    (hdigest : ∀ row ∈ r.rows, ∀ t, e.table row.1 = some t → cfg.digest t = cfg.digest row.2 → t = row.2) :
    e.waiting cfg r = stale r.rows e.table := by
  refine List.filter_congr fun row hrow => ?_
  by_cases hs : hasText row.2
  · have hiff := seen_iff (h.prime hstored) (prime_primed e r.stored) hs (by simpa [prime_table] using hdigest row hrow)
    rw [prime_table] at hiff
    exact Bool.eq_iff_iff.2 (by simp [hs, hiff])
  · simp [hs]

/-- The passes, with every write a success. -/
def Embedder.passesOver (cfg : Config D) (e : Embedder A D) (r : Nat → Reads A) : Nat → Embedder A D
  | 0 => e
  | k + 1 => (e.passesOver cfg r k).pass cfg (r k) fun _ => true

section
variable {r : Nat → Reads A} {snippet : A → Option Text}

theorem pass_primed (e : Embedder A D) (r : Reads A) : (e.pass cfg r fun _ => true).primed = true := by
  rw [pass_eq]
  exact notes_primed.trans (prime_primed e r.stored)

theorem passesOver_stored (hstored : e.primed = false → Lists (r 0).stored e.table) (k : Nat) :
    (e.passesOver cfg r k).primed = false → Lists (r k).stored (e.passesOver cfg r k).table := by
  cases k with
  | zero => exact hstored
  | succ k => exact fun hp => absurd hp (by simp [Embedder.passesOver, pass_primed])

theorem passesOver_ran (he : e.Ran cfg) (hstored : e.primed = false → Lists (r 0).stored e.table) (k : Nat) :
    (e.passesOver cfg r k).Ran cfg := by
  induction k with
  | zero => exact he
  | succ k ih => exact ih.pass (r k) _ (passesOver_stored hstored k)

/-- The passes write only the snippets there are. -/
theorem passesOver_table (cfg : Config D) (e : Embedder A D) (hrows : ∀ k, Lists (r k).rows snippet) (k : Nat) (a : A) :
    (e.passesOver cfg r k).table a = e.table a ∨ (e.passesOver cfg r k).table a = snippet a := by
  induction k with
  | zero => exact .inl rfl
  | succ k ih =>
    rw [Embedder.passesOver, pass_eq]
    by_cases hmem : a ∈ ((e.passesOver cfg r k).batch cfg (r k)).map Prod.fst
    · obtain ⟨row, hrow, rfl⟩ := List.mem_map.1 hmem
      have hbatch : ((e.passesOver cfg r k).batch cfg (r k)).Sublist (r k).rows := batch_sublist
      have hnodup := (hrows k).nodup.sublist (hbatch.map _)
      exact .inr ((notes_of_mem hnodup hrow).1.trans (((hrows k).mem row).1 (hbatch.subset hrow)).symm)
    · dsimp only
      rwa [(notes_of_not_mem hmem).1, prime_table]

/-- What the pass finds, `k` passes on. -/
def Embedder.found (cfg : Config D) (e : Embedder A D) (r : Nat → Reads A) (k : Nat) : Nat :=
  ((e.passesOver cfg r k).waiting cfg (r k)).length

theorem pending_passesOver (hcap : 1 ≤ cfg.maxPerCycle) (k : Nat) :
    (e.passesOver cfg r (k + 1)).pending = e.found cfg r k - min cfg.maxPerCycle.toNat (e.found cfg r k) := by
  rw [Embedder.passesOver, pass_eq]
  simp [batch_eq_take hcap, Embedder.found]

theorem found_succ (hcap : 1 ≤ cfg.maxPerCycle) (hrows : ∀ k, Lists (r k).rows snippet) (k : Nat) :
    e.found cfg r (k + 1) = e.found cfg r k - cfg.maxPerCycle.toNat := by
  have hprime : (e.passesOver cfg r (k + 1)).prime cfg (r (k + 1)).stored = e.passesOver cfg r (k + 1) :=
    if_pos (pass_primed ..)
  have hperm := (hrows (k + 1)).perm (hrows k)
  calc e.found cfg r (k + 1)
      = (differing cfg (e.passesOver cfg r (k + 1)).seen (r (k + 1)).rows).length := by
        rw [Embedder.found, Embedder.waiting, hprime]
    _ = (differing cfg (e.passesOver cfg r (k + 1)).seen (r k).rows).length := (hperm.filter _).length_eq
    _ = e.found cfg r k - cfg.maxPerCycle.toNat := by
        rw [Embedder.passesOver, differing_pass hcap (hrows k).nodup, List.length_drop, Embedder.found]

theorem found_eq (hcap : 1 ≤ cfg.maxPerCycle) (hrows : ∀ k, Lists (r k).rows snippet) (k : Nat) :
    e.found cfg r k = e.found cfg r 0 - cfg.maxPerCycle.toNat * k := by
  induction k with
  | zero => simp
  | succ k ih => rw [found_succ hcap hrows, ih, Nat.sub_sub, Nat.mul_succ]

/-- While the snippets stay as they are and every write succeeds, each pass takes as many of those
pending as it may; once none is, every snippet is stored and nothing more is embedded. -/
theorem converges (hcap : 1 ≤ cfg.maxPerCycle) (he : e.Ran cfg)
    (hstored : e.primed = false → Lists (r 0).stored e.table) (hrows : ∀ k, Lists (r k).rows snippet)
    (hdigest : ∀ a s t, snippet a = some s → e.table a = some t → cfg.digest t = cfg.digest s → t = s) :
    (e.passesOver cfg r 1).pending =
        (stale (r 0).rows e.table).length - min cfg.maxPerCycle.toNat (stale (r 0).rows e.table).length ∧
      (∀ k, (e.passesOver cfg r (k + 2)).pending = (e.passesOver cfg r (k + 1)).pending -
        min cfg.maxPerCycle.toNat (e.passesOver cfg r (k + 1)).pending) ∧
      ∀ k, (stale (r 0).rows e.table).length ⌈/⌉ cfg.maxPerCycle.toNat ≤ k →
        (∀ a s, snippet a = some s → hasText s = true → (e.passesOver cfg r k).table a = some s) ∧
          (e.passesOver cfg r (k + 1)).lastEmbedded = 0 ∧
            (e.passesOver cfg r (k + 1)).table = (e.passesOver cfg r k).table := by
  have hfound : e.found cfg r 0 = (stale (r 0).rows e.table).length :=
    congrArg List.length (waiting_eq_stale he.noted hstored fun row hrow t =>
      hdigest row.1 row.2 t (((hrows 0).mem row).1 hrow))
  rw [← hfound]
  refine ⟨pending_passesOver hcap 0, fun k => ?_, fun k hk => ?_⟩
  · rw [pending_passesOver hcap, pending_passesOver hcap, found_succ hcap hrows]
    omega
  · have hnone : (e.passesOver cfg r k).waiting cfg (r k) = [] := by
      rw [ceilDiv_le_iff_le_smul (by omega)] at hk
      refine List.eq_nil_of_length_eq_zero ?_
      rw [← Embedder.found, found_eq hcap hrows]
      exact Nat.sub_eq_zero_of_le hk
    have hbatch : (e.passesOver cfg r k).batch cfg (r k) = [] := by
      rw [batch_eq_take hcap, hnone, List.take_nil]
    refine ⟨fun a s hs htext => ?_, ?_, ?_⟩
    · have hstale : stale (r k).rows (e.passesOver cfg r k).table = [] := by
        rw [← hnone]
        refine (waiting_eq_stale (passesOver_ran he hstored k).noted (passesOver_stored hstored k) ?_).symm
        intro row hrow t ht hd
        have hrow := ((hrows k).mem row).1 hrow
        obtain h | h := passesOver_table cfg e hrows k row.1
        · exact hdigest row.1 row.2 t hrow (h ▸ ht) hd
        · exact Option.some.inj (ht.symm.trans (h.trans hrow))
      have hrow := List.filter_eq_nil_iff.1 hstale (a, s) (((hrows k).mem (a, s)).2 hs)
      simpa [htext] using hrow
    · rw [Embedder.passesOver, pass_eq, hbatch]
      rfl
    · rw [Embedder.passesOver, pass_eq, hbatch]
      exact prime_table ..

end

end

/-! ## Two assets, one a pass -/

def exactOne : Config Text := { exact with maxPerCycle := 1 }

def twoSnippets : Bool → Option Text
  | false => some after
  | true => some before

def oneStored : Bool → Option Text
  | false => some before
  | true => none

def twoReads (_ : Nat) : Reads Bool := ⟨[(false, before)], [(false, after), (true, before)]⟩

theorem lists_twoReads (k : Nat) : Lists (twoReads k).stored oneStored ∧ Lists (twoReads k).rows twoSnippets := by
  refine ⟨⟨by simp [twoReads], fun row => ?_⟩, ⟨by simp [twoReads], fun row => ?_⟩⟩ <;>
  · obtain ⟨a, t⟩ := row
    cases a <;> simp [twoReads, oneStored, twoSnippets, eq_comm]

/-- Both are stored after two passes. -/
theorem converges_two :
    (∀ a s, twoSnippets a = some s → hasText s = true →
      ((Embedder.init oneStored).passesOver exactOne twoReads 2).table a = some s) ∧
    ((Embedder.init oneStored).passesOver exactOne twoReads 1).pending = 1 := by
  obtain ⟨hfirst, -, hlater⟩ := @converges Bool Text _ _ exactOne _ twoReads twoSnippets (by decide) (.init oneStored)
    (fun _ => (lists_twoReads 0).1) (fun k => (lists_twoReads k).2) (fun _ _ _ _ _ h => h)
  exact ⟨(hlater 2 (by decide)).1, hfirst⟩

end HtapStack.LiveEmbedder
