import HtapStack.Lib.Ranks
import HtapStack.Search.Passes
/-!
# What one pass of the live embedder defers

Runs of `LiveEmbedder._pass` (`backend/app/routes/vector.py`) over snippets that
change at will and writes that fail at will. The read of `drone_latest_status`
returns the assets in the same order every time, and a pass takes the first
`vector_live_max_per_cycle` of those it finds changed.

`fair_iff`: what one pass defers goes first in the next exactly when no asset that
was taken waits again meanwhile, and none that is newly changed stands before the
cut while a deferred one does not. `starved` is a run in which the first of two
assets changes before every pass.
-/

namespace HtapStack.LiveEmbedder
open Runs Ranks

variable {A D : Type} [LinearOrder A] [DecidableEq D]

/-- What the cut leaves in, of so many. -/
def room (cap : Int) (length : Nat) : Nat :=
  if 0 ≤ cap then min cap.toNat length else length - (-cap).toNat

theorem slice_eq_take {α : Type} (cap : Int) (rows : List α) : slice cap rows = rows.take (room cap rows.length) := by
  unfold slice room
  split
  · rw [← List.take_eq_take_min]
  · rfl

/-- The embedder, and which assets its last pass took and deferred. -/
structure Round (A D : Type) where
  embedder : Embedder A D
  taken : List A
  deferred : List A

inductive PassAction (A : Type) where
  | pass (r : Reads A) (succeeds : A → Bool)
  /-- The read of the snippets raises. -/
  | fail (stored : List (A × Text))

/-- The assets that a pass finds changed. -/
def Round.waits (cfg : Config D) (s : Round A D) (r : Reads A) : List A := (s.embedder.waiting cfg r).map Prod.fst

/-- How many of them it has room for. -/
def Round.cut (cfg : Config D) (s : Round A D) (r : Reads A) : Nat := room cfg.maxPerCycle (s.waits cfg r).length

def Round.takes (cfg : Config D) (s : Round A D) (r : Reads A) : List A := (s.embedder.batch cfg r).map Prod.fst

/-- Every read returns the assets in the order of their tokens. -/
def Round.step (cfg : Config D) (s : Round A D) : PassAction A → Option (Round A D)
  | .pass r succeeds =>
    if (r.rows.map Prod.fst).Pairwise (· < ·) then
      some ⟨s.embedder.pass cfg r succeeds, s.takes cfg r, (s.waits cfg r).filter (· ∉ s.takes cfg r)⟩
    else none
  | .fail stored => some { s with embedder := s.embedder.prime cfg stored }

/-- An asset that the last pass deferred and that still waits is taken before any that it took, and
is left out for no others than such assets. -/
def Round.Fair (cfg : Config D) (s : Round A D) : PassAction A → Prop
  | .pass r _ =>
    ∀ d ∈ s.deferred, d ∈ s.waits cfg r →
      (∀ a ∈ s.taken, a ∈ s.takes cfg r → [d, a].Sublist (s.takes cfg r)) ∧
        (d ∉ s.takes cfg r → ∀ a ∈ s.takes cfg r, a ∈ s.deferred)
  | .fail _ => True

/-- While a deferred asset waits, none of those taken waits again, and it stands before the cut
unless everything new stands after it. -/
def Round.Steady (cfg : Config D) (s : Round A D) : PassAction A → Prop
  | .pass r _ =>
    ∀ d ∈ s.deferred, d ∈ s.waits cfg r → s.cut cfg r = 0 ∨
      (∀ a ∈ s.taken, a ∉ s.waits cfg r) ∧
        (rank (s.waits cfg r) d < s.cut cfg r ∨
          ∀ a ∈ s.waits cfg r, a ∉ s.deferred → s.cut cfg r ≤ rank (s.waits cfg r) a)
  | .fail _ => True

/-! ## The cut -/

section
variable {cfg : Config D} {s s' : Round A D} {r : Reads A} {a : A}

theorem takes_eq_take (cfg : Config D) (s : Round A D) (r : Reads A) :
    s.takes cfg r = (s.waits cfg r).take (s.cut cfg r) := by
  rw [Round.takes, Embedder.batch, slice_eq_take, List.map_take, Round.cut, Round.waits, List.length_map]

theorem waits_ascending (h : (r.rows.map Prod.fst).Pairwise (· < ·)) : (s.waits cfg r).Pairwise (· < ·) :=
  h.sublist (waiting_sublist.map _)

theorem mem_takes_iff (h : (r.rows.map Prod.fst).Pairwise (· < ·)) (ha : a ∈ s.waits cfg r) :
    a ∈ s.takes cfg r ↔ rank (s.waits cfg r) a < s.cut cfg r := by
  rw [takes_eq_take, mem_take_iff (waits_ascending h) ha]

theorem waits_of_takes (ha : a ∈ s.takes cfg r) : a ∈ s.waits cfg r :=
  List.mem_of_mem_take (takes_eq_take cfg s r ▸ ha)

/-- The pass takes from the front. -/
def Round.InOrder (s : Round A D) : Prop := ∀ a ∈ s.taken, ∀ d ∈ s.deferred, a < d

theorem inOrder_step {action : PassAction A} (hI : s.InOrder) (h : s.step cfg action = some s') : s'.InOrder := by
  cases action with
  | pass r succeeds =>
    obtain ⟨hrows, h⟩ := Option.ite_none_right_eq_some.1 h
    obtain rfl := Option.some.inj h
    intro a ha d hd
    obtain ⟨hwaits, hd⟩ := List.mem_filter.1 hd
    have hd := of_decide_eq_true hd
    rw [mem_takes_iff hrows hwaits] at hd
    have ha := (mem_takes_iff hrows (waits_of_takes ha)).1 ha
    by_contra hle
    have := rank_le_of_le (s.waits cfg r) (not_lt.1 hle)
    omega
  | fail stored =>
    obtain rfl := Option.some.inj h
    exact hI

theorem steady_of_fair {succeeds : A → Bool} (hI : s.InOrder) (hrows : (r.rows.map Prod.fst).Pairwise (· < ·))
    (h : s.Fair cfg (.pass r succeeds)) : s.Steady cfg (.pass r succeeds) := by
  intro d hd hwaits
  by_cases hn : s.cut cfg r = 0
  · exact .inl hn
  obtain ⟨hfirst, hall⟩ := h d hd hwaits
  -- those taken stand before those deferred, so none of them can follow one
  have hgone : ∀ a ∈ s.taken, a ∉ s.takes cfg r := by
    intro a ha hmem
    have hsub := hfirst a ha hmem
    exact lt_asymm (hI a ha d hd)
      ((pair_sublist (takes_eq_take cfg s r ▸ (waits_ascending hrows).take) (hsub.subset (by simp)) hmem).1 hsub)
  refine .inr ⟨fun a ha hmem => ?_, ?_⟩
  · have hrank : s.cut cfg r ≤ rank (s.waits cfg r) a := not_lt.1 fun hlt => hgone a ha ((mem_takes_iff hrows hmem).2 hlt)
    have hout : d ∉ s.takes cfg r := by
      rw [mem_takes_iff hrows hwaits]
      exact (hrank.trans (rank_le_of_le (s.waits cfg r) (hI a ha d hd).le)).not_gt
    obtain ⟨x, hx⟩ : ∃ x, x ∈ s.takes cfg r := by
      refine List.exists_mem_of_ne_nil _ fun hnil => ?_
      rw [takes_eq_take, List.take_eq_nil_iff] at hnil
      exact hnil.elim hn (List.ne_nil_of_mem hwaits)
    have hxrank := (mem_takes_iff hrows (waits_of_takes hx)).1 hx
    have hle := rank_le_of_le (s.waits cfg r) (hI a ha x (hall hout x hx)).le
    exact (hrank.trans hle).not_gt hxrank
  · by_cases hmem : d ∈ s.takes cfg r
    · exact .inl ((mem_takes_iff hrows hwaits).1 hmem)
    · exact .inr fun a ha hnew => not_lt.1 fun hlt => hnew (hall hmem a ((mem_takes_iff hrows ha).2 hlt))

theorem fair_of_steady {succeeds : A → Bool} (hrows : (r.rows.map Prod.fst).Pairwise (· < ·))
    (h : s.Steady cfg (.pass r succeeds)) : s.Fair cfg (.pass r succeeds) := by
  intro d hd hwaits
  obtain hn | ⟨hgone, hcut⟩ := h d hd hwaits
  · have hnil : s.takes cfg r = [] := by rw [takes_eq_take, hn, List.take_zero]
    simp [hnil]
  · refine ⟨fun a ha hmem => absurd (waits_of_takes hmem) (hgone a ha), fun hout a ha => ?_⟩
    rw [mem_takes_iff hrows hwaits] at hout
    by_contra hnew
    have hle := (hcut.resolve_left hout) a (waits_of_takes ha) hnew
    exact hle.not_gt ((mem_takes_iff hrows (waits_of_takes ha)).1 ha)

theorem fair_iff_steady {action : PassAction A} (hI : s.InOrder) (h : s.step cfg action = some s') :
    s.Fair cfg action ↔ s.Steady cfg action := by
  cases action with
  | pass r succeeds =>
    obtain ⟨hrows, -⟩ := Option.ite_none_right_eq_some.1 h
    exact ⟨steady_of_fair hI hrows, fair_of_steady hrows⟩
  | fail => exact Iff.rfl

end

/-! ## Runs -/

/-- The first pass of a run follows none. -/
def Round.init (e : Embedder A D) : Round A D := ⟨e, [], []⟩

/-- Along any run, what a pass defers goes first in the next exactly as long as those taken do not
wait again before the deferred ones have been taken. -/
theorem fair_iff (cfg : Config D) (e : Embedder A D) (as : List (PassAction A)) :
    Each (Round.step cfg) (Round.Fair cfg) (.init e) as ↔ Each (Round.step cfg) (Round.Steady cfg) (.init e) as := by
  have hI : (Round.init e).InOrder := fun a ha => by cases ha
  exact ⟨Each.imp (fun _ _ _ hI _ h => inOrder_step hI h) (fun _ _ _ hI hc h => (fair_iff_steady hI h).1 hc) hI,
    Each.imp (fun _ _ _ hI _ h => inOrder_step hI h) (fun _ _ _ hI hc h => (fair_iff_steady hI h).2 hc) hI⟩

/-- Both of two assets have changed, and the first changes again before the next pass. -/
theorem starved :
    ¬ ∀ as, Each (Round.step exactOne) (Round.Fair exactOne) (Round.init (.init fun (_ : Nat) => none)) as := by
  intro h
  have hrun := h [.pass ⟨[], [(0, before), (1, before)]⟩ fun _ => true, .pass ⟨[], [(0, after), (1, before)]⟩ fun _ => true]
  have hfair := ((hrun _ rfl).2 _ rfl).1 1 (by decide) (by decide)
  exact absurd (hfair.1 0 (by decide) (by decide)) (by decide)

end HtapStack.LiveEmbedder
