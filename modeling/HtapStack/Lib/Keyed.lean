import Mathlib.Logic.Function.Basic
/-!
# A cell for each key

A machine takes an input at a time and puts something out for each (`run`). `keyed` is
one that keeps a cell for each key, and takes an input in the cell of its key.

- `run_inv`: what every step keeps and puts out.
- `run_refines`: machines that agree at every step agree over every run.
- `run_own`: a key's cell and outputs are those of its own inputs, whatever comes between.
-/

namespace HtapStack.Keyed

variable {S I O C K : Type}

/-- What the machine is after the inputs, and each input with what it puts out. -/
def run (act : S → I → S × O) : S → List I → S × List (I × O)
  | s, [] => (s, [])
  | s, i :: is => ((run act (act s i).1 is).1, (i, (act s i).2) :: (run act (act s i).1 is).2)

theorem run_append (act : S → I → S × O) (s : S) (is js : List I) : run act s (is ++ js) =
    ((run act (run act s is).1 js).1, (run act s is).2 ++ (run act (run act s is).1 js).2) := by
  induction is generalizing s with
  | nil => rfl
  | cons i is ih => rw [List.cons_append, run, ih, run, List.cons_append]

theorem run_inputs (act : S → I → S × O) (s : S) (is : List I) : (run act s is).2.map Prod.fst = is := by
  induction is generalizing s with
  | nil => rfl
  | cons i is ih => rw [run, List.map_cons, ih]

theorem run_inv {act : S → I → S × O} {P : S → Prop} {Q : O → Prop}
    (h : ∀ s i, P s → P (act s i).1 ∧ Q (act s i).2) {s : S} (hs : P s) (is : List I) :
    P (run act s is).1 ∧ ∀ x ∈ (run act s is).2, Q x.2 := by
  induction is generalizing s with
  | nil => exact ⟨hs, fun x hx => absurd hx List.not_mem_nil⟩
  | cons i is ih =>
    obtain ⟨hP, hQ⟩ := h s i hs
    exact (ih hP).imp_right fun hrest => List.forall_mem_cons.2 ⟨hQ, hrest⟩

/-- If related machines put out the same at every step and stay related, they do over every run. -/
theorem run_refines {T : Type} {act : S → I → S × O} {act' : T → I → T × O} {R : S → T → Prop} {V : I → Prop}
    (h : ∀ s t i, R s t → V i → R (act s i).1 (act' t i).1 ∧ (act s i).2 = (act' t i).2) {s : S} {t : T}
    (hst : R s t) (is : List I) (his : ∀ i ∈ is, V i) :
    R (run act s is).1 (run act' t is).1 ∧ (run act s is).2 = (run act' t is).2 := by
  induction is generalizing s t with
  | nil => exact ⟨hst, rfl⟩
  | cons i is ih =>
    obtain ⟨hi, hrest⟩ := List.forall_mem_cons.1 his
    obtain ⟨hstep, hout⟩ := h s t i hst hi
    obtain ⟨hlast, houts⟩ := ih hstep hrest
    refine ⟨hlast, ?_⟩
    rw [run, run, hout, houts]

/-! ## Keys -/

section
variable [DecidableEq K] (key : I → K) (act : C → I → C × O)

def keyed (cells : K → C) (i : I) : (K → C) × O :=
  (Function.update cells (key i) (act (cells (key i)) i).1, (act (cells (key i)) i).2)

/-- The inputs of a key, in their order. -/
def own (k : K) (is : List I) : List I := is.filter (key · = k)

theorem keyed_own (cells : K → C) (i : I) : (keyed key act cells i).1 (key i) = (act (cells (key i)) i).1 :=
  Function.update_self ..

theorem keyed_other (cells : K → C) {i : I} {k : K} (hk : key i ≠ k) : (keyed key act cells i).1 k = cells k :=
  Function.update_of_ne (Ne.symm hk) _ _

variable (cells : K → C) (k : K) (is : List I)

theorem run_own : (run (keyed key act) cells is).1 k = (run act (cells k) (own key k is)).1 ∧
    (run (keyed key act) cells is).2.filter (key ·.1 = k) = (run act (cells k) (own key k is)).2 := by
  induction is generalizing cells with
  | nil => exact ⟨rfl, rfl⟩
  | cons i is ih =>
    obtain ⟨hcell, houts⟩ := ih (keyed key act cells i).1
    by_cases hk : key i = k
    · -- An input of its own: the cell moves as it would alone.
      subst hk
      rw [keyed_own] at hcell houts
      rw [own, List.filter_cons_of_pos (by simp), run, run, List.filter_cons_of_pos (by simp)]
      exact ⟨hcell, congrArg (List.cons (i, (act (cells (key i)) i).2)) houts⟩
    · -- An input of another key leaves the cell, and what it puts out is not among the key's.
      rw [keyed_other key act cells hk] at hcell houts
      rw [own, List.filter_cons_of_neg (by simpa using hk), run, List.filter_cons_of_neg (by simpa using hk)]
      exact ⟨hcell, houts⟩

theorem own_own : own key k (own key k is) = own key k is := by
  rw [own, own, List.filter_filter]
  simp

/-- The cell as if there were no other key. -/
theorem cell_own : (run (keyed key act) cells is).1 k = (run (keyed key act) cells (own key k is)).1 k := by
  rw [(run_own key act cells k is).1, (run_own key act cells k _).1, own_own]

/-- What is put out for a key, as if there were no other. -/
theorem outputs_own : (run (keyed key act) cells is).2.filter (key ·.1 = k) =
    (run (keyed key act) cells (own key k is)).2 := by
  have hall : ∀ x ∈ (run (keyed key act) cells (own key k is)).2, decide (key x.1 = k) = true := by
    intro x hx
    have hin : x.1 ∈ own key k is := by
      rw [← run_inputs (keyed key act) cells (own key k is)]
      exact List.mem_map_of_mem hx
    exact (List.mem_filter.1 hin).2
  rw [(run_own key act cells k is).2, ← List.filter_eq_self.2 hall, (run_own key act cells k _).2, own_own]

/-- A key without inputs has the cell it began with. -/
theorem cell_untouched (h : ∀ i ∈ is, key i ≠ k) : (run (keyed key act) cells is).1 k = cells k := by
  have hnone : own key k is = [] := List.filter_eq_nil_iff.2 fun i hi => by simpa using h i hi
  rw [(run_own key act cells k is).1, hnone]
  rfl

end

/-- What every step keeps of a cell is so of all cells. -/
theorem keyed_inv [DecidableEq K] (key : I → K) {act : C → I → C × O} {P : C → Prop} {Q : O → Prop}
    (h : ∀ c i, P c → P (act c i).1 ∧ Q (act c i).2) {cells : K → C} (hcells : ∀ k, P (cells k)) (is : List I) :
    (∀ k, P ((run (keyed key act) cells is).1 k)) ∧ ∀ x ∈ (run (keyed key act) cells is).2, Q x.2 := by
  have hstep : ∀ (cells : K → C) (i : I), (∀ k, P (cells k)) →
      (∀ k, P ((keyed key act cells i).1 k)) ∧ Q (keyed key act cells i).2 := by
    intro cells i hcells
    obtain ⟨hP, hQ⟩ := h (cells (key i)) i (hcells (key i))
    refine ⟨?_, hQ⟩
    intro k
    by_cases hk : key i = k
    · rw [← hk, keyed_own]
      exact hP
    · rw [keyed_other key act cells hk]
      exact hcells k
  exact run_inv hstep hcells is

end HtapStack.Keyed
