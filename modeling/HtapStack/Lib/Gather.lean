import Mathlib.Data.List.FinRange
import Mathlib.Data.List.Induction
import Mathlib.Logic.Function.Basic
/-!
# Arrays read and written at many indices

`a[ids] = vals` of NumPy: `put` writes an array at every index of a batch. The
indices may repeat, and then the assignments are made one after the other, so that
the last one stays. A mask leaves some of them out.

- `put_apply`: what an index has is the value of its last place, or what it had.
- `put_injective`: without repeats, the value of its own.
-/

namespace HtapStack.Gather

variable {α : Type} {n : Nat}

/-- `a[ids[mask]] = vals`, with the values at the places of the batch that they are for. -/
def put (a : Nat → α) (ids : Fin n → Nat) (mask : Fin n → Bool) (vals : Fin n → α) : Nat → α :=
  (List.finRange n).foldl (fun a k => if mask k then Function.update a (ids k) (vals k) else a) a

/-- `mask` without a mask. -/
def all : Fin n → Bool := fun _ => true

/-- How many places before this one the mask has: which of the values drawn for the mask is its own. -/
def rank (mask : Fin n → Bool) (k : Fin n) : Nat := (List.finRange n).countP fun j => mask j && j < k

/-- The places with index `i` that the mask has. -/
def places (ids : Fin n → Nat) (mask : Fin n → Bool) (i : Nat) : List (Fin n) :=
  (List.finRange n).filter fun k => mask k && ids k == i

variable {a : Nat → α} {ids : Fin n → Nat} {mask : Fin n → Bool} {vals : Fin n → α} {i : Nat} {k : Fin n}

theorem mem_places : k ∈ places ids mask i ↔ mask k = true ∧ ids k = i := by
  simp [places]

/-- What is written at an index is the last value for it. -/
theorem put_apply (a : Nat → α) (ids : Fin n → Nat) (mask : Fin n → Bool) (vals : Fin n → α) (i : Nat) :
    put a ids mask vals i = ((places ids mask i).getLast?.map vals).getD (a i) := by
  unfold put places
  induction List.finRange n using List.reverseRecOn with
  | nil => rfl
  | append_singleton l k ih =>
    rw [List.foldl_append, List.filter_append]
    simp only [List.foldl_cons, List.foldl_nil]
    cases hmask : mask k with
    | false => simpa [hmask] using ih
    | true =>
      by_cases hk : ids k = i
      · subst hk
        simp [hmask]
      · simpa [hmask, hk, Function.update_of_ne (Ne.symm hk)] using ih

theorem put_of_none (h : ∀ k, mask k = true → ids k ≠ i) : put a ids mask vals i = a i := by
  have hempty : places ids mask i = [] := by
    apply List.eq_nil_iff_forall_not_mem.2
    intro k hk
    obtain ⟨hmask, hid⟩ := mem_places.1 hk
    exact h k hmask hid
  rw [put_apply, hempty]
  rfl

/-- Something is written at an index, from one of its places. -/
theorem put_of_mem (a : Nat → α) (vals : Fin n → α) (hk : k ∈ places ids mask i) :
    ∃ j ∈ places ids mask i, (places ids mask i).getLast? = some j ∧ put a ids mask vals i = vals j := by
  obtain ⟨j, hj⟩ := Option.ne_none_iff_exists'.1 (mt List.getLast?_eq_none_iff.1 (List.ne_nil_of_mem hk))
  refine ⟨j, List.mem_of_getLast? hj, hj, ?_⟩
  rw [put_apply, hj]
  rfl

theorem put_injective (h : Function.Injective ids) (k : Fin n) :
    put a ids mask vals (ids k) = if mask k then vals k else a (ids k) := by
  cases hmask : mask k with
  | false =>
    apply put_of_none
    intro j hj hid
    rw [h hid, hmask] at hj
    cases hj
  | true =>
    obtain ⟨j, hj, -, hput⟩ := put_of_mem a vals (mem_places.2 ⟨hmask, rfl⟩)
    rw [hput, h (mem_places.1 hj).2]
    rfl

/-- Two arrays after writes without repeats agree where the writes and what was there do. -/
theorem put_congr {l : Nat} {a' : Nat → α} {ids' : Fin l → Nat} {mask' : Fin l → Bool} {vals' : Fin l → α} {j : Fin l}
    (h : Function.Injective ids) (h' : Function.Injective ids') (hmask : mask k = mask' j)
    (hvals : vals k = vals' j) (ha : a (ids k) = a' (ids' j)) :
    put a ids mask vals (ids k) = put a' ids' mask' vals' (ids' j) := by
  rw [put_injective h, put_injective h', hmask, hvals, ha]

end HtapStack.Gather
