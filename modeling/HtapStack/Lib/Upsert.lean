import Mathlib.Data.List.Induction
import Mathlib.Logic.Function.Basic
/-!
# Tables that are upserted

A table maps each primary key to its row. A write stores the row under its key,
over the one that is there. `upserts_suffix`: the last rows of a run of writes,
written again, change nothing.
-/

namespace HtapStack

variable {K V : Type} [DecidableEq K]

/-- The rows, each in its turn, over what is there. -/
def upserts (key : V → K) (table : K → Option V) (rows : List V) : K → Option V :=
  rows.foldl (fun t row => Function.update t (key row) (some row)) table

variable {key : V → K} {table : K → Option V}

theorem upserts_append (xs ys : List V) : upserts key table (xs ++ ys) = upserts key (upserts key table xs) ys :=
  List.foldl_append

/-- The row of a key is the last one written under it. -/
theorem upserts_apply (rows : List V) (k : K) :
    upserts key table rows k = (rows.reverse.find? (key · = k)).or (table k) := by
  induction rows using List.reverseRecOn with
  | nil => rfl
  | append_singleton rows row ih =>
    rw [upserts_append, List.reverse_append, List.reverse_singleton, List.singleton_append, List.find?_cons]
    by_cases hk : key row = k
    · simp [upserts, hk]
    · simp only [hk, decide_false, ← ih]
      exact Function.update_of_ne (Ne.symm hk) _ _

theorem upserts_last (rows : List V) (row : V) : upserts key table (rows ++ [row]) (key row) = some row := by
  rw [upserts_append]
  exact Function.update_self _ _ _

theorem upserts_suffix (xs ys : List V) :
    upserts key (upserts key table (xs ++ ys)) ys = upserts key table (xs ++ ys) := by
  funext k
  rw [upserts_apply ys, upserts_append, upserts_apply ys]
  cases ys.reverse.find? (key · = k) <;> rfl

end HtapStack
