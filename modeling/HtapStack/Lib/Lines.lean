import Mathlib.Data.List.Basic
/-!
# Parts out of pieces

A sequence that arrives in pieces is cut at a separator by holding over what follows
the last one. `parts_eq`: the parts so cut are those of the whole.
-/

namespace HtapStack.Lines

variable {α : Type} [BEq α]

/-- The parts that a piece completes, and what is held over. -/
def cut (sep : α) (held piece : List α) : List (List α) × List α :=
  let parts := (held ++ piece).splitOn sep
  (parts.dropLast, parts.getLast?.getD [])

/-- The parts that the pieces complete, and what is held over at the end. -/
def parts (sep : α) (held : List α) : List (List α) → List (List α)
  | [] => [held]
  | piece :: pieces => (cut sep held piece).1 ++ parts sep (cut sep held piece).2 pieces

variable {sep : α} {xs held : List α} {ps : List (List α)}

theorem cut_spec (sep : α) (held piece : List α) :
    (held ++ piece).splitOn sep = (cut sep held piece).1 ++ [(cut sep held piece).2] := by
  have hne := List.splitOn_ne_nil sep (held ++ piece)
  simp only [cut, List.getLast?_eq_some_getLast hne, Option.getD_some]
  exact (List.dropLast_concat_getLast hne).symm

/-- What follows the last separator goes on with what is appended. -/
theorem splitOn_append (ys : List α) (h : xs.splitOn sep = ps ++ [held]) :
    (xs ++ ys).splitOn sep = ps ++ (held ++ ys).splitOn sep := by
  induction xs generalizing ps held with
  | nil =>
    obtain ⟨rfl, rfl⟩ : ps = [] ∧ held = [] := by
      rw [List.splitOn_nil, List.singleton_eq_append_iff] at h
      simpa using h
    rfl
  | cons x xs ih =>
    rw [List.splitOn_cons_eq_if_modifyHead] at h
    rw [List.cons_append, List.splitOn_cons_eq_if_modifyHead]
    split at h
    · rw [if_pos ‹_›]
      cases ps with
      | nil => simp at h
      | cons p ps =>
        obtain ⟨rfl, htail⟩ := List.cons.inj h
        rw [ih htail]
        rfl
    · rename_i hx
      rw [if_neg hx]
      obtain ⟨q, qs, hqs⟩ := List.exists_cons_of_ne_nil (List.splitOn_ne_nil sep xs)
      rw [hqs, List.modifyHead_cons] at h
      cases ps with
      | nil =>
        obtain ⟨rfl, rfl⟩ := List.cons.inj h
        have hrest : (xs ++ ys).splitOn sep = [] ++ (q ++ ys).splitOn sep := ih hqs
        rw [hrest, List.cons_append, List.splitOn_cons_eq_if_modifyHead, if_neg hx]
        rfl
      | cons p ps =>
        obtain ⟨rfl, rfl⟩ := List.cons.inj h
        have hrest : (xs ++ ys).splitOn sep = (q :: ps) ++ (held ++ ys).splitOn sep := ih hqs
        rw [hrest]
        rfl

theorem parts_append (pieces : List (List α)) (h : xs.splitOn sep = ps ++ [held]) :
    ps ++ parts sep held pieces = (xs ++ pieces.flatten).splitOn sep := by
  induction pieces generalizing xs held ps with
  | nil => rw [parts, List.flatten_nil, List.append_nil, h]
  | cons piece pieces ih =>
    have hcut := splitOn_append piece h
    rw [cut_spec sep held, ← List.append_assoc] at hcut
    rw [parts, ← List.append_assoc, ih hcut, List.flatten_cons, List.append_assoc]

/-- The parts are those of the whole, however it is divided. -/
theorem parts_eq (sep : α) (pieces : List (List α)) : parts sep [] pieces = pieces.flatten.splitOn sep := by
  have hnil : ([] : List α).splitOn sep = [] ++ [[]] := List.splitOn_nil sep
  exact parts_append pieces hnil

end HtapStack.Lines
