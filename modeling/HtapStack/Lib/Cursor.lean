import Mathlib.Data.List.DropRight
/-!
# Following a log through a window

A log only grows, and a reader sees its last `n` entries. The reader comes back
now and then and takes what is there beyond the last entry it has.

`suffix_append_rtake_iff`: what it holds stays a gapless end of the log exactly
when no more entries than fit were added since its last visit.
-/

namespace HtapStack.Cursor

variable {α : Type}

theorem rtake_rtake (l : List α) (m n : Nat) : (l.rtake m).rtake n = l.rtake (min n m) := by
  simp only [List.rtake_eq_reverse_take_reverse, List.reverse_reverse, List.take_take]

theorem rtake_append (xs ys : List α) (n : Nat) :
    (xs ++ ys).rtake n = xs.rtake (n - ys.length) ++ ys.rtake n := by
  simp only [List.rtake_eq_reverse_take_reverse, List.reverse_append, List.take_append, List.length_reverse]

theorem take_reverse (l : List α) (n : Nat) : l.reverse.take n = (l.rtake n).reverse := by
  rw [List.rtake_eq_reverse_take_reverse, List.reverse_reverse]

theorem rtake_of_length_le {l : List α} {n : Nat} (h : l.length ≤ n) : l.rtake n = l := by
  rw [List.rtake_eq_reverse_take_reverse, List.take_of_length_le (l.length_reverse.trans_le h), List.reverse_reverse]

theorem length_rtake (l : List α) (n : Nat) : (l.rtake n).length = min n l.length := by
  rw [List.rtake_eq_reverse_take_reverse, List.length_reverse, List.length_take, List.length_reverse]

theorem rtake_suffix (l : List α) (n : Nat) : l.rtake n <:+ l := List.drop_suffix _ _

theorem getLast?_rtake (l : List α) {n : Nat} (hn : 0 < n) : (l.rtake n).getLast? = l.getLast? := by
  rw [List.rtake_eq_reverse_take_reverse, List.getLast?_reverse, List.head?_take, if_neg hn.ne', List.head?_reverse]

/-- The window after an entry more. -/
theorem rtake_concat (l : List α) (x : α) (n : Nat) : (l.rtake n ++ [x]).rtake n = (l ++ [x]).rtake n := by
  rw [rtake_append, rtake_append, rtake_rtake, Nat.min_eq_left (Nat.sub_le _ _)]

/-- Of the window, the entries beyond the old ones. -/
theorem filter_rtake {p : α → Bool} {old new : List α} (hold : ∀ x ∈ old, p x = false)
    (hnew : ∀ x ∈ new, p x = true) (n : Nat) : ((old ++ new).rtake n).filter p = new.rtake n := by
  have hleft : (old.rtake (n - new.length)).filter p = [] := by
    apply List.filter_eq_nil_iff.2
    intro x hx
    rw [hold x ((rtake_suffix _ _).subset hx)]
    exact Bool.false_ne_true
  have hright : (new.rtake n).filter p = new.rtake n := by
    apply List.filter_eq_self.2
    intro x hx
    exact hnew x ((rtake_suffix _ _).subset hx)
  rw [rtake_append, List.filter_append, hleft, hright, List.nil_append]

/-- Taking the last `n` new entries leaves no gap exactly when there are no more of them. -/
theorem suffix_append_rtake_iff {held old new : List α} {n : Nat} (hne : held ≠ []) (hheld : held <:+ old)
    (hnodup : (old ++ new).Nodup) : held ++ new.rtake n <:+ old ++ new ↔ new.length ≤ n := by
  constructor
  · intro h
    by_contra hlt
    -- The last entry held comes right before the last `n`, so it is one of the new ones.
    obtain ⟨init, x, rfl⟩ := held.eq_nil_or_concat'.resolve_left hne
    have hx : x :: new.rtake n <:+ old ++ new := by
      refine List.IsSuffix.trans ⟨init, ?_⟩ h
      rw [List.append_assoc, List.singleton_append]
    have hlength : (x :: new.rtake n).length ≤ new.length := by
      rw [List.length_cons, length_rtake]
      omega
    have hnew : x ∈ new :=
      (List.suffix_of_suffix_length_le hx (List.suffix_append old new) hlength).subset List.mem_cons_self
    have hold : x ∈ old := hheld.subset (List.mem_append_right _ List.mem_cons_self)
    exact (List.nodup_append.1 hnodup).2.2 x hold x hnew rfl
  · intro h
    obtain ⟨front, rfl⟩ := hheld
    rw [rtake_of_length_le h, List.append_assoc]
    exact List.suffix_append front _

end HtapStack.Cursor
