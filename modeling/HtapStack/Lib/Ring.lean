import Mathlib.Data.List.Rotate
/-!
# Around a ring

A ring is a list of vertices, and a relation on its edges is counted around it:
along the list, and from its end back to its start. Counting a relation that does
not look at an edge's direction, it does not matter where a ring starts and which
way it goes (`around_append_comm`, `around_reverse`); and a chord cuts a ring into
two that count it twice more (`around_chord`).
-/

namespace HtapStack.Ring

variable {α : Type}

/-- How many steps along the list are in `f`. -/
def along (f : α → α → Bool) : List α → Nat
  | a :: b :: l => (f a b).toNat + along f (b :: l)
  | _ => 0

/-- How many edges of the ring are in `f`. -/
def around (f : α → α → Bool) (ring : List α) : Nat := along f (ring ++ ring.take 1)

section
variable {f : α → α → Bool} {p q : α}

theorem along_append (a b : List α) : along f (a ++ p :: b) = along f (a ++ [p]) + along f (p :: b) := by
  induction a with
  | nil => simp [along]
  | cons c a ih =>
    cases a with
    | nil => simp [along]
    | cons d a => simpa [along, Nat.add_assoc] using ih

theorem around_cons (l : List α) : around f (p :: l) = along f (p :: (l ++ [p])) := rfl

/-- A ring may start anywhere. -/
theorem around_append_comm (a b : List α) : around f (a ++ b) = around f (b ++ a) := by
  cases a with
  | nil => simp
  | cons p a =>
    cases b with
    | nil => simp
    | cons q b =>
      have hab : p :: (a ++ q :: b ++ [p]) = (p :: a) ++ q :: (b ++ [p]) := by simp
      have hba : q :: (b ++ p :: a ++ [q]) = (q :: b) ++ p :: (a ++ [q]) := by simp
      rw [List.cons_append, List.cons_append, around_cons, around_cons, hab, hba, along_append (p :: a),
        along_append (q :: b)]
      exact Nat.add_comm _ _

theorem around_rotate (n : Nat) (ring : List α) : around f (ring.rotate n) = around f ring := by
  rw [List.rotate_eq_drop_append_take_mod, around_append_comm, List.take_append_drop]

theorem along_reverse (hf : ∀ a b, f a b = f b a) (l : List α) : along f l.reverse = along f l := by
  induction l with
  | nil => rfl
  | cons a l ih =>
    cases l with
    | nil => rfl
    | cons b l =>
      rw [List.reverse_cons, List.reverse_cons, List.append_assoc, List.singleton_append, along_append,
        ← List.reverse_cons, ih]
      simp [along, hf a b, Nat.add_comm]

/-- And go either way. -/
theorem around_reverse (hf : ∀ a b, f a b = f b a) (ring : List α) : around f ring.reverse = around f ring := by
  cases ring with
  | nil => rfl
  | cons p l =>
    rw [List.reverse_cons, around_append_comm, List.singleton_append, around_cons, around_cons,
      ← along_reverse hf (p :: (l ++ [p]))]
    simp

/-- A chord from `p` to `q` is an edge of both parts. -/
theorem around_chord (hf : ∀ a b, f a b = f b a) (a b c : List α) :
    around f (p :: b ++ [q]) + around f (a ++ p :: q :: c) =
      around f (a ++ p :: b ++ q :: c) + 2 * (f p q).toNat := by
  have hring : around f (a ++ p :: b ++ q :: c) = along f (p :: b ++ [q]) + along f (q :: (c ++ a ++ [p])) := by
    rw [List.append_assoc, around_append_comm, List.append_assoc, List.cons_append, around_cons]
    have : p :: (b ++ (q :: c ++ a) ++ [p]) = p :: b ++ q :: (c ++ a ++ [p]) := by simp
    rw [this, along_append]
  have hnear : around f (p :: b ++ [q]) = along f (p :: b ++ [q]) + (f q p).toNat := by
    rw [List.cons_append, around_cons]
    have : p :: (b ++ [q] ++ [p]) = p :: b ++ q :: [p] := by simp
    rw [this, along_append]
    simp [along]
  have hfar : around f (a ++ p :: q :: c) = (f p q).toNat + along f (q :: (c ++ a ++ [p])) := by
    rw [around_append_comm, List.cons_append, around_cons]
    simp [along]
  rw [hring, hnear, hfar, hf q p]
  omega

/-- An edge from a vertex to itself may be left out. -/
theorem around_repeat (hp : f p p = false) (a b : List α) : around f (a ++ p :: p :: b) = around f (a ++ p :: b) := by
  rw [around_append_comm, around_append_comm a, List.cons_append, List.cons_append, around_cons,
    around_cons]
  simp [along, hp]

theorem countP_zip_concat (a z : α) (l : List α) :
    ((a :: l).zip (l ++ [z])).countP (fun e => f e.1 e.2) = along f (a :: (l ++ [z])) := by
  induction l generalizing a with
  | nil =>
    simp only [List.nil_append, List.zip_cons_cons, List.zip_nil_left, List.countP_cons, List.countP_nil, along]
    cases f a z <;> rfl
  | cons b l ih =>
    rw [List.cons_append, List.zip_cons_cons, List.countP_cons, ih, along, Nat.add_comm]
    cases f a b <;> rfl

/-- Each vertex with the one before it, the last of all for the first. -/
theorem countP_zip_rotate (ring : List α) :
    ((ring.rotate (ring.length - 1)).zip ring).countP (fun e => f e.1 e.2) = around f ring := by
  rcases List.eq_nil_or_concat ring with rfl | ⟨l, z, rfl⟩
  · rfl
  · rw [List.concat_eq_append, List.length_append, List.length_singleton, Nat.add_sub_cancel,
      List.rotate_append_length_eq, around_append_comm, List.singleton_append, around_cons]
    exact countP_zip_concat z z l

end

end HtapStack.Ring
