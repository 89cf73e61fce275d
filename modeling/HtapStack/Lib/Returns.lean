import Mathlib.Tactic.Common
/-!
# Computations that return

`Returns x`: the computation does not raise. The rules take it through a `do`
block, so that what a block needs in order to return is read off its lines.
-/

namespace HtapStack

variable {ε α β : Type}

/-- The computation does not raise. -/
def Returns (x : Except ε α) : Prop := ∃ a, x = .ok a

@[simp] theorem returns_ok (a : α) : Returns (.ok a : Except ε α) := ⟨a, rfl⟩

@[simp] theorem returns_pure (a : α) : Returns (pure a : Except ε α) := ⟨a, rfl⟩

@[simp] theorem not_returns_error (e : ε) : ¬ Returns (.error e : Except ε α) := fun ⟨_, h⟩ => nomatch h

theorem ok_bind (a : α) (f : α → Except ε β) : (.ok a >>= f) = f a := rfl

theorem bind_eq_ok {x : Except ε α} {f : α → Except ε β} {b : β} :
    (x >>= f) = .ok b ↔ ∃ a, x = .ok a ∧ f a = .ok b := by
  cases x with
  | ok a => simp [bind, Except.bind]
  | error e => simp [bind, Except.bind]

theorem map_eq_ok {x : Except ε α} {f : α → β} {b : β} : f <$> x = .ok b ↔ ∃ a, x = .ok a ∧ f a = b := by
  cases x with
  | ok a => simp [Functor.map, Except.map]
  | error e => simp [Functor.map, Except.map]

theorem returns_bind {x : Except ε α} {f : α → Except ε β} :
    Returns (x >>= f) ↔ ∃ a, x = .ok a ∧ Returns (f a) := by
  simp only [Returns, bind_eq_ok]
  exact ⟨fun ⟨b, a, ha, hf⟩ => ⟨a, ha, b, hf⟩, fun ⟨a, ha, b, hf⟩ => ⟨b, a, ha, hf⟩⟩

theorem Returns.bind {x : Except ε α} {f : α → Except ε β} (hx : Returns x) (hf : ∀ a, Returns (f a)) :
    Returns (x >>= f) := by
  obtain ⟨a, ha⟩ := hx
  exact returns_bind.2 ⟨a, ha, hf a⟩

/-- When what follows returns or not whatever the first line returns. -/
theorem returns_bind_and {x : Except ε α} {f : α → Except ε β} {p : Prop}
    (h : ∀ a, x = .ok a → (Returns (f a) ↔ p)) : Returns (x >>= f) ↔ Returns x ∧ p := by
  rw [returns_bind]
  constructor
  · rintro ⟨a, ha, hf⟩
    exact ⟨⟨a, ha⟩, (h a ha).1 hf⟩
  · rintro ⟨⟨a, ha⟩, hp⟩
    exact ⟨a, ha, (h a ha).2 hp⟩

/-- A line that returns adds nothing to what the block needs. -/
theorem returns_bind_iff {x : Except ε α} {f : α → Except ε β} {p : Prop} (hx : Returns x)
    (h : ∀ a, x = .ok a → (Returns (f a) ↔ p)) : Returns (x >>= f) ↔ p :=
  (returns_bind_and h).trans (and_iff_right hx)

@[simp] theorem returns_map {x : Except ε α} {f : α → β} : Returns (f <$> x) ↔ Returns x := by
  cases x <;> simp [Functor.map, Except.map]

/-- A comprehension returns when it does for each item. -/
@[simp] theorem returns_mapM {f : α → Except ε β} {xs : List α} : Returns (xs.mapM f) ↔ ∀ x ∈ xs, Returns (f x) := by
  induction xs with
  | nil => simp
  | cons x xs ih =>
    rw [List.mapM_cons, returns_bind_and fun _ _ => ?_, List.forall_mem_cons, ← ih]
    exact (returns_bind_and fun _ _ => iff_true_intro (returns_pure _)).trans (and_true _).to_iff

/-- A loop returns when each of its rounds does, whatever the rounds before it left. -/
theorem returns_foldlM {γ : Type} {f : γ → α → Except ε γ} {p : α → Prop} {xs : List α} (acc : γ)
    (h : ∀ acc, ∀ x ∈ xs, Returns (f acc x) ↔ p x) : Returns (xs.foldlM f acc) ↔ ∀ x ∈ xs, p x := by
  induction xs generalizing acc with
  | nil => simp
  | cons x xs ih =>
    have hxs := fun acc' => ih acc' fun acc y hy => h acc y (List.mem_cons_of_mem _ hy)
    rw [List.foldlM_cons, returns_bind_and fun acc' _ => hxs acc', h acc x List.mem_cons_self, List.forall_mem_cons]

end HtapStack
