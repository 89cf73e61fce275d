/-!
# Generators

A Python generator, as its caller and other threads see it. Its body is left to
the program: a type of program points, with the point it starts at and, for each
point, the handler (an `except`, a `finally`) that takes an exception raised
there.

`close` raises `GeneratorExit` at the point where the generator is suspended, so
the handlers run. A generator that was never started has no such point: closing
it runs nothing (`close_effect`).
-/

namespace HtapStack.Generator

variable {P : Type}

structure Body (P : Type) where
  start : P
  handler : P → Option P

inductive Gen (P : Type) where
  | fresh
  | running (pc : P)
  | suspended (pc : P)
  | closed
  deriving DecidableEq, Repr

/-- An exception raised at `pc`: the handler runs, or the generator is left. -/
def Body.raise (b : Body P) (pc : P) : Gen P :=
  match b.handler pc with
  | some h => .running h
  | none => .closed

/-- `next(gen)`, up to the point where the body runs. A running generator cannot
be entered, and a closed one raises `StopIteration`. -/
def Body.next (b : Body P) : Gen P → Option (Gen P)
  | .fresh => some (.running b.start)
  | .suspended pc => some (.running pc)
  | .running _ | .closed => none

/-- `gen.close()`, up to the point where a handler runs. -/
def Body.close (b : Body P) : Gen P → Option (Gen P)
  | .fresh | .closed => some .closed
  | .suspended pc => some (b.raise pc)
  | .running _ => none

variable {b : Body P} {g g' : Gen P}

theorem next_effect (h : b.next g = some g') :
    (g = .fresh ∧ g' = .running b.start) ∨ ∃ pc, g = .suspended pc ∧ g' = .running pc := by
  cases g with
  | fresh => exact .inl ⟨rfl, (Option.some.inj h).symm⟩
  | suspended pc => exact .inr ⟨pc, rfl, (Option.some.inj h).symm⟩
  | running | closed => cases h

/-- Where every point has a handler, closing a started generator runs one. -/
theorem close_effect (hb : ∀ pc, (b.handler pc).isSome) (h : b.close g = some g') :
    (g = .fresh ∧ g' = .closed) ∨ (g = .closed ∧ g' = .closed) ∨
      ∃ pc hd, g = .suspended pc ∧ b.handler pc = some hd ∧ g' = .running hd := by
  cases g with
  | fresh => exact .inl ⟨rfl, (Option.some.inj h).symm⟩
  | closed => exact .inr (.inl ⟨rfl, (Option.some.inj h).symm⟩)
  | suspended pc =>
    obtain ⟨hd, hhd⟩ := Option.isSome_iff_exists.1 (hb pc)
    refine .inr (.inr ⟨pc, hd, rfl, hhd, ?_⟩)
    simpa [Body.close, Body.raise, hhd] using h.symm
  | running => cases h

end HtapStack.Generator
