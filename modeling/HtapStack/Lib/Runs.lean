import Mathlib.Tactic.Common
/-!
# Runs of a step function

A system is a step function `step : S → A → Option S`, where `none` says that
the action cannot happen in that state. An action carries every choice made
outside the system (what a broker answers, which write fails, who moves next),
so a list of actions is one interleaving and a theorem about all of them is
about every interleaving.

- `Reach C s t`: some run from `s` ends in `t`, and each of its steps meets the
  condition `C` in the state it is taken in.
- `Always P s as` and `Each C s as`: `P` in every state the run `as` passes
  through, and `C` at every step of it.

`always_iff_each` turns "the property holds along a run exactly when every step
meets the condition" into one fact about a single step.
-/

namespace HtapStack.Runs

variable {S A : Type}

/-- The state after the actions, or `none` if one of them cannot happen. -/
def exec (step : S → A → Option S) : S → List A → Option S
  | s, [] => some s
  | s, a :: as => (step s a).bind (exec step · as)

/-- No condition on the steps of a run. -/
def Any : S → A → Prop := fun _ _ => True

/-- `t` is reached from `s` by steps that each meet `C`. -/
inductive Reach (step : S → A → Option S) (C : S → A → Prop) (s : S) : S → Prop
  | refl : Reach step C s s
  | step {t u a} : Reach step C s t → C t a → step t a = some u → Reach step C s u

/-- `P` holds in every state that the run passes through. -/
def Always (step : S → A → Option S) (P : S → Prop) : S → List A → Prop
  | s, [] => P s
  | s, a :: as => P s ∧ ∀ t, step s a = some t → Always step P t as

/-- `C` holds at every step of the run, in the state the step is taken in. -/
def Each (step : S → A → Option S) (C : S → A → Prop) : S → List A → Prop
  | _, [] => True
  | s, a :: as => ∀ t, step s a = some t → C s a ∧ Each step C t as

/-- A given run can be checked step by step. -/
instance (step : S → A → Option S) (C : S → A → Prop) [∀ s a, Decidable (C s a)] :
    ∀ s as, Decidable (Each step C s as)
  | _, [] => isTrue trivial
  | s, a :: as =>
    match h : step s a with
    | none => isTrue fun t ht => by rw [h] at ht; cases ht
    | some t =>
      have := instDecidableEach step C t as
      decidable_of_iff (C s a ∧ Each step C t as)
        ⟨fun hc t' ht => by rw [h] at ht; cases ht; exact hc, fun hc => hc t h⟩

variable {step : S → A → Option S} {C D : S → A → Prop} {P I : S → Prop} {s t u : S}

/-! ## Reaching a state -/

theorem Reach.single {a : A} (hc : C s a) (h : step s a = some t) : Reach step C s t :=
  .step .refl hc h

theorem Reach.trans (hst : Reach step C s t) (htu : Reach step C t u) : Reach step C s u := by
  induction htu with
  | refl => exact hst
  | step _ hc h ih => exact .step ih hc h

/-- What every step that meets `C` keeps holds in every state reached. -/
theorem Reach.inv (hkeep : ∀ s a t, I s → C s a → step s a = some t → I t)
    (h : Reach step C s t) (hs : I s) : I t := by
  induction h with
  | refl => exact hs
  | step _ hc h ih => exact hkeep _ _ _ ih hc h

/-! ## Along a run -/

theorem Each.reach {as : List A} (hc : Each step C s as) (h : exec step s as = some t) :
    Reach step C s t := by
  induction as generalizing s with
  | nil => cases h; exact .refl
  | cons a as ih =>
    obtain ⟨r, hr, h⟩ := Option.bind_eq_some_iff.1 h
    obtain ⟨hca, hcas⟩ := hc r hr
    exact (Reach.single hca hr).trans (ih hcas h)

theorem Always.head {as : List A} (hP : Always step P s as) : P s := by
  cases as with
  | nil => exact hP
  | cons => exact hP.1

theorem Always.mono {Q : S → Prop} {as : List A} (hPQ : ∀ s, P s → Q s) (h : Always step P s as) :
    Always step Q s as := by
  induction as generalizing s with
  | nil => exact hPQ s h
  | cons a as ih => exact ⟨hPQ s h.1, fun t ht => ih (h.2 t ht)⟩

theorem Always.last {as : List A} (hP : Always step P s as) (h : exec step s as = some t) : P t := by
  induction as generalizing s with
  | nil => cases h; exact hP
  | cons a as ih =>
    obtain ⟨r, hr, h⟩ := Option.bind_eq_some_iff.1 h
    exact ih (hP.2 r hr) h

theorem exec_append {as bs : List A} (h : exec step s as = some t) : exec step s (as ++ bs) = exec step t bs := by
  induction as generalizing s with
  | nil => cases h; rfl
  | cons a as ih =>
    obtain ⟨r, hr, h⟩ := Option.bind_eq_some_iff.1 h
    rw [List.cons_append, exec, hr, Option.bind_some]
    exact ih h

theorem Each.drop {as bs : List A} (hc : Each step C s (as ++ bs)) (h : exec step s as = some t) :
    Each step C t bs := by
  induction as generalizing s with
  | nil => cases h; exact hc
  | cons a as ih =>
    obtain ⟨r, hr, h⟩ := Option.bind_eq_some_iff.1 h
    exact ih (hc r hr).2 h

theorem Each.and {as : List A} (hc : Each step C s as) (hd : Each step D s as) :
    Each step (fun s a => C s a ∧ D s a) s as := by
  induction as generalizing s with
  | nil => trivial
  | cons a as ih =>
    intro t ht
    exact ⟨⟨(hc t ht).1, (hd t ht).1⟩, ih (hc t ht).2 (hd t ht).2⟩

/-- Under an invariant that steps meeting `C` keep, `C` may be replaced by what it implies there. -/
theorem Each.imp {as : List A} (hkeep : ∀ s a t, I s → C s a → step s a = some t → I t)
    (hCD : ∀ s a t, I s → C s a → step s a = some t → D s a) (hI : I s) (h : Each step C s as) :
    Each step D s as := by
  induction as generalizing s with
  | nil => trivial
  | cons a as ih =>
    intro t ht
    obtain ⟨hca, hcas⟩ := h t ht
    exact ⟨hCD s a t hI hca ht, ih (hkeep s a t hI hca ht) hcas⟩

theorem Each.of_step {a : A} {as : List A} (h : step s a = some t) (hc : C s a) (hcs : Each step C t as) :
    Each step C s (a :: as) := by
  intro t' ht'
  cases h.symm.trans ht'
  exact ⟨hc, hcs⟩

theorem each_of_forall {as : List A} (h : ∀ a ∈ as, ∀ s, C s a) : Each step C s as := by
  induction as generalizing s with
  | nil => trivial
  | cons a as ih =>
    obtain ⟨ha, has⟩ := List.forall_mem_cons.1 h
    exact fun _ _ => ⟨ha s, ih has⟩

theorem each_any (as : List A) : Each step Any s as := each_of_forall fun _ _ _ => trivial

/-- What holds all along a run holds after each of its steps. -/
theorem Always.each {as : List A} (hP : Always step P s as) :
    Each step (fun s a => ∀ t, step s a = some t → P t) s as := by
  induction as generalizing s with
  | nil => trivial
  | cons a as ih =>
    refine fun t ht => ⟨fun t' ht' => ?_, ih (hP.2 t ht)⟩
    cases ht.symm.trans ht'
    exact (hP.2 t ht).head

/-- What every step that meets `C` keeps holds all along a run of such steps. -/
theorem always_of_each {as : List A} (hkeep : ∀ s a t, I s → C s a → step s a = some t → I t)
    (hIP : ∀ s, I s → P s) (hI : I s) (h : Each step C s as) : Always step P s as := by
  induction as generalizing s with
  | nil => exact hIP s hI
  | cons a as ih =>
    refine ⟨hIP s hI, fun t ht => ?_⟩
    obtain ⟨hca, hcas⟩ := h t ht
    exact ih (hkeep s a t hI hca ht) hcas

/-- An invariant that implies `P` puts `P` all along every run. -/
theorem always_of_inv (hkeep : ∀ s a t, I s → step s a = some t → I t) (hIP : ∀ s, I s → P s)
    (hI : I s) (as : List A) : Always step P s as :=
  always_of_each (fun s a t hs _ => hkeep s a t hs) hIP hI (each_any as)

/-- If, under an invariant `I` that lasts as long as `P` does, a step from a state
with `P` keeps `P` exactly when it meets `C`, then `P` holds all along a run
exactly when every step of the run meets `C`. -/
theorem always_iff_each (hkeep : ∀ s a t, I s → P t → step s a = some t → I t)
    (hstep : ∀ s a t, I s → P s → step s a = some t → (P t ↔ C s a)) (hI : I s) (hP : P s)
    (as : List A) : Always step P s as ↔ Each step C s as := by
  induction as generalizing s with
  | nil => exact ⟨fun _ => trivial, fun _ => hP⟩
  | cons a as ih =>
    constructor
    · rintro ⟨-, h⟩ t ht
      have hPt := (h t ht).head
      exact ⟨(hstep s a t hI hP ht).1 hPt, (ih (hkeep s a t hI hPt ht) hPt).1 (h t ht)⟩
    · refine fun h => ⟨hP, fun t ht => ?_⟩
      obtain ⟨hca, hcas⟩ := h t ht
      have hPt := (hstep s a t hI hP ht).2 hca
      exact (ih (hkeep s a t hI hPt ht) hPt).2 hcas

end HtapStack.Runs
