import HtapStack.Producer.FleetRuns
import Mathlib.Analysis.SpecialFunctions.Exp
import Mathlib.Analysis.SpecialFunctions.Trigonometric.Basic
/-!
# The noise of the simulated fleet

`_ou_step` of `ingress/producer/producer.py` says of itself that its discretisation
is exact. What that comes to, on real numbers: after any steps, of any lengths, the
noise is a share of what it was, and a sum of the numbers drawn with weights whose
squares add up to the variance of a single step as long as all of them.

`noise_exact`: so it is for an asset in any run of the fleet, whatever turns its
time was cut into.
-/

namespace HtapStack.Fleet
open Gather Real

/-- The functions of `math` on real numbers. -/
noncomputable def realMaths (dayOfYear hour : ℝ → ℝ) : Maths ℝ :=
  ⟨Real.sin, Real.cos, Real.exp, Real.sqrt, π, dayOfYear, hour⟩

/-- How much each number counts in the end, by the lengths of the steps. -/
noncomputable def weights (tau : ℝ) : List ℝ → List ℝ
  | [] => []
  | dt :: dts => √(1 - exp (-dt / tau) ^ 2) * exp (-dts.sum / tau) :: weights tau dts

/-- Each number by its weight. -/
def weighted (ws zs : List ℝ) : ℝ := (List.zipWith (· * ·) ws zs).sum

variable {dayOfYear hour : ℝ → ℝ} {tau sigma : ℝ}

/-- Steps in a row. -/
noncomputable def ouSteps (m : Maths ℝ) (tau sigma x : ℝ) (steps : List (ℝ × ℝ)) : ℝ :=
  steps.foldl (fun x s => ouStep m x s.1 tau sigma s.2) x

/-- The time constant that is used. -/
noncomputable def clampedTau (tau : ℝ) : ℝ := max (lit (1 / 1000000)) tau

theorem clampedTau_pos (tau : ℝ) : 0 < clampedTau tau := lt_max_of_lt_left (by norm_num)

theorem exp_two (t : ℝ) : exp (lit (-2) * t / tau) = exp (-t / tau) ^ 2 := by
  rw [← exp_nat_mul, lit_eq]
  congr 1
  push_cast
  ring

theorem ouStep_eq (x dt z : ℝ) : ouStep (realMaths dayOfYear hour) x dt tau sigma z =
    x * exp (-dt / clampedTau tau) + sigma * √(1 - exp (-dt / clampedTau tau) ^ 2) * z := by
  rw [← exp_two]
  rfl

theorem ouSteps_eq (x : ℝ) (steps : List (ℝ × ℝ)) :
    ouSteps (realMaths dayOfYear hour) tau sigma x steps =
      x * exp (-(steps.map Prod.fst).sum / clampedTau tau) +
        sigma * weighted (weights (clampedTau tau) (steps.map Prod.fst)) (steps.map Prod.snd) := by
  induction steps generalizing x with
  | nil => simp [ouSteps, weighted, weights]
  | cons s steps ih =>
    obtain ⟨dt, z⟩ := s
    have hstep : ouSteps (realMaths dayOfYear hour) tau sigma x ((dt, z) :: steps) =
        ouSteps (realMaths dayOfYear hour) tau sigma (ouStep (realMaths dayOfYear hour) x dt tau sigma z) steps := rfl
    have hexp (rest : ℝ) : exp (-(dt + rest) / clampedTau tau) =
        exp (-dt / clampedTau tau) * exp (-rest / clampedTau tau) := by
      rw [← exp_add]
      congr 1
      ring
    rw [hstep, ih, ouStep_eq]
    simp only [List.map_cons, List.sum_cons, weights, weighted, List.zipWith_cons_cons]
    rw [hexp]
    ring

/-- The squares of the weights, of steps that do not go back. -/
theorem sum_sq_weights (htau : 0 < tau) (dts : List ℝ) (hdts : ∀ dt ∈ dts, 0 ≤ dt) :
    ((weights tau dts).map (· ^ 2)).sum = 1 - exp (-dts.sum / tau) ^ 2 := by
  induction dts with
  | nil => simp [weights]
  | cons dt dts ih =>
    obtain ⟨hdt, hdts⟩ := List.forall_mem_cons.1 hdts
    have hle : exp (-dt / tau) ^ 2 ≤ 1 := by
      apply pow_le_one₀ (exp_pos _).le
      apply exp_le_one_iff.2
      exact div_nonpos_of_nonpos_of_nonneg (neg_nonpos.2 hdt) htau.le
    have hroot : √(1 - exp (-dt / tau) ^ 2) ^ 2 = 1 - exp (-dt / tau) ^ 2 := sq_sqrt (by linarith)
    have hsplit : exp (-(dt + dts.sum) / tau) = exp (-dt / tau) * exp (-dts.sum / tau) := by
      rw [← exp_add]
      congr 1
      ring
    rw [weights, List.map_cons, List.sum_cons, ih hdts, mul_pow, hroot, List.sum_cons, hsplit]
    ring

/-! ## In the fleet -/

/-- What of an asset's place is noisy. -/
inductive Axis where
  | x
  | y
  | alt

def FleetState.noise (f : FleetState ℝ) : Axis → Nat → ℝ
  | .x => f.noiseX
  | .y => f.noiseY
  | .alt => f.noiseAlt

def Batch.normal {n : Nat} (b : Batch ℝ n) : Axis → Nat → ℝ
  | .x => b.normalX
  | .y => b.normalY
  | .alt => b.normalAlt

noncomputable def FleetConfig.noiseTauS (cfg : FleetConfig ℝ) : Axis → ℝ
  | .x | .y => cfg.posNoiseTauS
  | .alt => cfg.altNoiseTauS

noncomputable def FleetConfig.noiseSigmaM (cfg : FleetConfig ℝ) : Axis → ℝ
  | .x | .y => cfg.posNoiseSigmaM
  | .alt => cfg.altNoiseSigmaM

section
variable (m : Maths ℝ) (cfg : FleetConfig ℝ) (axis : Axis)

/-- An asset's steps: how long they are taken to be, and the number drawn for its noise. -/
noncomputable def ownSteps (i : Nat) : FleetState ℝ → Batches ℝ → List (ℝ × ℝ)
  | _, [] => []
  | f, b :: bs => ((places b.2.ids all i).map fun k => (dt f b.2 k, b.2.normal axis k)) ++
      ownSteps i (step m cfg f b.2).1 bs

variable {m cfg axis}

theorem dt_nonneg {n : Nat} (f : FleetState ℝ) (b : Batch ℝ n) (k : Fin n) : 0 ≤ dt f b k := by
  unfold dt clip
  exact le_min (le_max_of_le_right (by norm_num)) (by norm_num)

theorem ownSteps_nonneg (i : Nat) (f : FleetState ℝ) (bs : Batches ℝ) :
    ∀ t ∈ (ownSteps m cfg axis i f bs).map Prod.fst, 0 ≤ t := by
  induction bs generalizing f with
  | nil => exact fun _ ht => absurd ht List.not_mem_nil
  | cons b bs ih =>
    rw [ownSteps, List.map_append, List.forall_mem_append]
    refine ⟨?_, ih _⟩
    intro t ht
    rw [List.map_map] at ht
    obtain ⟨k, -, rfl⟩ := List.mem_map.1 ht
    exact dt_nonneg f b.2 k

/-- A step writes an asset's noise at its places. -/
theorem step_noise {n : Nat} (f : FleetState ℝ) (b : Batch ℝ n) (axis : Axis) :
    (step m cfg f b).1.noise axis = put (f.noise axis) b.ids all fun k =>
      ouStep m (f.noise axis (b.ids k)) (dt f b k) (cfg.noiseTauS axis) (cfg.noiseSigmaM axis) (b.normal axis k) := by
  cases axis <;> rfl

theorem run_noise (i : Nat) (f : FleetState ℝ) (bs : Batches ℝ) (hinj : ∀ b ∈ bs, Function.Injective b.2.ids) :
    (run m cfg f bs).noise axis i =
      ouSteps m (cfg.noiseTauS axis) (cfg.noiseSigmaM axis) (f.noise axis i) (ownSteps m cfg axis i f bs) := by
  induction bs generalizing f with
  | nil => rfl
  | cons b bs ih =>
    obtain ⟨hb, hbs⟩ := List.forall_mem_cons.1 hinj
    have hrun : run m cfg f (b :: bs) = run m cfg (step m cfg f b.2).1 bs := rfl
    have hsplit : ouSteps m (cfg.noiseTauS axis) (cfg.noiseSigmaM axis) (f.noise axis i)
        (ownSteps m cfg axis i f (b :: bs)) =
        ouSteps m (cfg.noiseTauS axis) (cfg.noiseSigmaM axis)
          (ouSteps m (cfg.noiseTauS axis) (cfg.noiseSigmaM axis) (f.noise axis i)
            ((places b.2.ids all i).map fun k => (dt f b.2 k, b.2.normal axis k)))
          (ownSteps m cfg axis i (step m cfg f b.2).1 bs) := List.foldl_append
    rw [hrun, ih _ hbs, hsplit]
    congr 1
    rw [step_noise]
    by_cases hi : i ∈ Set.range b.2.ids
    · obtain ⟨k, rfl⟩ := hi
      rw [put_injective hb, places_injective hb]
      rfl
    · rw [not_taken hi]
      have hnone : places b.2.ids all i = [] := by
        apply List.eq_nil_iff_forall_not_mem.2
        intro k hk
        exact hi ⟨k, (mem_places.1 hk).2⟩
      rw [hnone]
      rfl

end

/-- In any run without repeats in a batch, each noise of an asset is what is left of the noise before, and
a sum of the numbers drawn for it whose weights have the variance of one step of the same length: however
the turns were cut. -/
theorem noise_exact (dayOfYear hour : ℝ → ℝ) (cfg : FleetConfig ℝ) (axis : Axis) (i : Nat) (f : FleetState ℝ)
    (bs : Batches ℝ) (hinj : ∀ b ∈ bs, Function.Injective b.2.ids) :
    let m := realMaths dayOfYear hour
    let steps := ownSteps m cfg axis i f bs
    let tau := clampedTau (cfg.noiseTauS axis)
    let total := (steps.map Prod.fst).sum
    let ws := weights tau (steps.map Prod.fst)
    (run m cfg f bs).noise axis i =
        f.noise axis i * exp (-total / tau) + cfg.noiseSigmaM axis * weighted ws (steps.map Prod.snd) ∧
      (ws.map (· ^ 2)).sum = 1 - exp (-total / tau) ^ 2 := by
  intro m steps tau total ws
  constructor
  · rw [run_noise i f bs hinj]
    exact ouSteps_eq _ _
  · exact sum_sq_weights (clampedTau_pos _) _ (ownSteps_nonneg i f bs)

/-- The altitude's noise of one of two assets, in two turns. -/
theorem noise_exact_two :
    let m := realMaths (fun _ => 1) (fun _ => 0)
    let steps := ownSteps m .asItComes .alt 3 (.init 0 fun _ => tryPath) tryTurns
    let ws := weights (clampedTau (lit 25)) (steps.map Prod.fst)
    (run m .asItComes (.init 0 fun _ => tryPath) tryTurns).noiseAlt 3 =
        0 * exp (-(steps.map Prod.fst).sum / clampedTau (lit 25)) + lit (3 / 5) * weighted ws (steps.map Prod.snd) ∧
      (ws.map (· ^ 2)).sum = 1 - exp (-(steps.map Prod.fst).sum / clampedTau (lit 25)) ^ 2 :=
  noise_exact (fun _ => 1) (fun _ => 0) .asItComes .alt 3 (.init 0 fun _ => tryPath) tryTurns tryTurns_injective

end HtapStack.Fleet
