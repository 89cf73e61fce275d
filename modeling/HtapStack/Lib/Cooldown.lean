import Mathlib.Algebra.Order.Group.Defs
import Mathlib.Logic.Function.Basic
/-!
# Cooldowns

Requests come in time order, each with a key. One is granted if none with its key
was granted less than `wait` before.

- `grant_apart`, `grant_covers`: no two that are granted for a key are closer than
  `wait`, and every request has one that close before it.
- `grant_filter`: each key is by itself.
-/

namespace HtapStack.Cooldown

variable {κ R T : Type} [DecidableEq κ] [AddCommGroup T] [LinearOrder T]

/-- Long enough after the last one granted, if any. -/
def elapsed (wait : T) (last : Option T) (now : T) : Bool := last.all fun t => !decide (now - t < wait)

/-- The requests that are granted, after the last ones granted for each key. -/
def grant (wait : T) (key : R → κ) (time : R → T) (last : κ → Option T) : List R → List R
  | [] => []
  | r :: rs =>
    if elapsed wait (last (key r)) (time r) then
      r :: grant wait key time (Function.update last (key r) (some (time r))) rs
    else grant wait key time last rs

variable {wait : T} {key : R → κ} {time : R → T}

theorem grant_sublist (last : κ → Option T) (rs : List R) : (grant wait key time last rs).Sublist rs := by
  induction rs generalizing last with
  | nil => exact .slnil
  | cons r rs ih =>
    rw [grant]
    split
    · exact (ih _).cons_cons r
    · exact (ih _).cons r

section
variable [IsOrderedAddMonoid T]

/-- What is granted is long enough after the last one granted before. -/
theorem grant_after {last : κ → Option T} {rs : List R} {k : κ} {t : T} (hlast : last k = some t)
    (ht : ∀ r ∈ rs, t ≤ time r) (hrs : rs.Pairwise (time · ≤ time ·)) :
    ∀ a ∈ grant wait key time last rs, key a = k → wait ≤ time a - t := by
  induction rs generalizing last t with
  | nil => exact fun a ha => absurd ha List.not_mem_nil
  | cons r rs ih =>
    obtain ⟨hr, hrs'⟩ := List.pairwise_cons.1 hrs
    obtain ⟨htr, ht'⟩ := List.forall_mem_cons.1 ht
    intro a ha hk
    rw [grant] at ha
    split at ha
    · rename_i hel
      by_cases hkr : key r = k
      · have hwait : wait ≤ time r - t := by simpa [elapsed, hkr, hlast] using hel
        rcases List.mem_cons.1 ha with rfl | ha
        · exact hwait
        · -- It is after `r`, which is no earlier.
          have hra := hr a ((grant_sublist _ _).subset ha)
          exact hwait.trans (sub_le_sub_right hra t)
      · rcases List.mem_cons.1 ha with rfl | ha
        · exact absurd hk hkr
        · exact ih ((Function.update_of_ne (Ne.symm hkr) _ _).trans hlast) ht' hrs' a ha hk
    · exact ih hlast ht' hrs' a ha hk

theorem grant_apart (last : κ → Option T) {rs : List R} (hrs : rs.Pairwise (time · ≤ time ·)) :
    (grant wait key time last rs).Pairwise fun a b => key a = key b → wait ≤ time b - time a := by
  induction rs generalizing last with
  | nil => exact .nil
  | cons r rs ih =>
    obtain ⟨hr, hrs'⟩ := List.pairwise_cons.1 hrs
    rw [grant]
    split
    · exact .cons (fun b hb hk => grant_after (Function.update_self ..) hr hrs' b hb hk.symm) (ih _ hrs')
    · exact ih _ hrs'

end

/-- Every request is granted, or comes less than `wait` after one that was. -/
theorem grant_covers (hwait : 0 < wait) (last : κ → Option T) {rs : List R}
    (hrs : rs.Pairwise (time · ≤ time ·)) :
    ∀ r ∈ rs, (∃ t, last (key r) = some t ∧ time r - t < wait) ∨
      ∃ a ∈ grant wait key time last rs, key a = key r ∧ time a ≤ time r ∧ time r - time a < wait := by
  induction rs generalizing last with
  | nil => exact fun r hr => absurd hr List.not_mem_nil
  | cons s rs ih =>
    obtain ⟨hs, hrs'⟩ := List.pairwise_cons.1 hrs
    intro r hr
    by_cases hel : elapsed wait (last (key s)) (time s) = true
    · rw [grant, if_pos hel]
      rcases List.mem_cons.1 hr with rfl | hr
      · exact .inr ⟨r, List.mem_cons_self, rfl, le_rfl, by rwa [sub_self]⟩
      · rcases ih (Function.update last (key s) (some (time s))) hrs' r hr with ⟨t, ht, hlt⟩ | ⟨a, ha, hka⟩
        · by_cases hk : key r = key s
          · rw [hk, Function.update_self, Option.some.injEq] at ht
            exact .inr ⟨s, List.mem_cons_self, hk.symm, hs r hr, ht ▸ hlt⟩
          · rw [Function.update_of_ne hk] at ht
            exact .inl ⟨t, ht, hlt⟩
        · exact .inr ⟨a, List.mem_cons_of_mem _ ha, hka⟩
    · rw [grant, if_neg hel]
      rcases List.mem_cons.1 hr with rfl | hr
      · refine .inl ?_
        cases hl : last (key r) with
        | none => simp [elapsed, hl] at hel
        | some t => exact ⟨t, rfl, by simpa [elapsed, hl] using hel⟩
      · exact ih _ hrs' r hr

theorem grant_filter {last last' : κ → Option T} {k : κ} (hlast : last k = last' k) (rs : List R) :
    (grant wait key time last rs).filter (decide <| key · = k) =
      grant wait key time last' (rs.filter (decide <| key · = k)) := by
  induction rs generalizing last last' with
  | nil => rfl
  | cons r rs ih =>
    by_cases hk : key r = k
    · subst hk
      rw [List.filter_cons_of_pos (by simp), grant, grant, ← hlast]
      split
      · rw [List.filter_cons_of_pos (by simp)]
        refine congrArg (List.cons r) (ih ?_)
        rw [Function.update_self, Function.update_self]
      · exact ih hlast
    · rw [List.filter_cons_of_neg (by simpa using hk), grant]
      split
      · rw [List.filter_cons_of_neg (by simpa using hk)]
        exact ih ((Function.update_of_ne (Ne.symm hk) _ _).trans hlast)
      · exact ih hlast

end HtapStack.Cooldown
