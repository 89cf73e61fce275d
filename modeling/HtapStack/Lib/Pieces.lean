import HtapStack.Lib.PyStr
/-!
# Texts in pieces

`str.find` and `str.rfind` on a text whose parts are known (`find_first`,
`rfind_last`), and likewise `str.split()` (`runs_append`) and `str.strip()`
(`strip_append`).
-/

namespace HtapStack.Py

/-! ## Two in a row -/

section
variable {a b s : List Char} {c d : Char}

theorem twice_append (hd : d ≠ c) (h : [c, c] <:+: a ++ d :: b) : [c, c] <:+: a ∨ [c, c] <:+: b := by
  induction a with
  | nil =>
    rcases List.infix_cons_iff.1 h with h | h
    · exact absurd (List.cons_prefix_cons.1 h).1.symm hd
    · exact .inr h
  | cons e a ih =>
    rcases List.infix_cons_iff.1 h with h | h
    · obtain ⟨hce, hnext⟩ := List.cons_prefix_cons.1 h
      cases a with
      | nil => exact absurd (List.cons_prefix_cons.1 hnext).1.symm hd
      | cons f a =>
        have hcf := (List.cons_prefix_cons.1 hnext).1
        exact .inl ⟨[], a, by rw [← hce, ← hcf]; rfl⟩
    · exact (ih h).imp_left fun h => List.infix_cons_iff.2 (.inr h)

theorem not_twice (h : s.count c ≤ 1) : ¬ [c, c] <:+: s := by
  intro hin
  have := hin.sublist.count_le c
  simp at this
  omega

theorem not_twice_join {ts : List (List Char)} (hd : d ≠ c) (h : ∀ t ∈ ts, ¬ [c, c] <:+: t) :
    ¬ [c, c] <:+: [d].intercalate ts := by
  induction ts with
  | nil => simp
  | cons t ts ih =>
    obtain ⟨ht, hts⟩ := List.forall_mem_cons.1 h
    cases ts with
    | nil => simpa using ht
    | cons u ts =>
      rw [List.intercalate_cons_cons, List.append_assoc, List.singleton_append]
      exact fun hin => (twice_append hd hin).elim ht (ih hts)

end

/-! ## Finding -/

/-- `s.find(sub)`, which is −1 when there is none. -/
def find (sub : List Char) : List Char → Option Nat
  | [] => if sub.isEmpty then some 0 else none
  | c :: s => if sub.isPrefixOf (c :: s) then some 0 else (find sub s).map (· + 1)

/-- `s.rfind(sub)`. -/
def rfind (sub : List Char) : List Char → Option Nat
  | [] => if sub.isEmpty then some 0 else none
  | c :: s =>
    match rfind sub s with
    | some n => some (n + 1)
    | none => if sub.isPrefixOf (c :: s) then some 0 else none

section
variable {sub s t : List Char}

theorem find_eq_none (h : sub ≠ []) : find sub s = none ↔ ¬ sub <:+: s := by
  induction s with
  | nil => simp [find, h]
  | cons c s ih =>
    rw [find, List.infix_cons_iff, not_or, ← ih, ← List.isPrefixOf_iff_prefix]
    cases sub.isPrefixOf (c :: s) <;> simp

theorem rfind_eq_none (h : sub ≠ []) : rfind sub s = none ↔ ¬ sub <:+: s := by
  induction s with
  | nil => simp [rfind, h]
  | cons c s ih =>
    rw [rfind, List.infix_cons_iff, not_or, ← ih, ← List.isPrefixOf_iff_prefix]
    cases rfind sub s with
    | some n => simp
    | none => simp

/-- The first place where something begins is where its first character is first seen. -/
theorem find_first (sub t : List Char) {c : Char} (h : c ∉ s) : find (c :: sub) (s ++ (c :: sub ++ t)) = some s.length := by
  induction s with
  | nil => simp [find]
  | cons d s ih =>
    obtain ⟨hd, hs⟩ := not_or.1 (List.mem_cons.not.1 h)
    have hne : (c == d) = false := beq_false_of_ne hd
    rw [List.cons_append, find, List.isPrefixOf_cons_cons, hne, ih hs]
    simp

theorem rfind_append {n : Nat} (h : rfind sub t = some n) : rfind sub (s ++ t) = some (s.length + n) := by
  induction s with
  | nil => simpa using h
  | cons d s ih =>
    rw [List.cons_append, rfind, ih, List.length_cons]
    simp only [Option.some.injEq]
    omega

theorem rfind_spec {n : Nat} (h : rfind sub s = some n) : sub <+: s.drop n := by
  induction s generalizing n with
  | nil =>
    rw [rfind] at h
    split at h
    · rename_i he
      simp [List.isEmpty_iff.1 he]
    · cases h
  | cons c s ih =>
    rw [rfind] at h
    split at h
    · cases h
      exact ih ‹_›
    · split at h
      · cases h
        exact List.isPrefixOf_iff_prefix.1 ‹_›
      · cases h

/-- Two of a character in a row are last where the text after them has none. -/
theorem rfind_last {c : Char} (h : c ∉ t) : rfind [c, c] (s ++ c :: c :: t) = some s.length := by
  have htwo : rfind [c, c] (c :: t) = none := by
    rw [rfind_eq_none (by simp)]
    exact not_twice (by simp [List.count_eq_zero_of_not_mem h])
  have hhere : rfind [c, c] (c :: c :: t) = some 0 := by
    rw [rfind, htwo]
    simp
  rw [rfind_append hhere, Nat.add_zero]

end

/-! ## Runs -/

section
variable {p : Char → Bool} {a b : List Char} {c : Char}

theorem runs_cons_neg (h : p c = false) : runs p (c :: b) = runs p b := by
  cases b <;> simp [runs, h]

/-- A character of a run begins a run, or goes on to the next one's beginning. -/
theorem runs_cons_pos (h : p c = true) : ∃ r rs, runs p (c :: b) = (c :: r) :: rs ∧
    (r = [] ∨ r ∈ runs p b) ∧ ∀ w ∈ rs, w ∈ runs p b := by
  cases b with
  | nil => exact ⟨[], [], by simp [runs, h], .inl rfl, by simp⟩
  | cons d b =>
    rw [runs, if_pos h]
    split
    · split
      · rename_i r rs hr
        rw [hr]
        exact ⟨r, rs, rfl, .inr List.mem_cons_self, fun w => List.mem_cons_of_mem r⟩
      · exact ⟨[], [], rfl, .inl rfl, by simp⟩
    · exact ⟨[], _, rfl, .inl rfl, fun w hw => hw⟩

theorem runs_append (h : p c = false) : runs p (a ++ c :: b) = runs p a ++ runs p b := by
  induction a with
  | nil => exact runs_cons_neg h
  | cons d a ih =>
    cases a with
    | nil => cases hd : p d <;> simp [runs, hd, h, runs_cons_neg h]
    | cons e a =>
      cases hd : p d
      · simpa [runs, hd] using ih
      · cases he : p e
        · simpa [runs, hd, he] using ih
        · rw [List.cons_append, List.cons_append, runs, if_pos hd, if_pos he, ← List.cons_append, ih, runs,
            if_pos hd, if_pos he]
          obtain ⟨r, rs, hr, -⟩ := runs_cons_pos (b := a) he
          rw [hr]
          rfl

theorem runs_pos (h : ∀ c ∈ a, p c = true) (ha : a ≠ []) : runs p a = [a] := by
  induction a with
  | nil => exact absurd rfl ha
  | cons c a ih =>
    obtain ⟨hc, ha⟩ := List.forall_mem_cons.1 h
    cases a with
    | nil => simp [runs, hc]
    | cons d a => simp [runs, hc, ha d, ih ha]

theorem mem_runs {w : List Char} (hw : w ∈ runs p a) : w ≠ [] ∧ ∀ c ∈ w, c ∈ a ∧ p c = true := by
  induction a generalizing w with
  | nil => cases hw
  | cons d a ih =>
    have hlater {v : List Char} (hv : v ∈ runs p a) : v ≠ [] ∧ ∀ c ∈ v, c ∈ d :: a ∧ p c = true :=
      (ih hv).imp_right fun h c hc => (h c hc).imp_left (List.mem_cons_of_mem d)
    cases hd : p d with
    | false => exact hlater (by rwa [runs_cons_neg hd] at hw)
    | true =>
      obtain ⟨r, rs, hr, hfirst, hrs⟩ := runs_cons_pos (b := a) hd
      rw [hr] at hw
      rcases List.mem_cons.1 hw with rfl | hw
      · refine ⟨List.cons_ne_nil d r, List.forall_mem_cons.2 ⟨⟨List.mem_cons_self, hd⟩, ?_⟩⟩
        rcases hfirst with rfl | hfirst
        · simp
        · exact (hlater hfirst).2
      · exact hlater (hrs w hw)

/-- The runs are all that satisfies `p`. -/
theorem flatten_runs (a : List Char) : (runs p a).flatten = a.filter p := by
  induction a with
  | nil => rfl
  | cons c a ih =>
    cases hc : p c with
    | false => rw [runs_cons_neg hc, ih, List.filter_cons_of_neg (by simp [hc])]
    | true =>
      rw [List.filter_cons_of_pos hc, ← ih]
      cases a with
      | nil => simp [runs, hc]
      | cons d a =>
        rw [runs, if_pos hc]
        split
        · rename_i hd
          obtain ⟨r, rs, hr, -⟩ := runs_cons_pos (b := a) hd
          rw [hr]
          rfl
        · rfl

/-- What the separator does not count is counted in the pieces. -/
theorem countP_join {sep : List Char} (ws : List (List Char)) (h : sep.countP p = 0) :
    (join sep ws).countP p = ws.flatten.countP p := by
  induction ws with
  | nil => rfl
  | cons w ws ih =>
    cases ws with
    | nil => simp [join, List.intercalate]
    | cons v ws =>
      have hjoin : join sep (w :: v :: ws) = w ++ (sep ++ join sep (v :: ws)) := by
        simp [join, List.intercalate]
      rw [hjoin, List.countP_append, List.countP_append, h, Nat.zero_add, ih, ← List.countP_append]
      rfl

/-! ## Words -/

theorem split_spaces {a : List Char} (ha : ∀ c ∈ a, isSpace c = true) (s : List Char) : split (a ++ s) = split s := by
  induction a with
  | nil => rfl
  | cons c a ih =>
    obtain ⟨hc, ha⟩ := List.forall_mem_cons.1 ha
    rw [List.cons_append, split, runs_cons_neg (by rw [hc]; rfl)]
    exact ih ha

/-- The first word of a text, and what follows it. -/
theorem split_word {w : List Char} (hw : ∀ c ∈ w, isSpace c = false) (hne : w ≠ []) {s : List Char}
    (hs : s.head?.all isSpace = true) : split (w ++ s) = w :: split s := by
  have hpos : ∀ c ∈ w, (!isSpace c) = true := fun c hc => by rw [hw c hc]; rfl
  cases s with
  | nil => simp [split, runs_pos hpos hne, runs]
  | cons c s =>
    have hc : (!isSpace c) = false := by
      have : isSpace c = true := by simpa using hs
      rw [this]
      rfl
    rw [split, runs_append hc, runs_pos hpos hne, split, runs_cons_neg hc]
    rfl

theorem mem_of_mem_split {s w : List Char} (hw : w ∈ split s) : w ≠ [] ∧ ∀ c ∈ w, c ∈ s ∧ isSpace c = false := by
  simpa using mem_runs hw

theorem split_append_spaces (s : List Char) {b : List Char} (hb : ∀ c ∈ b, isSpace c = true) :
    split (s ++ b) = split s := by
  have hnil : split b = [] := by
    rw [← List.append_nil b, split_spaces hb]
    rfl
  cases b with
  | nil => rw [List.append_nil]
  | cons c b =>
    have hc : (!isSpace c) = false := by
      rw [hb c List.mem_cons_self]
      rfl
    rw [split, runs_cons_neg hc] at hnil
    rw [split, runs_append hc, hnil, List.append_nil, split]

theorem split_strip (s : List Char) : split (strip s) = split s := by
  obtain ⟨a, b, hs, ha, hb⟩ := strip_spec s
  conv_rhs => rw [hs, split_spaces ha, split_append_spaces _ hb]

theorem split_strip_eq_nil {s : List Char} (h : split s = []) : strip s = [] := by
  rw [← split_strip] at h
  cases hs : strip s with
  | nil => rfl
  | cons c t =>
    have hc : isSpace c = false := by
      have := (trimmed_strip s).1
      simpa [hs] using this
    obtain ⟨r, rs, hr, -⟩ := runs_cons_pos (p := (!isSpace ·)) (c := c) (b := t) (by simp [hc])
    rw [hs, split, hr] at h
    cases h

end

/-! ## Stripping -/

theorem strip_append {a s b : List Char} (ha : ∀ c ∈ a, isSpace c = true) (hb : ∀ c ∈ b, isSpace c = true)
    (hs : Trimmed s) (hne : s ≠ []) : strip (a ++ (s ++ b)) = s := by
  obtain ⟨hh, hl⟩ := hs
  have hd : (a ++ (s ++ b)).dropWhile isSpace = s ++ b := by
    rw [List.dropWhile_append_of_pos ha]
    cases s with
    | nil => exact absurd rfl hne
    | cons c s => exact List.dropWhile_cons_of_neg (by simpa using hh)
  have hr : (s ++ b).rdropWhile isSpace = s.rdropWhile isSpace := by
    rw [List.rdropWhile, List.rdropWhile, List.reverse_append,
      List.dropWhile_append_of_pos fun c hc => hb c (List.mem_reverse.1 hc)]
  rw [strip, hd, hr, List.rdropWhile_eq_self_iff]
  intro h
  rw [List.getLast?_eq_some_getLast h] at hl
  simpa using hl

end HtapStack.Py
