import Mathlib.Algebra.Order.Group.Nat
import Mathlib.Data.List.Basic
/-!
# A thinned trail

`get_drone_trail` of `CassandraClient` in `backend/app/db/cassandra_client.py`: of
the rows read, newest first, it keeps every `stride`-th, and then the first `points`
of these. Both the division that gives the stride and the cut round towards the
newest row, and whoever asks for less than two points is given two.

`covers_iff`: the trail reaches back to the oldest row read, in no more points than
were asked for, exactly if there is no more than one row for each point, or the points
divide the rows, and the points asked for were two or enough for the rows.
`oldest_lost`: of three rows read for two points the oldest is lost.
-/

namespace HtapStack.Trail

/-- `TRAIL_SCAN_ROWS`. -/
def trailScanRows : Nat := 2000

/-- `max(2, min(points, 500))`. -/
def bounded (points : Int) : Nat := (max 2 (min points 500)).toNat

/-- `rows[::stride]`: the rows at the multiples of the stride. -/
def every {α : Type} (stride : Nat) (rows : List α) : List α :=
  (List.range ((rows.length + stride - 1) / stride)).filterMap fun i => rows[i * stride]?

def strideOf (rows points : Nat) : Nat := max 1 (rows / points)

/-- What `get_drone_trail` makes of the rows it has read. -/
def thinned {α : Type} (rows : List α) (points : Int) : List α :=
  (every (strideOf rows.length (bounded points)) rows).take (bounded points)

def getDroneTrail {α : Type} (history : List α) (points : Int) : List α :=
  thinned (history.take trailScanRows) points

/-- No more rows than the points asked for, at one stride from the newest row on, to less than a stride from the oldest. -/
structure Covers {α : Type} (rows : List α) (points : Int) : Prop where
  few : ((thinned rows points).length : Int) ≤ points
  newest : (thinned rows points).head? = rows.head?
  strided : ∀ i < (thinned rows points).length,
    (thinned rows points)[i]? = rows[i * strideOf rows.length (bounded points)]?
  oldest : rows.length - 1 < ((thinned rows points).length - 1) * strideOf rows.length (bounded points) +
    strideOf rows.length (bounded points)

variable {α : Type} {rows : List α} {stride : Nat}

/-! ## Every n-th row -/

theorem map_some_filterMap {β γ : Type} {f : β → Option γ} {l : List β} (h : ∀ x ∈ l, (f x).isSome) :
    (l.filterMap f).map some = l.map f := by
  induction l with
  | nil => rfl
  | cons x l ih =>
    obtain ⟨y, hy⟩ := Option.isSome_iff_exists.1 (h x List.mem_cons_self)
    rw [List.filterMap_cons_some hy, List.map_cons, List.map_cons, hy, ih fun z hz => h z (List.mem_cons_of_mem _ hz)]

theorem mul_lt_of_lt_ceil {n i : Nat} (h : 0 < stride) (hi : i < (n + stride - 1) / stride) : i * stride < n := by
  have hle : (i + 1) * stride ≤ n + stride - 1 := (Nat.le_div_iff_mul_le h).1 hi
  rw [Nat.succ_mul] at hle
  omega

theorem map_some_every (rows : List α) (h : 0 < stride) : (every stride rows).map some =
    (List.range ((rows.length + stride - 1) / stride)).map fun i => rows[i * stride]? := by
  refine map_some_filterMap fun i hi => ?_
  rw [List.mem_range] at hi
  exact Option.isSome_iff_exists.2 ⟨_, List.getElem?_eq_getElem (mul_lt_of_lt_ceil h hi)⟩

theorem length_every (h : 0 < stride) : (every stride rows).length = (rows.length + stride - 1) / stride := by
  simpa using congrArg List.length (map_some_every rows h)

theorem getElem?_every (h : 0 < stride) {i : Nat} (hi : i < (every stride rows).length) :
    (every stride rows)[i]? = rows[i * stride]? := by
  have hmap := congrArg (·[i]?) (map_some_every rows h)
  rw [length_every h] at hi
  simp only [List.getElem?_map, List.getElem?_range hi, Option.map_some] at hmap
  obtain ⟨row, hrow, heq⟩ := Option.map_eq_some_iff.1 hmap
  exact hrow.trans heq

/-! ## The cut -/

theorem strideOf_pos (n points : Nat) : 0 < strideOf n points := Nat.lt_of_lt_of_le Nat.zero_lt_one (le_max_left _ _)

theorem bounded_pos (points : Int) : 0 < bounded points := by
  unfold bounded
  omega

theorem length_thinned (rows : List α) (points : Int) : (thinned rows points).length =
    min (bounded points) ((rows.length + strideOf rows.length (bounded points) - 1) /
      strideOf rows.length (bounded points)) := by
  rw [thinned, List.length_take, length_every (strideOf_pos _ _)]

theorem getElem?_thinned {points : Int} {i : Nat} (hi : i < (thinned rows points).length) :
    (thinned rows points)[i]? = rows[i * strideOf rows.length (bounded points)]? := by
  rw [thinned, List.length_take] at hi
  rw [thinned, List.getElem?_take_of_lt (hi.trans_le (min_le_left _ _)),
    getElem?_every (strideOf_pos _ _) (hi.trans_le (min_le_right _ _))]

theorem le_ceil_mul (n : Nat) (h : 0 < stride) : n ≤ (n + stride - 1) / stride * stride := by
  have hdiv := Nat.div_add_mod (n + stride - 1) stride
  have hmod := Nat.mod_lt (n + stride - 1) h
  rw [Nat.mul_comm] at hdiv
  omega

theorem thinned_pos (h : rows ≠ []) (points : Int) : 0 < (thinned rows points).length := by
  have hrows := List.length_pos_of_ne_nil h
  have hs := strideOf_pos rows.length (bounded points)
  rw [length_thinned]
  exact lt_min (bounded_pos points) (Nat.div_pos (by omega) hs)

@[simp] theorem thinned_nil (points : Int) : thinned ([] : List α) points = [] := by simp [thinned, every]

theorem head?_thinned (rows : List α) (points : Int) : (thinned rows points).head? = rows.head? := by
  cases rows with
  | nil => rw [thinned_nil]
  | cons row rows =>
    rw [List.head?_eq_getElem?, List.head?_eq_getElem?, getElem?_thinned (thinned_pos (List.cons_ne_nil _ _) points),
      Nat.zero_mul]

/-- The cut comes after the last row exactly if the stride was not rounded. -/
theorem le_mul_strideOf (n : Nat) {p : Nat} (hp : 0 < p) : n ≤ p * strideOf n p ↔ n ≤ p ∨ p ∣ n := by
  unfold strideOf
  rcases Nat.lt_or_ge n p with h | h
  · rw [Nat.div_eq_of_lt h, max_eq_left (Nat.zero_le 1), Nat.mul_one]
    exact ⟨.inl, fun _ => h.le⟩
  · rw [max_eq_right (Nat.div_pos h hp)]
    constructor
    · intro hle
      exact .inr ⟨n / p, hle.antisymm (Nat.mul_div_le n p)⟩
    · rintro (hle | hdvd)
      · rw [hle.antisymm h, Nat.div_self hp, Nat.mul_one]
      · exact (Nat.mul_div_cancel' hdvd).ge

/-- The cut keeps to the points asked for, unless it was for less than two that the rows exceed. -/
theorem length_thinned_le_iff (rows : List α) (points : Int) :
    ((thinned rows points).length : Int) ≤ points ↔ 2 ≤ points ∨ (rows.length : Int) ≤ points := by
  have hlength := length_thinned rows points
  rcases le_or_gt 2 points with h | h
  · refine iff_of_true ?_ (.inl h)
    have hcut : (thinned rows points).length ≤ bounded points := hlength ▸ min_le_left _ _
    unfold bounded at hcut
    omega
  · have htwo : bounded points = 2 := by
      unfold bounded
      omega
    rw [htwo] at hlength
    -- No row or one row is kept whole, and of more rows two are kept.
    rcases Nat.lt_or_ge rows.length 2 with hfew | hmany
    · have hone : strideOf rows.length 2 = 1 := by
        rw [strideOf, Nat.div_eq_of_lt hfew, max_eq_left (Nat.zero_le 1)]
      rw [hone, Nat.div_one] at hlength
      omega
    · have hceil := le_ceil_mul rows.length (strideOf_pos rows.length 2)
      have hhalf : strideOf rows.length 2 = rows.length / 2 := max_eq_right (Nat.div_pos hmany Nat.two_pos)
      have hall : 2 ≤ (rows.length + strideOf rows.length 2 - 1) / strideOf rows.length 2 := by
        rw [Nat.le_div_iff_mul_le (strideOf_pos _ _), hhalf]
        omega
      rw [min_eq_left hall] at hlength
      omega

/-- It reaches the last row exactly if there is a point for each row, or the points divide them. -/
theorem reaches_iff (rows : List α) (points : Int) :
    rows.length - 1 < ((thinned rows points).length - 1) * strideOf rows.length (bounded points) +
        strideOf rows.length (bounded points) ↔
      rows.length ≤ bounded points ∨ bounded points ∣ rows.length := by
  have hs := strideOf_pos rows.length (bounded points)
  have hlength := length_thinned rows points
  rw [← le_mul_strideOf _ (bounded_pos points)]
  rcases eq_or_ne rows [] with rfl | hne
  · exact iff_of_true (Nat.lt_of_lt_of_le hs (Nat.le_add_left _ _)) (Nat.zero_le _)
  have hlast : (thinned rows points).length * strideOf rows.length (bounded points) =
      ((thinned rows points).length - 1) * strideOf rows.length (bounded points) +
        strideOf rows.length (bounded points) := by
    rw [← Nat.succ_mul, Nat.succ_eq_add_one, Nat.sub_add_cancel (thinned_pos hne points)]
  have hrows := List.length_pos_of_ne_nil hne
  rw [← hlast]
  constructor
  · intro holdest
    calc rows.length ≤ (thinned rows points).length * strideOf rows.length (bounded points) := by omega
      _ ≤ bounded points * strideOf rows.length (bounded points) :=
        Nat.mul_le_mul_right _ (hlength ▸ min_le_left _ _)
  · intro hle
    rw [hlength]
    have hceil := le_ceil_mul rows.length hs
    rcases min_choice (bounded points) ((rows.length + strideOf rows.length (bounded points) - 1) /
      strideOf rows.length (bounded points)) with h | h
    · rw [h]
      omega
    · rw [h]
      omega

/-- The trail of any rows covers them exactly if there is a point for each row or the points divide them,
and the points asked for are two at least, or enough for the rows. -/
theorem covers_iff (rows : List α) (points : Int) :
    Covers rows points ↔ (rows.length ≤ bounded points ∨ bounded points ∣ rows.length) ∧
      (2 ≤ points ∨ (rows.length : Int) ≤ points) := by
  rw [← reaches_iff, ← length_thinned_le_iff]
  constructor
  · intro hcovers
    exact ⟨hcovers.oldest, hcovers.few⟩
  · rintro ⟨holdest, hfew⟩
    exact ⟨hfew, head?_thinned rows points, fun i => getElem?_thinned, holdest⟩

/-- A trail is asked for of what the scan reads. -/
example : getDroneTrail (List.range 7) 3 = [0, 2, 4] := by decide

/-- Two points of three rows are the newest two. -/
theorem oldest_lost : ¬ ∀ (rows : List Nat) (points : Int), Covers rows points := by
  intro h
  exact absurd (h [0, 1, 2] 2).oldest (by decide)

end HtapStack.Trail
