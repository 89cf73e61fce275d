import HtapStack.Zones.Distance
import Mathlib.Data.List.MinMax
import Mathlib.Order.Bounds.Basic
/-!
# Which zone is reported

`check_proximity` reports the first zone of the highest risk
(`checkProximity_exact`). The risk falls off with the distance from 1, but is 0.95
inside. So from inside a zone another one that is less than 25 m away outranks it,
and the risk is higher just outside a zone than inside (`ranks_iff`).
-/

namespace HtapStack.Ranking
open Py
open Agreement (risk)
open Proximity (Zone Score checkProximity distanceToPolygonM)

/-- The zone's distance, which `distanceToPolygonM` finds for every ring of three
vertices or more. -/
def distance {K : Type} [Zero K] (A : Arith K) (lat lon : K) (zone : Zone K) : K :=
  match distanceToPolygonM A lat lon zone.ring with
  | .ok (some d) => d
  | _ => 0

/-- The distances of the zones that are near. -/
def inRange {K : Type} [Field K] [LinearOrder K] (dist : Zone K → K) (zones : List (Zone K)) : Set K :=
  {d | d < (500 : ℕ) ∧ ∃ zone ∈ zones, dist zone = d}

section
variable {K : Type} [Field K] [LinearOrder K] [IsStrictOrderedRing K]
  {hypot : K → K → K} {cos radians : K → K} {lat lon : K}

variable (cos radians lat lon) in
omit [IsStrictOrderedRing K] in
theorem distance_spec (hnonneg : ∀ x y, 0 ≤ hypot x y) {zone : Zone K} (hring : 3 ≤ zone.ring.length) :
    distanceToPolygonM (exact hypot cos radians) lat lon zone.ring =
        .ok (some (distance (exact hypot cos radians) lat lon zone)) ∧
      0 ≤ distance (exact hypot cos radians) lat lon zone := by
  obtain ⟨d, hd, hinside, houtside⟩ := Agreement.distance_exact hypot cos radians lat lon hring
  have hdist : distance (exact hypot cos radians) lat lon zone = d := by
    rw [distance, hd]
  rw [hdist]
  refine ⟨hd, ?_⟩
  cases hcast : Agreement.rayCast lat lon zone.ring with
  | true => exact (hinside hcast).ge
  | false =>
    obtain ⟨-, edge, -, hat⟩ := houtside hcast
    exact hat ▸ Agreement.edgeDistance_nonneg lat lon hnonneg _ edge

/-! ## The risk of a distance -/

theorem risk_zero : risk (0 : K) = 0.95 := by
  norm_num [risk]

omit [IsStrictOrderedRing K] in
theorem risk_pos {d : K} (h : d ≠ 0) : risk d = 1 - d / 500 := if_neg h

theorem risk_gt_zero {d : K} (hd : d < 500) : 0 < risk d := by
  by_cases h : d = 0
  · rw [h, risk_zero]
    norm_num
  · rw [risk_pos h]
    linarith

/-- From 25 m on the risk is no higher than inside, and before it is. -/
theorem risk_le_inside_iff {d : K} (h0 : 0 ≤ d) : risk d ≤ 0.95 ↔ ¬(0 < d ∧ d < 25) := by
  rcases h0.eq_or_lt with rfl | hpos
  · simp [risk_zero]
  · rw [risk_pos hpos.ne']
    constructor
    · rintro h ⟨-, h25⟩
      linarith
    · intro h
      have h25 : 25 ≤ d := not_lt.1 fun h25 => h ⟨hpos, h25⟩
      linarith

theorem risk_eq_inside_iff {d : K} (h0 : 0 ≤ d) : risk d = 0.95 ↔ d = 0 ∨ d = 25 := by
  rcases h0.eq_or_lt with rfl | hpos
  · simp [risk_zero]
  · rw [risk_pos hpos.ne', or_iff_right hpos.ne']
    constructor <;> intro h <;> linarith

theorem risk_le_iff {d d' : K} (h : 0 < d) (h' : 0 < d') : risk d' ≤ risk d ↔ d ≤ d' := by
  rw [risk_pos h.ne', risk_pos h'.ne']
  constructor <;> intro h <;> linarith

end

/-! ## The first zone of the highest risk -/

theorem argmax_split {α β : Type} [LinearOrder β] {f : α → β} {l : List α} {z : α} (h : z ∈ l.argmax f) :
    ∃ l₁ l₂, l = l₁ ++ z :: l₂ ∧ ∀ a ∈ l₁, f a < f z := by
  induction l using List.reverseRecOn with
  | nil => simp at h
  | append_singleton l a ih =>
    rw [List.argmax_concat] at h
    cases hl : l.argmax f with
    | none =>
      rw [hl, Option.mem_some_iff] at h
      exact ⟨[], [], by rw [List.argmax_eq_none.1 hl, h, List.nil_append], by simp⟩
    | some c =>
      simp only [hl] at h
      by_cases hc : f c < f a
      · rw [if_pos hc, Option.mem_some_iff] at h
        subst h
        exact ⟨l, [], rfl, fun b hb => (List.le_of_mem_argmax hb hl).trans_lt hc⟩
      · rw [if_neg hc, Option.mem_some_iff] at h
        subst h
        obtain ⟨l₁, l₂, heq, hlt⟩ := ih hl
        exact ⟨l₁, l₂ ++ [a], by rw [heq, List.append_assoc, List.cons_append], hlt⟩

section
variable {K : Type} [Field K] [LinearOrder K] [IsStrictOrderedRing K]
  {hypot : K → K → K} {cos radians : K → K} {lat lon : K} {zones : List (Zone K)} {dist : Zone K → K}

/-- The first of the nearby zones of the highest risk. -/
def riskiest (dist : Zone K → K) (zones : List (Zone K)) : Option (Zone K) :=
  (zones.filter (decide <| dist · < (500 : ℕ))).argmax (risk ∘ dist)

omit [IsStrictOrderedRing K] in
theorem riskiest_eq : riskiest dist zones = (zones.filter (decide <| dist · < 500)).argmax (risk ∘ dist) := by
  rw [riskiest, Nat.cast_ofNat]

theorem checkProximity_exact
    (hdist : ∀ zone ∈ zones,
      distanceToPolygonM (exact hypot cos radians) lat lon zone.ring = .ok (some (dist zone))) :
    ∃ p, checkProximity (exact hypot cos radians) zones lat lon = .ok p ∧
      p.riskScore = (riskiest dist zones).elim 0 (risk ∘ dist) ∧
      p.nearestZoneId = (riskiest dist zones).map (·.zoneId) := by
  induction zones using List.reverseRecOn with
  | nil => exact ⟨_, rfl, by simp [riskiest], by simp [riskiest]⟩
  | append_singleton zones zone ih =>
    obtain ⟨p, hp, hrisk, hid⟩ := ih fun z hz => hdist z (List.mem_append_left _ hz)
    have hzone := Agreement.zoneRisk_exact (hdist zone (by simp))
    have hstep : checkProximity (exact hypot cos radians) (zones ++ [zone]) lat lon =
        Proximity.addZone (exact hypot cos radians) lat lon p zone := by
      unfold checkProximity at hp ⊢
      rw [List.foldlM_append, hp]
      exact bind_pure (m := Except Exn) _
    rw [hstep, Proximity.addZone, hzone]
    by_cases hnear : dist zone < 500
    · have hpos := risk_gt_zero hnear
      rw [if_pos hnear]
      refine ⟨_, rfl, ?_⟩
      simp only [exact_lt, decide_eq_true_eq, riskiest_eq, List.filter_append, List.filter_singleton, hnear,
        decide_true, cond_true, List.argmax_concat] at hrisk hid ⊢
      cases hbest : (zones.filter (decide <| dist · < 500)).argmax (risk ∘ dist) with
      | none =>
        simp only [hbest, Option.elim_none] at hrisk
        simp [hrisk, hpos]
      | some best =>
        simp only [hbest, Option.elim_some, Option.map_some, Function.comp_apply] at hrisk hid ⊢
        rw [hrisk, hid]
        split <;> exact ⟨rfl, rfl⟩
    · rw [if_neg hnear]
      refine ⟨p, rfl, ?_⟩
      simpa [riskiest_eq, List.filter_append, hnear] using ⟨hrisk, hid⟩

variable (dist zones) in
omit [IsStrictOrderedRing K] in
/-- What is reported is none, or a zone that is near and of no lower risk than any
other, and before it are only zones of a lower risk. -/
theorem riskiest_spec :
    riskiest dist zones = none ∧ (∀ zone ∈ zones, ¬ dist zone < 500) ∨
    ∃ z, riskiest dist zones = some z ∧ z ∈ zones ∧ dist z < 500 ∧
      (∀ zone ∈ zones, dist zone < 500 → risk (dist zone) ≤ risk (dist z)) ∧
      ∃ l₁ l₂, zones.filter (decide <| dist · < 500) = l₁ ++ z :: l₂ ∧ ∀ a ∈ l₁, risk (dist a) < risk (dist z) := by
  cases h : riskiest dist zones with
  | none => exact .inl ⟨rfl, by simpa using List.argmax_eq_none.1 h⟩
  | some z =>
    have hmem := List.mem_filter.1 (List.argmax_mem h)
    refine .inr ⟨z, rfl, hmem.1, by simpa using hmem.2, fun zone hz hnear => ?_, argmax_split h⟩
    exact List.le_of_mem_argmax (f := risk ∘ dist) (List.mem_filter.2 ⟨hz, by simpa using hnear⟩) h

/-! ## When the nearest zone is the riskiest -/

/-- The zone that is reported is the nearest. -/
def NamesNearest (dist : Zone K → K) (zones : List (Zone K)) (reported : Option String) : Prop :=
  ∀ m, IsLeast (inRange dist zones) m → ∃ zone ∈ zones, reported = some zone.zoneId ∧ dist zone = m

/-- If the position is inside a zone, then none is less than 25 m away without
containing it, nor is one at exactly 25 m before the first that contains it. -/
def NoneOutranks (dist : Zone K → K) (zones : List (Zone K)) : Prop :=
  (∃ zone ∈ zones, dist zone = 0) → (∀ zone ∈ zones, ¬(0 < dist zone ∧ dist zone < 25)) ∧
    ∃ zone, zones.find? (fun zone => decide (dist zone = 0 ∨ dist zone = 25)) = some zone ∧ dist zone = 0

theorem find_filter_near (zones : List (Zone K)) :
    (zones.filter (decide <| dist · < 500)).find? (fun zone => decide (dist zone = 0 ∨ dist zone = 25)) =
      zones.find? fun zone => decide (dist zone = 0 ∨ dist zone = 25) := by
  rw [List.find?_filter]
  congr 1
  funext zone
  simp only [decide_eq_true_eq]
  refine decide_eq_decide.2 (and_iff_right_of_imp ?_)
  rintro (h | h) <;> rw [h] <;> norm_num

theorem isLeast_zero (h0 : ∀ zone ∈ zones, 0 ≤ dist zone) {zone : Zone K} (hmem : zone ∈ zones)
    (hzone : dist zone = 0) : IsLeast (inRange dist zones) 0 := by
  refine ⟨⟨by norm_num, zone, hmem, hzone⟩, ?_⟩
  rintro _ ⟨-, z, hz, rfl⟩
  exact h0 z hz

theorem namesNearest_iff (h0 : ∀ zone ∈ zones, 0 ≤ dist zone) (hkey : (zones.map (·.zoneId)).Nodup) :
    NamesNearest dist zones ((riskiest dist zones).map (·.zoneId)) ↔ NoneOutranks dist zones := by
  rcases riskiest_spec zones dist with ⟨hnone, hfar⟩ | ⟨z, hz, hmem, hnear, hmax, l₁, l₂, hsplit, hlt⟩
  · -- Nothing is near.
    constructor
    · rintro - ⟨zone, hmem, hzone⟩
      exact absurd (hzone ▸ hfar zone hmem) (by norm_num)
    · rintro - m ⟨⟨hm, zone, hmem, rfl⟩, -⟩
      exact absurd hm (hfar zone hmem)
  · rw [hz]
    by_cases hin : ∃ zone ∈ zones, dist zone = 0
    · -- Inside a zone, the risk is 0.95 or more.
      obtain ⟨inner, hinner, hinner0⟩ := hin
      have hrisk : 0.95 ≤ risk (dist z) := by
        simpa [hinner0, risk_zero] using hmax inner hinner (by rw [hinner0]; norm_num)
      have hfind : dist z = 0 ∨ dist z = 25 →
          zones.find? (fun zone => decide (dist zone = 0 ∨ dist zone = 25)) = some z := by
        intro h
        rw [← find_filter_near, hsplit, List.find?_eq_some_iff_append]
        refine ⟨by simpa using h, l₁, l₂, rfl, fun a ha => ?_⟩
        have hamem : a ∈ zones := List.mem_of_mem_filter (hsplit ▸ List.mem_append_left _ ha)
        have hza := hlt a ha
        rw [(risk_eq_inside_iff (h0 z hmem)).2 h] at hza
        simpa using fun hend => hza.ne ((risk_eq_inside_iff (h0 a hamem)).2 hend)
      constructor
      · intro hnames _
        obtain ⟨zone, hzone, hid, hd⟩ := hnames 0 (isLeast_zero h0 hinner hinner0)
        obtain rfl : z = zone := List.inj_on_of_nodup_map hkey hmem hzone (by simpa using hid)
        refine ⟨fun zone hzone' ⟨hpos, h25⟩ => ?_, z, hfind (.inl hd), hd⟩
        have hle := hmax zone hzone' (h25.trans (by norm_num))
        rw [hd, risk_zero] at hle
        exact (risk_le_inside_iff (h0 zone hzone')).1 hle ⟨hpos, h25⟩
      · intro hout m hm
        obtain rfl := hm.unique (isLeast_zero h0 hinner hinner0)
        obtain ⟨hnone, first, hfirst, hfirst0⟩ := hout ⟨inner, hinner, hinner0⟩
        have hle := (risk_le_inside_iff (h0 z hmem)).2 (hnone z hmem)
        have hend := (risk_eq_inside_iff (h0 z hmem)).1 (hle.antisymm hrisk)
        cases (hfind hend).symm.trans hfirst
        exact ⟨z, hmem, rfl, hfirst0⟩
    · -- Outside all of them, the risk is the higher the nearer.
      constructor
      · intro _ h
        exact absurd h hin
      · rintro - m ⟨⟨hm, zone, hzone, rfl⟩, hleast⟩
        have hpos {y : Zone K} (hy : y ∈ zones) : 0 < dist y := (h0 y hy).lt_of_ne fun h => hin ⟨y, hy, h.symm⟩
        have hle := (risk_le_iff (hpos hmem) (hpos hzone)).1 (hmax zone hzone hm)
        exact ⟨z, hmem, rfl, hle.antisymm (hleast ⟨hnear, z, hmem, rfl⟩)⟩

/-- The risk that is reported. -/
def riskOf (dist : Zone K → K) (zones : List (Zone K)) : K := (riskiest dist zones).elim 0 (risk ∘ dist)

/-- For each zone of the second list that outranks being inside, the first has one
as near that does. -/
def OutrankedToo (dist dist' : Zone K → K) (zones zones' : List (Zone K)) : Prop :=
  ∀ zone' ∈ zones', 0 < dist' zone' ∧ dist' zone' < 25 → ∃ zone ∈ zones, 0 < dist zone ∧ dist zone ≤ dist' zone'

omit [IsStrictOrderedRing K] in
theorem riskOf_spec {m : K} (hm : m ∈ inRange dist zones) : ∃ z ∈ zones, dist z < 500 ∧
    riskOf dist zones = risk (dist z) ∧ ∀ zone ∈ zones, dist zone < 500 → risk (dist zone) ≤ risk (dist z) := by
  obtain ⟨hlt, zone, hzone, rfl⟩ := hm
  rcases riskiest_spec zones dist with ⟨-, hfar⟩ | ⟨z, hz, hmem, hnear, hmax, -⟩
  · exact absurd hlt (hfar zone hzone)
  · exact ⟨z, hmem, hnear, by rw [riskOf, hz]; rfl, hmax⟩

/-- Nearer means a risk no lower, but for what outranks being inside. -/
theorem riskOf_le_iff {dist' : Zone K → K} {zones' : List (Zone K)} (h0 : ∀ zone ∈ zones, 0 ≤ dist zone)
    (h0' : ∀ zone ∈ zones', 0 ≤ dist' zone) {m m' : K} (hm : IsLeast (inRange dist zones) m)
    (hm' : IsLeast (inRange dist' zones') m') (hle : m ≤ m') :
    riskOf dist' zones' ≤ riskOf dist zones ↔ (m = 0 → OutrankedToo dist dist' zones zones') := by
  obtain ⟨z, hz, hnear, hr, hmax⟩ := riskOf_spec hm.1
  obtain ⟨z', hz', hnear', hr', hmax'⟩ := riskOf_spec hm'.1
  obtain ⟨⟨hm500, zone, hzone, rfl⟩, -⟩ := hm
  rw [hr, hr']
  constructor
  · rintro hrisk hd zone' hzone' ⟨hpos, h25⟩
    have hzone'z := (hmax' zone' hzone' (h25.trans (by norm_num))).trans hrisk
    have hin : 0.95 < risk (dist' zone') := not_le.1 fun h => (risk_le_inside_iff hpos.le).1 h ⟨hpos, h25⟩
    have hzpos : 0 < dist z := by
      refine (h0 z hz).lt_of_ne fun h => ?_
      rw [← h, risk_zero] at hzone'z
      exact hzone'z.not_gt hin
    exact ⟨z, hz, hzpos, (risk_le_iff hzpos hpos).1 hzone'z⟩
  · intro hout
    have hfar : dist zone ≤ dist' z' := hle.trans (hm'.2 ⟨hnear', z', hz', rfl⟩)
    rcases (h0 zone hzone).eq_or_lt with hd | hd
    · have hinside : 0.95 ≤ risk (dist z) := by
        simpa [← hd, risk_zero] using hmax zone hzone hm500
      by_cases h25 : 0 < dist' z' ∧ dist' z' < 25
      · obtain ⟨y, hy, hypos, hyle⟩ := hout hd.symm z' hz' h25
        exact ((risk_le_iff hypos h25.1).2 hyle).trans (hmax y hy (hyle.trans_lt hnear'))
      · exact ((risk_le_inside_iff (h0' z' hz')).2 h25).trans hinside
    · exact ((risk_le_iff hd (hd.trans_le hfar)).2 hfar).trans (hmax zone hzone hm500)

variable (cos radians) in
/-- Two positions are scored, each against its own zones. The zone reported for the
first is the nearest if and only if none outranks those it is inside of, and being
nearer counts for more if and only if what outranks being inside does so for both. -/
theorem ranks_iff (hnonneg : ∀ x y, 0 ≤ hypot x y) {lat lon lat' lon' : K} {zones zones' : List (Zone K)}
    (hrings : ∀ zone ∈ zones, 3 ≤ zone.ring.length) (hrings' : ∀ zone ∈ zones', 3 ≤ zone.ring.length)
    (hkey : (zones.map (·.zoneId)).Nodup) :
    ∃ p p', checkProximity (exact hypot cos radians) zones lat lon = .ok p ∧
      checkProximity (exact hypot cos radians) zones' lat' lon' = .ok p' ∧
      (NamesNearest (distance (exact hypot cos radians) lat lon) zones p.nearestZoneId ↔
        NoneOutranks (distance (exact hypot cos radians) lat lon) zones) ∧
      ∀ m m', IsLeast (inRange (distance (exact hypot cos radians) lat lon) zones) m →
        IsLeast (inRange (distance (exact hypot cos radians) lat' lon') zones') m' → m ≤ m' →
        (p'.riskScore ≤ p.riskScore ↔ (m = 0 → OutrankedToo (distance (exact hypot cos radians) lat lon)
          (distance (exact hypot cos radians) lat' lon') zones zones')) := by
  have hdist := fun zone hz => distance_spec cos radians lat lon hnonneg (hrings zone hz)
  have hdist' := fun zone hz => distance_spec cos radians lat' lon' hnonneg (hrings' zone hz)
  obtain ⟨p, hp, hrisk, hid⟩ := checkProximity_exact fun zone hz => (hdist zone hz).1
  obtain ⟨p', hp', hrisk', -⟩ := checkProximity_exact fun zone hz => (hdist' zone hz).1
  refine ⟨p, p', hp, hp', ?_, fun m m' hm hm' hle => ?_⟩
  · rw [hid]
    exact namesNearest_iff (fun zone hz => (hdist zone hz).2) hkey
  · rw [hrisk, hrisk']
    exact riskOf_le_iff (fun zone hz => (hdist zone hz).2) (fun zone hz => (hdist' zone hz).2) hm hm' hle

end

/-! ## Just outside a zone -/

open Agreement (real real_nonneg real_zero)

/-- A square on the equator, 10 m to the east of the meridian. -/
noncomputable def square : Zone ℝ := ⟨"square", [(1 / 11132, -1), (1 / 11132, 1), (1, 1), (1, -1)]⟩

/-- Its mirror image, 20 m to the west. -/
noncomputable def mirrored : Zone ℝ := ⟨"mirrored", [(-1 / 5566, -1), (-1 / 5566, 1), (-1, 1), (-1, -1)]⟩

theorem ranks_iff_squares : ∃ p p', checkProximity real [mirrored, square] 0 (1 / 2) = .ok p ∧
    checkProximity real [mirrored, square] 0 0 = .ok p' ∧
    (NamesNearest (distance real 0 (1 / 2)) [mirrored, square] p.nearestZoneId ↔
      NoneOutranks (distance real 0 (1 / 2)) [mirrored, square]) ∧
    ∀ m m', IsLeast (inRange (distance real 0 (1 / 2)) [mirrored, square]) m →
      IsLeast (inRange (distance real 0 0) [mirrored, square]) m' → m ≤ m' →
      (p'.riskScore ≤ p.riskScore ↔
        (m = 0 → OutrankedToo (distance real 0 (1 / 2)) (distance real 0 0) [mirrored, square] [mirrored, square])) := by
  have hrings : ∀ zone ∈ [mirrored, square], 3 ≤ zone.ring.length := by simp [mirrored, square]
  have hkey : ([mirrored, square].map (·.zoneId)).Nodup := by simp [mirrored, square]
  exact ranks_iff Real.cos _ real_nonneg hrings hrings hkey

theorem distance_inside : distance real 0 (1 / 2) square = 0 := by
  have hcast : Agreement.rayCast (0 : ℝ) (1 / 2) square.ring = true := by
    norm_num [Agreement.rayCast, Proximity.edgesInto, square, Agreement.cross]
  obtain ⟨d, hd, hinside, -⟩ := Agreement.distance_exact (fun x y : ℝ => √(x * x + y * y)) Real.cos
    (fun degrees => degrees * (Real.pi / 180)) 0 (1 / 2) (show 3 ≤ square.ring.length by simp [square])
  have hdist : distance real 0 (1 / 2) square = d := by
    rw [distance, real, hd]
  rw [hdist, hinside hcast]

theorem distance_outside : 0 < distance real 0 0 square ∧ distance real 0 0 square < 25 := by
  have hcast : Agreement.rayCast (0 : ℝ) 0 square.ring = false := by
    norm_num [Agreement.rayCast, Proximity.edgesInto, square, Agreement.cross]
  have hring : 3 ≤ square.ring.length := by simp [square]
  obtain ⟨d, hd, -, houtside⟩ := Agreement.distance_exact (fun x y : ℝ => √(x * x + y * y)) Real.cos
    (fun degrees => degrees * (Real.pi / 180)) 0 0 hring
  have hdist : distance real 0 0 square = d := by
    rw [distance, real, hd]
  rw [hdist]
  obtain ⟨h0, hle, edge, hedge, p, hp, hat⟩ :=
    Distance.isDistance_of_edges real_nonneg Distance.real_sq (houtside hcast).1 (houtside hcast).2
  have hm : Agreement.mPerDegLon Real.cos (fun degrees => degrees * (Real.pi / 180)) 0 = 111320 := by
    norm_num [Agreement.mPerDegLon, Proximity.mPerDegLat]
  rw [hm] at hle hat
  constructor
  · -- No point of the square is on the meridian.
    refine h0.lt_of_ne fun h => ?_
    have hp1 : 0 < p.1 := by
      obtain ⟨s, hs0, hs1, hx, -⟩ := Plane.mem_segment_iff.1 hp
      simp only [Proximity.edgesFrom, square, List.rotate_cons_succ, List.rotate_zero, List.cons_append, List.nil_append,
        List.zip_cons_cons, List.zip_nil_right, List.mem_cons, List.not_mem_nil, or_false] at hedge
      rcases hedge with rfl | rfl | rfl | rfl <;> norm_num at hx <;> linarith
    rw [← h, Distance.distanceSq] at hat
    nlinarith [mul_self_nonneg ((p.2 - 0) * (Proximity.mPerDegLat : ℝ)), mul_pos hp1 hp1]
  · have hnear := hle ((1 / 11132, -1), (1 / 11132, 1)) (by simp [Proximity.edgesFrom, square]) (1 / 11132, 0)
      (Plane.mem_segment_iff.2 ⟨1 / 2, by norm_num, by norm_num, by norm_num, by norm_num⟩)
    norm_num [Distance.distanceSq] at hnear
    nlinarith

theorem square_scored (lat lon : ℝ) : 0 ≤ distance real lat lon square ∧
    ∃ p, checkProximity real [square] lat lon = .ok p ∧ p.riskScore = riskOf (distance real lat lon) [square] := by
  have hspec := distance_spec Real.cos (fun degrees => degrees * (Real.pi / 180)) lat lon real_nonneg
    (show 3 ≤ square.ring.length by simp [square])
  refine ⟨hspec.2, ?_⟩
  have hdist : ∀ zone ∈ [square],
      distanceToPolygonM real lat lon zone.ring = .ok (some (distance real lat lon zone)) := by
    intro zone hz
    rw [List.mem_singleton.1 hz]
    exact hspec.1
  obtain ⟨p, hp, hrisk, -⟩ := checkProximity_exact hdist
  exact ⟨p, hp, hrisk⟩

/-- The risk is higher 10 m outside a zone than inside. -/
theorem outside_outranks_inside : ¬ ∀ (lat lon lat' lon' : ℝ) (zones zones' : List (Zone ℝ)) (p p' : Score ℝ),
    (∀ zone ∈ zones, 3 ≤ zone.ring.length) → (∀ zone ∈ zones', 3 ≤ zone.ring.length) →
    (zones.map (·.zoneId)).Nodup → (zones'.map (·.zoneId)).Nodup →
    checkProximity real zones lat lon = .ok p → checkProximity real zones' lat' lon' = .ok p' →
    NamesNearest (distance real lat lon) zones p.nearestZoneId ∧
      ∀ m m', IsLeast (inRange (distance real lat lon) zones) m →
        IsLeast (inRange (distance real lat' lon') zones') m' → m ≤ m' → p'.riskScore ≤ p.riskScore := by
  intro h
  have hrings : ∀ zone ∈ [square], 3 ≤ zone.ring.length := by simp [square]
  obtain ⟨h0, p, hp, hrisk⟩ := square_scored 0 (1 / 2)
  obtain ⟨h0', p', hp', hrisk'⟩ := square_scored 0 0
  have hleast : IsLeast (inRange (distance real 0 (1 / 2)) [square]) 0 :=
    isLeast_zero (by simpa using h0) (by simp) distance_inside
  have hleast' : IsLeast (inRange (distance real 0 0) [square]) (distance real 0 0 square) := by
    have hnear := distance_outside.2
    refine ⟨⟨by rw [Nat.cast_ofNat]; linarith, square, by simp, rfl⟩, ?_⟩
    rintro _ ⟨-, zone, hzone, rfl⟩
    exact (List.mem_singleton.1 hzone ▸ le_rfl)
  have hrank := (h 0 (1 / 2) 0 0 [square] [square] p p' hrings hrings (by simp) (by simp) hp hp').2 _ _ hleast hleast' h0'
  rw [hrisk, hrisk', riskOf_le_iff (by simpa using h0) (by simpa using h0') hleast hleast' h0'] at hrank
  obtain ⟨zone, hzone, hpos, -⟩ := hrank rfl square (by simp) distance_outside
  rw [List.mem_singleton.1 hzone, distance_inside] at hpos
  exact lt_irrefl _ hpos

end HtapStack.Ranking
