import HtapStack.Lib.Runs
import HtapStack.Sink.Consumer
/-!
# The producer's live settings

`LiveSettings` of `ingress/producer/producer.py`. The poller's thread copies in
what the dashboard's backend answers, one field after the other under the lock,
and the sending loop takes snapshots under the same lock. A field that cannot be
converted raises in the middle: the fields before it stay assigned, and the
poller prints that it keeps the current values.

`apply_atomic_iff`: a payload that raises changes nothing exactly when the fields
before the first bad one convert to what they are already (`Harmless`), and in a
run whose payloads are all harmless every snapshot is of whole payloads only.
`apply_half`: otherwise not.

What Python makes of numbers and text is a parameter. Left out: what is printed.
-/

namespace HtapStack.Producer
open Py Runs
open Consumer (Json Interp py)

/-- The interpreter, with `int` beside `float`. -/
structure Casts (F Uuid : Type) extends Interp F Uuid where
  /-- `int(x)` of a float. -/
  truncate : F → Except Exn Int
  /-- `int(s)`. -/
  parseInt : Consumer.Text → Except Exn Int

variable {F Uuid : Type} (I : Casts F Uuid)

/-- `int(v)`. -/
def toInt : Json F → Except Exn Int
  | .bool b => .ok (if b then 1 else 0)
  | .int n => .ok n
  | .float x => I.truncate x
  | .str s => I.parseInt s
  | .null | .list _ | .dict _ => .error .type

/-- The rate and the fleet are positive from `main` on: every assignment is of a `max(1, ..)`. -/
@[ext] structure Settings (F : Type) where
  eventsPerSec : Int
  nEntities : Int
  outlierPercent : F
  paused : Bool
  one_le_eventsPerSec : 1 ≤ eventsPerSec
  one_le_nEntities : 1 ≤ nEntities

/-- `LiveSettings(max(1, ..), max(1, ..), ..)`. -/
def Settings.ofEnv (eventsPerSec nEntities : Int) (outlierPercent : F) : Settings F :=
  ⟨max 1 eventsPerSec, max 1 nEntities, outlierPercent, false, le_max_left _ _, le_max_left _ _⟩

/-! ## apply -/

inductive Field where
  | eventsPerSec
  | nEntities
  | outlierPercent
  | paused
  deriving DecidableEq, Repr

/-- In the order of the assignments. -/
def fields : List Field := [.eventsPerSec, .nEntities, .outlierPercent, .paused]

section
variable (payload : Json F) (s : Settings F)

/-- `int(payload.get(key, current))`. -/
def intField (key : String) (current : Int) : Except Exn Int := do
  toInt I (← payload.get (py key) (.int current))

/-- `float(payload.get("outlier_percent", self.outlier_percent))`. -/
def floatField : Except Exn F := do
  (← payload.get (py "outlier_percent") (.float s.outlierPercent)).toFloat I.toInterp

/-- `bool(payload.get("paused", self.paused))`. -/
def boolField : Except Exn Bool := do
  return (← payload.get (py "paused") (.bool s.paused)).truthy I.toInterp

/-- The assignment of one field. -/
def assign : Field → Except Exn (Settings F)
  | .eventsPerSec => do
    let n ← intField I payload "events_per_sec" s.eventsPerSec
    return { s with eventsPerSec := max 1 n, one_le_eventsPerSec := le_max_left _ _ }
  | .nEntities => do
    let n ← intField I payload "drones_enabled" s.nEntities
    return { s with nEntities := max 1 n, one_le_nEntities := le_max_left _ _ }
  | .outlierPercent => do
    let x ← floatField I payload s
    return { s with outlierPercent := x }
  | .paused => do
    let b ← boolField I payload s
    return { s with paused := b }

end

/-- The settings that are left, and whether the assignments raised. -/
def assignAll (payload : Json F) : List Field → Settings F → Settings F × Option Exn
  | [], s => (s, none)
  | f :: fs, s =>
    match assign I payload s f with
    | .ok s' => assignAll payload fs s'
    | .error e => (s, some e)

def apply (payload : Json F) (s : Settings F) : Settings F × Option Exn := assignAll I payload fields s

/-- What the poller says of it: all of a payload or, if it raises, nothing. -/
def applyWhole (payload : Json F) (s : Settings F) : Settings F :=
  match apply I payload s with
  | (s', none) => s'
  | (_, some _) => s

/-! ## One field -/

/-- The settings agree on a field. -/
def Field.Same (s t : Settings F) : Field → Prop
  | .eventsPerSec => s.eventsPerSec = t.eventsPerSec
  | .nEntities => s.nEntities = t.nEntities
  | .outlierPercent => s.outlierPercent = t.outlierPercent
  | .paused => s.paused = t.paused

/-- What the payload has for the field, or the current value if it has none, can be converted. -/
def Converts (payload : Json F) (s : Settings F) : Field → Prop
  | .eventsPerSec => Returns (intField I payload "events_per_sec" s.eventsPerSec)
  | .nEntities => Returns (intField I payload "drones_enabled" s.nEntities)
  | .outlierPercent => Returns (floatField I payload s)
  | .paused => Returns (boolField I payload s)

/-- It converts to the current value. -/
def Keeps (payload : Json F) (s : Settings F) : Field → Prop
  | .eventsPerSec => ∃ n, intField I payload "events_per_sec" s.eventsPerSec = .ok n ∧ max 1 n = s.eventsPerSec
  | .nEntities => ∃ n, intField I payload "drones_enabled" s.nEntities = .ok n ∧ max 1 n = s.nEntities
  | .outlierPercent => floatField I payload s = .ok s.outlierPercent
  | .paused => boolField I payload s = .ok s.paused

/-- All fields can be converted, or those before one that cannot be are what they are already. -/
def Harmless (payload : Json F) (s : Settings F) : Prop :=
  (∀ f ∈ fields, Converts I payload s f) ∨
    ∃ before f after, fields = before ++ f :: after ∧ ¬ Converts I payload s f ∧ ∀ g ∈ before, Keeps I payload s g

variable {I} {payload : Json F} {s s' t : Settings F} {f g : Field}

theorem Field.Same.refl (s : Settings F) (f : Field) : f.Same s s := by cases f <;> rfl

theorem Field.Same.symm (h : f.Same s t) : f.Same t s := by cases f <;> exact Eq.symm h

theorem Field.Same.trans {u : Settings F} (hst : f.Same s t) (htu : f.Same t u) : f.Same s u := by
  cases f <;> exact Eq.trans hst htu

theorem Settings.ext_same (h : ∀ f ∈ fields, f.Same s t) : s = t :=
  Settings.ext (h .eventsPerSec (by decide)) (h .nEntities (by decide)) (h .outlierPercent (by decide))
    (h .paused (by decide))

theorem returns_assign : Returns (assign I payload s f) ↔ Converts I payload s f := by
  cases f <;> exact (returns_bind_and fun _ _ => iff_true_intro (returns_pure _)).trans (and_iff_left trivial)

theorem keeps_iff : Keeps I payload s f ↔ assign I payload s f = .ok s := by
  cases f <;> simp only [Keeps, assign, bind_eq_ok, pure, Except.pure, Except.ok.injEq, Settings.ext_iff] <;> grind

/-- An assignment touches no other field. -/
theorem assign_frame (h : assign I payload s f = .ok s') (hg : g ≠ f) : g.Same s s' := by
  cases f <;>
  · obtain ⟨v, -, h⟩ := bind_eq_ok.1 h
    cases h
    cases g <;> first | rfl | exact absurd rfl hg

/-- Whether a field converts depends on no other field. -/
theorem converts_congr (hst : f.Same s t) : Converts I payload s f ↔ Converts I payload t f := by
  cases f <;> simp only [Field.Same] at hst <;> simp only [Converts, floatField, boolField, hst]

/-! ## All fields -/

theorem assignAll_frame {fs : List Field} (hg : g ∉ fs) : g.Same s (assignAll I payload fs s).1 := by
  induction fs generalizing s with
  | nil => exact .refl s g
  | cons f fs ih =>
    obtain ⟨hgf, hgfs⟩ := not_or.1 (mt List.mem_cons.2 hg)
    unfold assignAll
    split
    · next s' h => exact (assign_frame h hgf).trans (ih hgfs)
    · exact .refl s g

theorem assignAll_append {before after : List Field} (h : (assignAll I payload before s).2 = none) :
    assignAll I payload (before ++ after) s = assignAll I payload after (assignAll I payload before s).1 := by
  induction before generalizing s with
  | nil => rfl
  | cons f fs ih =>
    simp only [List.cons_append, assignAll] at h ⊢
    cases hf : assign I payload s f with
    | ok s' =>
      simp only [hf] at h ⊢
      exact ih h
    | error e => simp [hf] at h

theorem assignAll_returns {fs : List Field} (hnodup : fs.Nodup) :
    (assignAll I payload fs s).2 = none ↔ ∀ f ∈ fs, Converts I payload s f := by
  induction fs generalizing s with
  | nil => simp [assignAll]
  | cons f fs ih =>
    obtain ⟨hf, hfs⟩ := List.nodup_cons.1 hnodup
    rw [List.forall_mem_cons, assignAll, ← returns_assign]
    cases h : assign I payload s f with
    | ok s' =>
      have hrest : ∀ g ∈ fs, (Converts I payload s' g ↔ Converts I payload s g) := fun g hg =>
        converts_congr (assign_frame h (by rintro rfl; exact hf hg)).symm
      simp only [returns_ok, true_and, ih hfs]
      exact forall₂_congr hrest
    | error e => simp

/-- Assignments that raise leave the settings as they were when each before the bad one kept them. -/
theorem assignAll_eq_self {fs : List Field} (hnodup : fs.Nodup) (hraises : (assignAll I payload fs s).2 ≠ none) :
    (assignAll I payload fs s).1 = s ↔ ∃ before f after, fs = before ++ f :: after ∧ ¬ Converts I payload s f ∧
      ∀ g ∈ before, Keeps I payload s g := by
  induction fs generalizing s with
  | nil => exact absurd rfl hraises
  | cons f fs ih =>
    obtain ⟨hf, hfs⟩ := List.nodup_cons.1 hnodup
    cases h : assign I payload s f with
    | error e =>
      refine iff_of_true (by rw [assignAll, h]) ⟨[], f, fs, rfl, ?_, by simp⟩
      rw [← returns_assign, h]
      exact not_returns_error e
    | ok s' =>
      have hrest : assignAll I payload (f :: fs) s = assignAll I payload fs s' := by rw [assignAll, h]
      rw [hrest] at hraises ⊢
      constructor
      · intro hs
        have hkeeps : s' = s := by
          refine Settings.ext_same fun g _ => ?_
          rcases eq_or_ne g f with rfl | hg
          · exact hs ▸ assignAll_frame hf
          · exact (assign_frame h hg).symm
        subst hkeeps
        obtain ⟨before, g, after, rfl, hg, hbefore⟩ := (ih hfs hraises).1 hs
        exact ⟨f :: before, g, after, rfl, hg, List.forall_mem_cons.2 ⟨keeps_iff.2 h, hbefore⟩⟩
      · rintro ⟨before, g, after, hsplit, hg, hbefore⟩
        cases before with
        | nil =>
          cases hsplit
          exact absurd (returns_assign.1 ⟨s', h⟩) hg
        | cons f' before =>
          cases hsplit
          obtain ⟨hf', hbefore⟩ := List.forall_mem_cons.1 hbefore
          cases h.symm.trans (keeps_iff.1 hf')
          exact (ih hfs hraises).2 ⟨before, g, after, rfl, hg, hbefore⟩

theorem fields_nodup : fields.Nodup := by decide

theorem apply_returns : (apply I payload s).2 = none ↔ ∀ f ∈ fields, Converts I payload s f :=
  assignAll_returns fields_nodup

theorem apply_atomic : ((apply I payload s).2 ≠ none → (apply I payload s).1 = s) ↔ Harmless I payload s := by
  rw [Harmless, ← apply_returns]
  by_cases h : (apply I payload s).2 = none
  · exact iff_of_true (absurd h) (.inl h)
  · rw [or_iff_right h, ← assignAll_eq_self fields_nodup h]
    exact forall_prop_of_true h

theorem apply_whole (h : Harmless I payload s) : (apply I payload s).1 = applyWhole I payload s := by
  have hatomic := apply_atomic.2 h
  unfold applyWhole
  split <;> simp_all

/-! ## The poller and the sending loop -/

/-- `applying` is the payload that the poller is at, under the lock, and the fields it has not assigned
yet; `whole` is where the payloads so far would have left the settings. -/
structure Shared (F : Type) where
  live : Settings F
  applying : Option (Json F × List Field)
  whole : Settings F

def Shared.init (s : Settings F) : Shared F := ⟨s, none, s⟩

inductive Action (F : Type) where
  /-- The poller takes the lock, with what the backend answered. -/
  | call (payload : Json F)
  /-- It assigns the next field, or releases the lock. -/
  | advance
  | snapshot

variable (I) in
def step (s : Shared F) : Action F → Option (Shared F)
  | .call payload =>
    match s.applying with
    | none => some { s with applying := some (payload, fields) }
    | some _ => none
  | .advance =>
    match s.applying with
    | none => none
    | some (payload, []) => some { s with applying := none, whole := applyWhole I payload s.whole }
    | some (payload, f :: fs) =>
      match assign I payload s.live f with
      | .ok live => some { s with live := live, applying := some (payload, fs) }
      | .error _ => some { s with applying := none }
  | .snapshot =>
    match s.applying with
    | none => some s
    | some _ => none

variable (I) in
/-- The payload of a call does no harm to the settings it finds. -/
def CallsHarmless (s : Shared F) (a : Action F) : Prop := ∀ payload, a = .call payload → Harmless I payload s.live

/-- What a snapshot is of. -/
def SnapshotWhole (s : Shared F) (a : Action F) : Prop := a = .snapshot → s.live = s.whole

variable (I) in
/-- Where the poller is: what it has assigned so far, it has assigned to what whole payloads left. -/
def Shared.Inv (s : Shared F) : Prop :=
  match s.applying with
  | none => s.live = s.whole
  | some (payload, fs) => Harmless I payload s.whole ∧ ∃ before, fields = before ++ fs ∧
      assignAll I payload before s.whole = (s.live, none)

theorem Shared.Inv.step {s t : Shared F} {a : Action F} (hs : s.Inv I) (hc : CallsHarmless I s a)
    (h : step I s a = some t) : t.Inv I := by
  obtain ⟨live, applying, whole⟩ := s
  cases a with
  | call payload =>
    cases applying with
    | some _ => cases h
    | none =>
      cases h
      have hs : live = whole := hs
      subst hs
      exact ⟨hc payload rfl, [], rfl, rfl⟩
  | snapshot =>
    cases applying with
    | some _ => cases h
    | none =>
      cases h
      exact hs
  | advance =>
    match applying with
    | none => cases h
    | some (payload, []) =>
      cases h
      obtain ⟨hharmless, before, hsplit, hdone⟩ := hs
      rw [List.append_nil] at hsplit
      have happly : apply I payload whole = (live, none) := by rw [apply, hsplit, hdone]
      exact (congrArg Prod.fst happly).symm.trans (apply_whole hharmless)
    | some (payload, f :: fs) =>
      obtain ⟨hharmless, before, hsplit, hdone⟩ := hs
      have happend (after : List Field) :
          assignAll I payload (before ++ after) whole = assignAll I payload after live := by
        rw [assignAll_append (by rw [hdone]), hdone]
      simp only [Producer.step] at h
      cases hf : assign I payload live f with
      | ok live' =>
        simp only [hf] at h
        cases h
        refine ⟨hharmless, before ++ [f], by rw [hsplit, List.append_assoc]; rfl, ?_⟩
        rw [happend, assignAll, hf]
        rfl
      | error e =>
        simp only [hf] at h
        cases h
        have hraised : apply I payload whole = (live, some e) := by rw [apply, hsplit, happend, assignAll, hf]
        have hatomic := apply_atomic.2 hharmless
        rw [hraised] at hatomic
        exact hatomic (by simp)

theorem snapshot_whole {s t : Shared F} {a : Action F} (hs : s.Inv I) (h : step I s a = some t) :
    SnapshotWhole s a := by
  rintro rfl
  obtain ⟨live, applying, whole⟩ := s
  cases applying with
  | none => exact hs
  | some _ => cases h

/-- A payload that raises changes nothing exactly when it is harmless, and snapshots between harmless
payloads are of whole payloads. -/
theorem apply_atomic_iff (I : Casts F Uuid) :
    (∀ payload s, ((apply I payload s).2 ≠ none → (apply I payload s).1 = s) ↔ Harmless I payload s) ∧
      ∀ s as, Each (step I) (CallsHarmless I) (Shared.init s) as → Each (step I) SnapshotWhole (Shared.init s) as :=
  ⟨fun _ _ => apply_atomic, fun s _ => Each.imp (I := Shared.Inv I) (fun _ _ _ => Shared.Inv.step)
    (fun _ _ _ hs _ h => snapshot_whole hs h) (show s = s from rfl)⟩

/-! ## A payload that is half applied -/

noncomputable def castsOnReals : Casts ℝ Nat where
  toInterp := Consumer.onReals
  truncate x := .ok (if x < 0 then ⌈x⌉ else ⌊x⌋)
  parseInt _ := .error .value

/-- The rate is a number, the fleet is `null`. -/
def halfBad : Json ℝ := .dict [(py "events_per_sec", .int 7), (py "drones_enabled", .null)]

/-- What `main` starts from. -/
noncomputable def defaults : Settings ℝ := .ofEnv 5 100 5

/-- The payload raises, and the rate is changed. -/
theorem apply_half : (apply castsOnReals halfBad defaults).2 = some .type ∧
    (apply castsOnReals halfBad defaults).1.eventsPerSec = 7 ∧
    ¬ ∀ payload s, (apply castsOnReals payload s).2 ≠ none → (apply castsOnReals payload s).1 = s := by
  have happly : (apply castsOnReals halfBad defaults).2 = some .type ∧
      (apply castsOnReals halfBad defaults).1.eventsPerSec = 7 := ⟨rfl, rfl⟩
  refine ⟨happly.1, happly.2, fun h => ?_⟩
  have hsame := congrArg Settings.eventsPerSec (h halfBad defaults (by rw [happly.1]; simp))
  rw [happly.2] at hsame
  exact absurd hsame (by decide)

end HtapStack.Producer
