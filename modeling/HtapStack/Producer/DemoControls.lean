import HtapStack.Producer.LiveSettings
/-!
# The demo controls

`backend/app/routes/settings.py` holds the settings of the demo, and the producer
of `ingress/producer/producer.py` polls them. A request is answered under the
lock; an answer is on its way for a while, in which the settings may change, and
may not arrive.

`controls_adopted`: whatever the requests and the polls do, no answer is refused
halfway, every snapshot of the sending loop is of one state that the controls had
(or of the settings that the producer started with), all four of its values, and
never of an earlier state than the snapshot before.

Left out: the truncation of the fleet's table, and an outlier percentage that is NaN,
which the bounds of its field let through.
-/

namespace HtapStack.Producer
open Py Runs
open Consumer (Json py)

variable {Uuid : Type}

/-! ## The backend -/

/-- `DemoSettings`, with the bounds of its fields. -/
structure DemoSettings where
  dronesEnabled : Int
  eventsPerSec : Int
  outlierPercent : ℚ
  paused : Bool
  one_le_dronesEnabled : 1 ≤ dronesEnabled
  dronesEnabled_le : dronesEnabled ≤ 100000
  one_le_eventsPerSec : 1 ≤ eventsPerSec
  eventsPerSec_le : eventsPerSec ≤ 1000000
  outlierPercent_nonneg : 0 ≤ outlierPercent
  outlierPercent_le : outlierPercent ≤ 100

/-- The environment of the backend. The module is not imported with one whose defaults are out of bounds. -/
structure Env where
  nEntities : Int
  maxEntities : Int
  eventsPerSec : Int
  outlierPercent : ℚ
  one_le_entities : 1 ≤ min nEntities maxEntities
  entities_le : min nEntities maxEntities ≤ 100000
  one_le_eventsPerSec : 1 ≤ eventsPerSec
  eventsPerSec_le : eventsPerSec ≤ 1000000
  outlierPercent_nonneg : 0 ≤ outlierPercent
  outlierPercent_le : outlierPercent ≤ 100

section
variable (env : Env)

/-- `_defaults`. -/
def Env.defaults : DemoSettings where
  dronesEnabled := min env.nEntities env.maxEntities
  eventsPerSec := env.eventsPerSec
  outlierPercent := env.outlierPercent
  paused := false
  one_le_dronesEnabled := env.one_le_entities
  dronesEnabled_le := env.entities_le
  one_le_eventsPerSec := env.one_le_eventsPerSec
  eventsPerSec_le := env.eventsPerSec_le
  outlierPercent_nonneg := env.outlierPercent_nonneg
  outlierPercent_le := env.outlierPercent_le

/-- `clamped` of `update_demo_settings`. -/
def Env.clamped (new : DemoSettings) : DemoSettings :=
  { new with
    dronesEnabled := min new.dronesEnabled env.maxEntities
    one_le_dronesEnabled := le_min new.one_le_dronesEnabled (le_min_iff.1 env.one_le_entities).2
    dronesEnabled_le := (min_le_left _ _).trans new.dronesEnabled_le }

end

/-- The settings as JSON. -/
def DemoSettings.json (s : DemoSettings) : Json ℚ :=
  .dict [(py "drones_enabled", .int s.dronesEnabled), (py "events_per_sec", .int s.eventsPerSec),
    (py "outlier_percent", .float s.outlierPercent), (py "paused", .bool s.paused)]

/-- `DemoSettingsResponse`. -/
def response (s : DemoSettings) (message : Consumer.Text) : Json ℚ :=
  .dict [(py "settings", s.json), (py "success", .bool true), (py "message", .str message)]

/-- `get_demo_settings`. -/
def getDemoSettings (current : DemoSettings) : Json ℚ := response current []

/-- `update_demo_settings`: the settings it leaves, and its answer. -/
def updateDemoSettings (env : Env) (new : DemoSettings) : DemoSettings × Json ℚ :=
  let clamped := env.clamped new
  let note :=
    if clamped.dronesEnabled ≠ new.dronesEnabled then
      py "Fleet size capped at MAX_ENTITIES (" ++ py (toString env.maxEntities) ++ py ")"
    else py "Settings updated; the producer picks them up within its poll interval"
  (clamped, response clamped note)

/-- `toggle_pause`. -/
def togglePause (current : DemoSettings) : DemoSettings × Json ℚ :=
  let state := { current with paused := !current.paused }
  (state, response state (py "Data generation " ++ if state.paused then py "paused" else py "resumed"))

/-- The settings that the producer has when it has adopted these. -/
def DemoSettings.live (s : DemoSettings) : Settings ℚ :=
  ⟨s.eventsPerSec, s.dronesEnabled, s.outlierPercent, s.paused, s.one_le_eventsPerSec, s.one_le_dronesEnabled⟩

/-! ## Both of them -/

/-- The backend, the answer on its way to the poller, and the producer. The last five fields are not the
code's: the settings that there have been, those of the producer's start first, and by their places in that
list what the poller is at, what it has adopted, and what the snapshots were of. -/
structure Controls where
  current : DemoSettings
  inFlight : Option (Json ℚ × Nat)
  producer : Shared ℚ
  versions : List (Settings ℚ)
  adopting : Nat
  adopted : Nat
  taken : List (Settings ℚ)
  seen : List Nat

def Controls.boot (env : Env) (atStart : Settings ℚ) : Controls where
  current := env.defaults
  inFlight := none
  producer := .init atStart
  versions := [atStart, env.defaults.live]
  adopting := 0
  adopted := 0
  taken := []
  seen := []

inductive Request where
  /-- `POST /demo`, and `POST /demo/pause`. -/
  | update (new : DemoSettings)
  | togglePause
  /-- The poller asks, and is answered. -/
  | poll
  /-- The answer does not arrive. -/
  | lose
  /-- It arrives, and the poller calls `apply`. -/
  | deliver
  | advance
  | snapshot

/-- The settings change. -/
def Controls.set (s : Controls) (new : DemoSettings) : Controls :=
  { s with current := new, versions := s.versions ++ [new.live] }

section
variable (I : Casts ℚ Uuid) (env : Env)

def serve (s : Controls) : Request → Option Controls
  | .update new => some (s.set (updateDemoSettings env new).1)
  | .togglePause => some (s.set (togglePause s.current).1)
  | .poll =>
    match s.inFlight, s.producer.applying with
    | none, none => some { s with inFlight := some (getDemoSettings s.current, s.versions.length - 1) }
    | _, _ => none
  | .lose => some { s with inFlight := none }
  | .deliver =>
    match s.inFlight with
    | none => none
    | some (body, version) =>
      match body.get (py "settings") (.dict []) with
      | .error _ => some { s with inFlight := none }
      | .ok payload => (step I s.producer (.call payload)).map fun producer =>
        { s with inFlight := none, producer := producer, adopting := version }
  | .advance => (step I s.producer .advance).map fun producer =>
    { s with producer := producer, adopted := if producer.applying.isNone then s.adopting else s.adopted }
  | .snapshot => (step I s.producer .snapshot).map fun producer =>
    { s with producer := producer, taken := s.taken ++ [producer.live], seen := s.seen ++ [s.adopted] }

/-- What the page promises of its controls. -/
structure Adopted (s : Controls) : Prop where
  capped : s.current.dronesEnabled ≤ env.maxEntities
  current : s.versions.getLast? = some s.current.live
  /-- No assignment raises. -/
  accepted : ∀ payload f fs, s.producer.applying = some (payload, f :: fs) → Returns (assign I payload s.producer.live f)
  /-- Between two calls the producer has one of the settings, whole. -/
  whole : s.producer.applying = none → s.versions[s.adopted]? = some s.producer.live
  /-- The snapshots are of settings, and never go back. -/
  taken : List.Forall₂ (fun live version => s.versions[version]? = some live) s.taken s.seen
  forward : (s.seen ++ [s.adopted]).Pairwise (· ≤ ·)

end

variable {I : Casts ℚ Uuid} {env : Env} {s t : Controls}

/-! ## One answer -/

theorem get_settings (current : DemoSettings) :
    (getDemoSettings current).get (py "settings") (.dict []) = .ok current.json := rfl

/-- Whatever the producer has, the assignments of an answer go through, one by one. -/
theorem converts_json (v : DemoSettings) (s : Settings ℚ) (f : Field) : Converts I v.json s f := by
  cases f
  · exact ⟨v.eventsPerSec, rfl⟩
  · exact ⟨v.dronesEnabled, rfl⟩
  · exact ⟨v.outlierPercent, rfl⟩
  · exact ⟨v.paused, rfl⟩

theorem harmless_json (v : DemoSettings) (s : Settings ℚ) : Harmless I v.json s := .inl fun f _ => converts_json v s f

/-- Its bounds keep `apply` from changing anything of it. -/
theorem apply_json (v : DemoSettings) (s : Settings ℚ) : apply I v.json s = (v.live, none) := by
  refine Prod.ext ?_ (apply_returns.2 fun f _ => converts_json v s f)
  apply Settings.ext
  · exact max_eq_right v.one_le_eventsPerSec
  · exact max_eq_right v.one_le_dronesEnabled
  · rfl
  · rfl

theorem applyWhole_json (v : DemoSettings) (s : Settings ℚ) : applyWhole I v.json s = v.live := by
  unfold applyWhole
  rw [apply_json]

/-! ## Runs -/

variable (I) (env) in
/-- What is on its way, and what the poller is at, is one of the settings, and none before the adopted one. -/
structure Served (s : Controls) : Prop where
  capped : s.current.dronesEnabled ≤ env.maxEntities
  current : s.versions.getLast? = some s.current.live
  shared : s.producer.Inv I
  adopted : s.versions[s.adopted]? = some s.producer.whole
  inFlight : ∀ body version, s.inFlight = some (body, version) → s.producer.applying = none ∧
    s.adopted ≤ version ∧ ∃ v, body = getDemoSettings v ∧ s.versions[version]? = some v.live
  applying : ∀ payload fs, s.producer.applying = some (payload, fs) →
    s.adopted ≤ s.adopting ∧ ∃ v, payload = DemoSettings.json v ∧ s.versions[s.adopting]? = some v.live
  taken : List.Forall₂ (fun live version => s.versions[version]? = some live) s.taken s.seen
  forward : (s.seen ++ [s.adopted]).Pairwise (· ≤ ·)

theorem Served.adopts (h : Served I env s) : Adopted I env s where
  capped := h.capped
  current := h.current
  accepted := by
    intro payload f fs happlying
    obtain ⟨-, v, rfl, -⟩ := h.applying payload (f :: fs) happlying
    exact returns_assign.2 (converts_json v _ f)
  whole := by
    intro hidle
    have hshared := h.shared
    rw [Shared.Inv, hidle] at hshared
    exact hshared ▸ h.adopted
  taken := h.taken
  forward := h.forward

theorem served_boot (atStart : Settings ℚ) : Served I env (Controls.boot env atStart) where
  capped := min_le_right _ _
  current := rfl
  shared := rfl
  adopted := rfl
  inFlight := nofun
  applying := nofun
  taken := .nil
  forward := List.pairwise_singleton _ _

theorem getElem?_append_of_some {α : Type} {l m : List α} {i : Nat} {x : α} (h : l[i]? = some x) :
    (l ++ m)[i]? = some x := by
  rw [List.getElem?_append_left (List.getElem?_eq_some_iff.1 h).1, h]

/-- New settings take nothing away from what there was. -/
theorem Served.set {new : DemoSettings} (h : Served I env s) (hnew : new.dronesEnabled ≤ env.maxEntities) :
    Served I env (s.set new) where
  capped := hnew
  current := List.getLast?_concat
  shared := h.shared
  adopted := getElem?_append_of_some h.adopted
  inFlight := by
    intro body version hflight
    obtain ⟨hidle, hle, v, hbody, hv⟩ := h.inFlight body version hflight
    exact ⟨hidle, hle, v, hbody, getElem?_append_of_some hv⟩
  applying := by
    intro payload fs happlying
    obtain ⟨hle, v, hpayload, hv⟩ := h.applying payload fs happlying
    exact ⟨hle, v, hpayload, getElem?_append_of_some hv⟩
  taken := h.taken.imp fun _ _ => getElem?_append_of_some
  forward := h.forward

theorem Served.poll (h : Served I env s) (hidle : s.producer.applying = none) :
    Served I env { s with inFlight := some (getDemoSettings s.current, s.versions.length - 1) } :=
  { h with
    inFlight := by
      rintro _ _ ⟨⟩
      have hlt := (List.getElem?_eq_some_iff.1 h.adopted).1
      refine ⟨hidle, Nat.le_sub_one_of_lt hlt, s.current, rfl, ?_⟩
      rw [← List.getLast?_eq_getElem?]
      exact h.current }

theorem Served.deliver {v : DemoSettings} {version : Nat} {producer : Shared ℚ} (h : Served I env s)
    (hflight : s.inFlight = some (getDemoSettings v, version)) (hv : s.versions[version]? = some v.live)
    (hstep : step I s.producer (.call v.json) = some producer) :
    Served I env { s with inFlight := none, producer := producer, adopting := version } := by
  obtain ⟨hidle, hle, -⟩ := h.inFlight _ _ hflight
  have hshared := h.shared.step (fun payload hcall => by cases hcall; exact harmless_json v _) hstep
  simp only [step, hidle] at hstep
  cases hstep
  refine ⟨h.capped, h.current, hshared, h.adopted, ?_, ?_, h.taken, h.forward⟩
  · intro body version hbody
    cases hbody
  · rintro _ _ ⟨⟩
    exact ⟨hle, v, rfl, hv⟩

/-- The poller assigns a field, or is done. -/
theorem Served.advance {producer : Shared ℚ} (h : Served I env s)
    (hstep : step I s.producer .advance = some producer) :
    Served I env { s with
      producer := producer
      adopted := if producer.applying.isNone then s.adopting else s.adopted } := by
  have hshared := h.shared.step (fun payload hcall => by cases hcall) hstep
  have hflight (hbusy : s.producer.applying ≠ none) : s.inFlight = none := by
    cases hflight : s.inFlight with
    | none => rfl
    | some answer => exact absurd (h.inFlight answer.1 answer.2 hflight).1 hbusy
  simp only [step] at hstep
  split at hstep
  · cases hstep
  · rename_i payload happlying
    cases hstep
    obtain ⟨hle, v, rfl, hv⟩ := h.applying payload [] happlying
    refine ⟨h.capped, h.current, hshared, ?_, ?_, ?_, h.taken, ?_⟩
    · show s.versions[s.adopting]? = some (applyWhole I v.json s.producer.whole)
      rw [applyWhole_json, hv]
    · intro body version hbody
      cases (hflight (by rw [happlying]; exact Option.some_ne_none _)).symm.trans hbody
    · intro body fields hbody
      cases hbody
    · obtain ⟨hseen, -, hall⟩ := List.pairwise_append.1 h.forward
      refine List.pairwise_append.2 ⟨hseen, List.pairwise_singleton _ _, ?_⟩
      rintro version hversion _ hlast
      cases List.mem_singleton.1 hlast
      exact (hall version hversion s.adopted List.mem_cons_self).trans hle
  · rename_i payload f fs happlying
    obtain ⟨hle, v, rfl, hv⟩ := h.applying payload (f :: fs) happlying
    obtain ⟨live, hlive⟩ := returns_assign.2 (converts_json (I := I) v s.producer.live f)
    simp only [hlive] at hstep
    cases hstep
    refine ⟨h.capped, h.current, hshared, h.adopted, ?_, ?_, h.taken, h.forward⟩
    · intro body version hbody
      cases (hflight (by rw [happlying]; exact Option.some_ne_none _)).symm.trans hbody
    · rintro _ _ ⟨⟩
      exact ⟨hle, v, rfl, hv⟩

theorem Served.snapshot {producer : Shared ℚ} (h : Served I env s)
    (hstep : step I s.producer .snapshot = some producer) :
    Served I env { s with producer := producer, taken := s.taken ++ [producer.live], seen := s.seen ++ [s.adopted] } := by
  simp only [step] at hstep
  split at hstep
  · rename_i hidle
    cases hstep
    have hshared := h.shared
    rw [Shared.Inv, hidle] at hshared
    refine { h with taken := ?_, forward := ?_ }
    · refine List.rel_append h.taken (.cons ?_ .nil)
      rw [hshared]
      exact h.adopted
    · refine List.pairwise_append.2 ⟨h.forward, List.pairwise_singleton _ _, ?_⟩
      rintro version hversion _ hlast
      cases List.mem_singleton.1 hlast
      rcases List.mem_append.1 hversion with hversion | hversion
      · exact (List.pairwise_append.1 h.forward).2.2 version hversion _ List.mem_cons_self
      · exact (List.mem_singleton.1 hversion).le
  · cases hstep

theorem Served.step {a : Request} (h : Served I env s) (hstep : serve I env s a = some t) : Served I env t := by
  cases a with
  | update new =>
    cases hstep
    exact h.set (min_le_right _ _)
  | togglePause =>
    cases hstep
    exact h.set h.capped
  | poll =>
    simp only [serve] at hstep
    split at hstep
    · cases hstep
      exact h.poll ‹_›
    · cases hstep
  | lose =>
    cases hstep
    refine { h with inFlight := ?_ }
    intro body version hbody
    cases hbody
  | deliver =>
    simp only [serve] at hstep
    split at hstep
    · cases hstep
    · rename_i body version hflight
      obtain ⟨-, -, v, rfl, hv⟩ := h.inFlight body version hflight
      rw [get_settings] at hstep
      obtain ⟨producer, hproducer, rfl⟩ := Option.map_eq_some_iff.1 hstep
      exact h.deliver hflight hv hproducer
  | advance =>
    obtain ⟨producer, hproducer, rfl⟩ := Option.map_eq_some_iff.1 hstep
    exact h.advance hproducer
  | snapshot =>
    obtain ⟨producer, hproducer, rfl⟩ := Option.map_eq_some_iff.1 hstep
    exact h.snapshot hproducer

/-- A poll that is answered and arrives leaves the producer with the settings that it asked for. -/
theorem poll_adopts (hflight : s.inFlight = none) (hidle : s.producer.applying = none) :
    ∃ t, exec (serve I env) s ([.poll, .deliver] ++ List.replicate (fields.length + 1) .advance) = some t ∧
      t.producer.live = s.current.live ∧ t.current = s.current ∧ t.producer.applying = none := by
  obtain ⟨current, inFlight, ⟨live, applying, whole⟩, versions, adopting, adopted, taken, seen⟩ := s
  obtain rfl : inFlight = none := hflight
  obtain rfl : applying = none := hidle
  refine ⟨_, rfl, ?_, rfl, rfl⟩
  apply Settings.ext
  · exact max_eq_right current.one_le_eventsPerSec
  · exact max_eq_right current.one_le_dronesEnabled
  · rfl
  · rfl

/-- For every sequence of requests, polls, lost answers and snapshots, the producer runs on settings that
the page has had, whole and never going back, and refuses none; and one poll that gets through is enough
for it to have the current ones. -/
theorem controls_adopted (I : Casts ℚ Uuid) (env : Env) (atStart : Settings ℚ) :
    (∀ as, Always (serve I env) (Adopted I env) (Controls.boot env atStart) as) ∧
      ∀ s : Controls, s.inFlight = none → s.producer.applying = none →
        ∃ t, exec (serve I env) s ([.poll, .deliver] ++ List.replicate (fields.length + 1) .advance) = some t ∧
          t.producer.live = s.current.live ∧ t.current = s.current ∧ t.producer.applying = none :=
  ⟨always_of_inv (fun _ _ _ => Served.step) (fun _ => Served.adopts) (served_boot atStart), fun _ => poll_adopts⟩

end HtapStack.Producer
