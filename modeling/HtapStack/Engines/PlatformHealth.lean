import HtapStack.Lib.PyRat
import HtapStack.Lib.Runs
import Mathlib.Logic.Function.Basic
/-!
# The health score

`backend/app/routes/health.py` probes the services one after the other and scores
them by the share that is up. The score is kept for ten seconds, for the KPIs are
polled more often than that. Polls and health pages come at any time and in any
number, and the lock is held only to read the kept score or to write it.

- `score_fresh`: in every interleaving, a poll's score is of one round of probes, a
  probe of each service in turn, that was over less than ten seconds ago, and a page
  shows the round it made itself. A poll begins no round within ten seconds of the
  end of another.
- `score_one`: the score is 1 exactly if its round found every service up.

A page counts the assets between its score and its answer, so its score may be older
than ten seconds once it is shown. What it counts is left open.
-/

namespace HtapStack.Health
open Py Runs

/-! ## A probe -/

inductive Service where
  | cassandra
  | kafka
  | presto
  | spark
  | cassandraSql
  | cqliteReader
  deriving DecidableEq, Repr

/-- In the order of `_probe_services`. -/
def services : List Service := [.cassandra, .kafka, .presto, .spark, .cassandraSql, .cqliteReader]

def Service.name : Service → String
  | .cassandra => "Cassandra"
  | .kafka => "Kafka"
  | .presto => "Presto"
  | .spark => "Spark"
  | .cassandraSql => "cassandra-sql"
  | .cqliteReader => "cqlite reader"

inductive Status where
  | up
  | down
  | unknown
  deriving DecidableEq, Repr

structure ServiceHealth where
  name : String
  status : Status
  endpoint : String
  deriving DecidableEq, Repr

/-- What `socket.create_connection` does. -/
inductive Attempt where
  | connects
  | osError
  | otherError
  deriving DecidableEq, Repr

/-- `_probe`. -/
def probe : Attempt → Status
  | .connects => .up
  | .osError => .down
  | .otherError => .unknown

structure Settings where
  host : Service → String
  port : Service → Nat
  cqliteDataDir : String
  containerCli : String

/-- What there is to find of a service: behind its socket, or in the directories of the cqlite reader. -/
structure Found where
  attempt : Attempt
  tables : Nat
  files : Nat

def Settings.health (settings : Settings) (s : Service) (found : Found) : ServiceHealth :=
  match s with
  | .cqliteReader =>
    ⟨s.name, if found.files ≠ 0 then .up else .down,
      settings.cqliteDataDir ++ " — " ++ toString found.tables ++ " table(s), " ++ toString found.files ++
        " SSTable(s)"⟩
  | _ => ⟨s.name, probe found.attempt, settings.host s ++ ":" ++ toString (settings.port s)⟩

/-- `round(x, 3)`. -/
def round3 (x : ℚ) : ℚ := Py.round (1000 * x) / 1000

/-- `_score`. -/
def score (services : List ServiceHealth) : ℚ :=
  if services.isEmpty then 0
  else round3 ((services.countP fun s => s.status = .up : Nat) / (services.length : Nat))

/-- What becomes of `cassandra_client.get_drone_count`. -/
inductive DroneCount where
  | notConnected
  | raises
  | counts (drones : Nat)
  deriving DecidableEq, Repr

def DroneCount.total : DroneCount → Nat
  | .notConnected | .raises => 0
  | .counts drones => drones

structure PlatformHealthResponse where
  services : List ServiceHealth
  totalDrones : Nat
  overallHealthScore : ℚ
  containerCli : String

/-! ## Requests -/

/-- `SCORE_CACHE_TTL_S`. -/
def scoreCacheTtlS : ℚ := 10

inductive Route where
  /-- `platform_health_score`, for the KPIs. -/
  | score
  /-- `get_platform_health`. -/
  | health
  deriving DecidableEq, Repr

/-- A probe's result, and when it was. -/
structure Probed where
  health : ServiceHealth
  time : ℚ

inductive Call where
  | idle
  | probing (route : Route) (begun : ℚ) (probed : List Probed)
  /-- A page that has kept its score, before the drones are counted. -/
  | counting (services : List ServiceHealth) (score : ℚ)
  /-- A poll's answer. -/
  | answered (score : ℚ) (time : ℚ)
  /-- A page's. -/
  | responded (response : PlatformHealthResponse) (time : ℚ)

/-- A round of probes whose score was kept, and the request that made it. -/
structure Round where
  request : Nat
  route : Route
  begun : ℚ
  probed : List Probed
  stored : ℚ

def Round.services (ρ : Round) : List ServiceHealth := ρ.probed.map Probed.health

def Round.score (ρ : Round) : ℚ := Health.score ρ.services

/-- `rounds` is not the code's: all the rounds so far. -/
structure World where
  now : ℚ
  cachedScore : Option (ℚ × ℚ)
  calls : Nat → Call
  rounds : List Round

def init : World := ⟨0, none, fun _ => .idle, []⟩

inductive Action where
  | tick (seconds : ℚ)
  /-- A request comes in, and a poll looks at the score that is kept. -/
  | ask (r : Nat) (route : Route)
  /-- It probes its next service. -/
  | probe (r : Nat) (found : Found)
  /-- It keeps the score. A poll answers with it. -/
  | store (r : Nat)
  /-- A page has its count and answers. -/
  | count (r : Nat) (drones : DroneCount)

def World.set (w : World) (r : Nat) (call : Call) : World := { w with calls := Function.update w.calls r call }

/-- A kept score that has not expired. -/
def World.fresh (w : World) : Option ℚ :=
  match w.cachedScore with
  | some (expires, score) => if w.now < expires then some score else none
  | none => none

/-- A request whose score is kept. -/
def Route.scored (services : List ServiceHealth) (score now : ℚ) : Route → Call
  | .score => .answered score now
  | .health => .counting services score

def step (settings : Settings) (w : World) : Action → Option World
  | .tick seconds => if 0 ≤ seconds then some { w with now := w.now + seconds } else none
  | .ask r route =>
    match w.calls r, route, w.fresh with
    | .idle, .score, some score => some (w.set r (.answered score w.now))
    | .idle, _, _ => some (w.set r (.probing route w.now []))
    | _, _, _ => none
  | .probe r found =>
    match w.calls r with
    | .probing route begun probed =>
      (services[probed.length]?).map fun s =>
        w.set r (.probing route begun (probed ++ [⟨settings.health s found, w.now⟩]))
    | _ => none
  | .store r =>
    match w.calls r with
    | .probing route begun probed =>
      if probed.length = services.length then
        let services := probed.map Probed.health
        some { w.set r (route.scored services (score services) w.now) with
          cachedScore := some (w.now + scoreCacheTtlS, score services)
          rounds := w.rounds ++ [⟨r, route, begun, probed, w.now⟩] }
      else none
    | _ => none
  | .count r drones =>
    match w.calls r with
    | .counting services score =>
      some (w.set r (.responded ⟨services, drones.total, score, settings.containerCli⟩ w.now))
    | _ => none

/-! ## Rounds -/

/-- Probes of the services in turn, between two times. -/
structure InTurn (probed : List Probed) (since till : ℚ) : Prop where
  names : probed.map (·.health.name) = (services.take probed.length).map Service.name
  times : ∀ p ∈ probed, since ≤ p.time ∧ p.time ≤ till

/-- No round was over within ten seconds before. -/
def Quiet (rounds : List Round) (begun : ℚ) : Prop :=
  ∀ σ ∈ rounds, σ.stored < begun → σ.stored + scoreCacheTtlS ≤ begun

/-- The score is of a round that was over less than ten seconds before. -/
def Backed (rounds : List Round) (score time : ℚ) : Prop :=
  ∃ ρ ∈ rounds, ρ.score = score ∧ ρ.stored ≤ time ∧ time < ρ.stored + scoreCacheTtlS

/-- The services and the score are of a round that the page made itself. -/
def Own (rounds : List Round) (r : Nat) (services : List ServiceHealth) (score time : ℚ) : Prop :=
  ∃ ρ ∈ rounds, ρ.request = r ∧ ρ.route = .health ∧ ρ.services = services ∧ ρ.score = score ∧ ρ.stored ≤ time

/-- What holds of a request by its state. -/
def CallOk (now : ℚ) (rounds : List Round) (r : Nat) : Call → Prop
  | .idle => True
  | .probing route begun probed => begun ≤ now ∧ InTurn probed begun now ∧ (route = .score → Quiet rounds begun)
  | .counting services score => Own rounds r services score now
  | .answered score time => Backed rounds score time
  | .responded response time => Own rounds r response.services response.overallHealthScore time

structure Inv (w : World) : Prop where
  calls : ∀ r, CallOk w.now w.rounds r (w.calls r)
  rounds : ∀ ρ ∈ w.rounds, ρ.probed.length = services.length ∧ ρ.begun ≤ ρ.stored ∧ ρ.stored ≤ w.now ∧
    InTurn ρ.probed ρ.begun ρ.stored ∧ (ρ.route = .score → Quiet w.rounds ρ.begun)
  cached : ∀ expires score, w.cachedScore = some (expires, score) →
    ∃ ρ ∈ w.rounds, ρ.score = score ∧ expires = ρ.stored + scoreCacheTtlS
  last : ∀ ρ ∈ w.rounds, ∃ expires score, w.cachedScore = some (expires, score) ∧
    ρ.stored + scoreCacheTtlS ≤ expires

variable {settings : Settings} {w w' : World} {a : Action} {probed : List Probed} {since till : ℚ}

/-! ## What a step does -/

inductive Step (settings : Settings) (w : World) : World → Prop
  | tick {seconds : ℚ} (h : 0 ≤ seconds) : Step settings w { w with now := w.now + seconds }
  | kept {r : Nat} {expires score : ℚ} (hcached : w.cachedScore = some (expires, score)) (h : w.now < expires) :
    Step settings w (w.set r (.answered score w.now))
  | begin {r : Nat} {route : Route}
      (h : route = .score → ∀ expires score, w.cachedScore = some (expires, score) → expires ≤ w.now) :
    Step settings w (w.set r (.probing route w.now []))
  | probe {r : Nat} {route : Route} {begun : ℚ} {probed : List Probed} {s : Service} {found : Found}
      (hcall : w.calls r = .probing route begun probed) (hs : services[probed.length]? = some s) :
    Step settings w (w.set r (.probing route begun (probed ++ [⟨settings.health s found, w.now⟩])))
  | store {r : Nat} {route : Route} {begun : ℚ} {probed : List Probed}
      (hcall : w.calls r = .probing route begun probed) (hlength : probed.length = services.length) :
    Step settings w
      { w.set r (route.scored (probed.map Probed.health) (score (probed.map Probed.health)) w.now) with
        cachedScore := some (w.now + scoreCacheTtlS, score (probed.map Probed.health))
        rounds := w.rounds ++ [⟨r, route, begun, probed, w.now⟩] }
  | count {r : Nat} {services : List ServiceHealth} {score : ℚ} {drones : DroneCount}
      (hcall : w.calls r = .counting services score) :
    Step settings w (w.set r (.responded ⟨services, drones.total, score, settings.containerCli⟩ w.now))

theorem fresh_eq_some {score : ℚ} (h : w.fresh = some score) :
    ∃ expires, w.cachedScore = some (expires, score) ∧ w.now < expires := by
  unfold World.fresh at h
  split at h
  · split at h
    · obtain rfl := Option.some.inj h
      exact ⟨_, ‹_›, ‹_›⟩
    · cases h
  · cases h

theorem fresh_eq_none (h : w.fresh = none) {expires score : ℚ} (hcached : w.cachedScore = some (expires, score)) :
    expires ≤ w.now := by
  rw [World.fresh, hcached] at h
  by_contra hlate
  simp [not_le.1 hlate] at h

theorem step_spec (h : step settings w a = some w') : Step settings w w' := by
  cases a with
  | tick seconds =>
    simp only [step] at h
    split at h
    · cases h
      exact .tick ‹_›
    · cases h
  | ask r route =>
    cases hcall : w.calls r with
    | idle =>
      cases route with
      | score =>
        cases hfresh : w.fresh with
        | none =>
          simp only [step, hcall, hfresh] at h
          cases h
          exact .begin fun _ _ _ => fresh_eq_none hfresh
        | some score =>
          simp only [step, hcall, hfresh] at h
          cases h
          obtain ⟨expires, hcached, hlate⟩ := fresh_eq_some hfresh
          exact .kept hcached hlate
      | health =>
        simp only [step, hcall] at h
        cases h
        exact .begin fun hroute => by cases hroute
    | probing | counting | answered | responded => simp [step, hcall] at h
  | probe r found =>
    cases hcall : w.calls r with
    | probing route begun probed =>
      simp only [step, hcall] at h
      obtain ⟨s, hs, rfl⟩ := Option.map_eq_some_iff.1 h
      exact .probe hcall hs
    | idle | counting | answered | responded => simp [step, hcall] at h
  | store r =>
    cases hcall : w.calls r with
    | probing route begun probed =>
      simp only [step, hcall] at h
      split at h
      · cases h
        exact .store hcall ‹_›
      · cases h
    | idle | counting | answered | responded => simp [step, hcall] at h
  | count r drones =>
    cases hcall : w.calls r with
    | counting services score =>
      simp only [step, hcall] at h
      cases h
      exact .count hcall
    | idle | probing | answered | responded => simp [step, hcall] at h

/-! ## What it keeps -/

theorem health_name (settings : Settings) (s : Service) (found : Found) :
    (settings.health s found).name = s.name := by
  cases s <;> rfl

theorem InTurn.later (h : InTurn probed since till) {till' : ℚ} (hle : till ≤ till') : InTurn probed since till' :=
  ⟨h.names, fun p hp => ⟨(h.times p hp).1, (h.times p hp).2.trans hle⟩⟩

theorem InTurn.next (h : InTurn probed since till) (hle : since ≤ till) {s : Service}
    (hs : services[probed.length]? = some s) (found : Found) :
    InTurn (probed ++ [⟨settings.health s found, till⟩]) since till := by
  constructor
  · rw [List.map_append, h.names, List.length_append, List.length_singleton, List.take_add_one, hs, List.map_append]
    simp [health_name]
  · intro p hp
    rcases List.mem_append.1 hp with hp | hp
    · exact h.times p hp
    · obtain rfl := List.mem_singleton.1 hp
      exact ⟨hle, le_rfl⟩

theorem Backed.mono {rounds more : List Round} {score time : ℚ} (h : Backed rounds score time) :
    Backed (rounds ++ more) score time := by
  obtain ⟨ρ, hρ, hbacked⟩ := h
  exact ⟨ρ, List.mem_append_left _ hρ, hbacked⟩

/-- A round that ends now is no reason against one that was begun before. -/
theorem Quiet.add {rounds : List Round} {begun : ℚ} (h : Quiet rounds begun) {ρ : Round} (hle : begun ≤ ρ.stored) :
    Quiet (rounds ++ [ρ]) begun := by
  intro σ hσ hlt
  rcases List.mem_append.1 hσ with hσ | hσ
  · exact h σ hσ hlt
  · obtain rfl := List.mem_singleton.1 hσ
    exact absurd hlt hle.not_gt

theorem Own.later {rounds : List Round} {r : Nat} {services : List ServiceHealth} {score time time' : ℚ}
    (h : Own rounds r services score time) (hle : time ≤ time') : Own rounds r services score time' := by
  obtain ⟨ρ, hρ, hr, hroute, hservices, hscore, hstored⟩ := h
  exact ⟨ρ, hρ, hr, hroute, hservices, hscore, hstored.trans hle⟩

theorem Own.mono {rounds more : List Round} {r : Nat} {services : List ServiceHealth} {score time : ℚ}
    (h : Own rounds r services score time) : Own (rounds ++ more) r services score time := by
  obtain ⟨ρ, hρ, hown⟩ := h
  exact ⟨ρ, List.mem_append_left _ hρ, hown⟩

theorem CallOk.later {now now' : ℚ} {rounds : List Round} {r : Nat} {call : Call} (h : CallOk now rounds r call)
    (hle : now ≤ now') : CallOk now' rounds r call := by
  cases call with
  | probing route begun probed =>
    obtain ⟨hbegun, hturn, hquiet⟩ := h
    exact ⟨hbegun.trans hle, hturn.later hle, hquiet⟩
  | counting services score => exact Own.later h hle
  | idle | answered | responded => exact h

theorem CallOk.add {now : ℚ} {rounds : List Round} {r : Nat} {call : Call} (h : CallOk now rounds r call) {ρ : Round}
    (hle : now ≤ ρ.stored) : CallOk now (rounds ++ [ρ]) r call := by
  cases call with
  | idle => trivial
  | probing route begun probed =>
    obtain ⟨hbegun, hturn, hquiet⟩ := h
    exact ⟨hbegun, hturn, fun hroute => (hquiet hroute).add (hbegun.trans hle)⟩
  | answered score time => exact Backed.mono h
  | counting | responded => exact Own.mono h

theorem inv_init : Inv init where
  calls _ := trivial
  rounds _ h := by cases h
  cached _ _ h := by cases h
  last _ h := by cases h

theorem Inv.set (hw : Inv w) {r : Nat} {call : Call} (h : CallOk w.now w.rounds r call) : Inv (w.set r call) := by
  refine ⟨fun r' => ?_, hw.rounds, hw.cached, hw.last⟩
  change CallOk w.now w.rounds r' (Function.update w.calls r call r')
  rw [Function.update_apply]
  split
  · subst r'
    exact h
  · exact hw.calls r'

/-- A request that is done with its probes keeps its score. -/
theorem Inv.store (hw : Inv w) {r : Nat} {route : Route} {begun : ℚ} (hcall : w.calls r = .probing route begun probed)
    (hlength : probed.length = services.length) :
    Inv { w with
      cachedScore := some (w.now + scoreCacheTtlS, score (probed.map Probed.health))
      rounds := w.rounds ++ [⟨r, route, begun, probed, w.now⟩] } := by
  have hprobing := hw.calls r
  rw [hcall] at hprobing
  obtain ⟨hbegun, hturn, hquiet⟩ := hprobing
  refine ⟨fun r' => (hw.calls r').add le_rfl, fun ρ hρ => ?_, ?_, fun ρ hρ => ?_⟩
  · rcases List.mem_append.1 hρ with hρ | hρ
    · obtain ⟨hlength, hbegun, hstored, hturn, hquiet⟩ := hw.rounds ρ hρ
      exact ⟨hlength, hbegun, hstored, hturn, fun hroute => (hquiet hroute).add (hbegun.trans hstored)⟩
    · obtain rfl := List.mem_singleton.1 hρ
      exact ⟨hlength, hbegun, le_rfl, hturn, fun hroute => (hquiet hroute).add hbegun⟩
  · intro expires score hcached
    cases hcached
    exact ⟨_, List.mem_append_right _ List.mem_cons_self, rfl, rfl⟩
  -- The round that is stored ends last, so the cache is kept ten seconds past all of them.
  · refine ⟨_, _, rfl, add_le_add_left ?_ _⟩
    rcases List.mem_append.1 hρ with hρ | hρ
    · exact (hw.rounds ρ hρ).2.2.1
    · obtain rfl := List.mem_singleton.1 hρ
      exact le_rfl

theorem Inv.step (hw : Inv w) (h : Step settings w w') : Inv w' := by
  cases h with
  | tick h =>
    have hlater : w.now ≤ w.now + _ := le_add_of_nonneg_right h
    refine ⟨fun r => (hw.calls r).later hlater, fun ρ hρ => ?_, hw.cached, hw.last⟩
    obtain ⟨hlength, hbegun, hstored, hrest⟩ := hw.rounds ρ hρ
    exact ⟨hlength, hbegun, hstored.trans hlater, hrest⟩
  | kept hcached h =>
    -- The score in the cache is that of the round that put it there.
    obtain ⟨ρ, hρ, hscore, rfl⟩ := hw.cached _ _ hcached
    exact hw.set ⟨ρ, hρ, hscore, (hw.rounds ρ hρ).2.2.1, h⟩
  | begin h =>
    refine hw.set ⟨le_rfl, ⟨rfl, fun _ hp => by cases hp⟩, fun hroute σ hσ _ => ?_⟩
    -- A poll begins a round only once the cache is over, ten seconds after every round at least.
    obtain ⟨expires, score, hcached, hle⟩ := hw.last σ hσ
    exact hle.trans (h hroute expires score hcached)
  | @probe r route begun probed s found hcall hs =>
    have hprobing := hw.calls r
    rw [hcall] at hprobing
    obtain ⟨hbegun, hturn, hquiet⟩ := hprobing
    exact hw.set ⟨hbegun, hturn.next hbegun hs found, hquiet⟩
  | @store r route begun probed hcall hlength =>
    have hmem : (⟨r, route, begun, probed, w.now⟩ : Round) ∈ w.rounds ++ [⟨r, route, begun, probed, w.now⟩] :=
      List.mem_append_right _ List.mem_cons_self
    apply (hw.store hcall hlength).set
    cases route with
    | score => exact ⟨_, hmem, rfl, le_rfl, lt_add_of_pos_right _ (by decide)⟩
    | health => exact ⟨_, hmem, rfl, rfl, rfl, rfl, le_rfl⟩
  | @count r services score drones hcall =>
    have hcounting := hw.calls r
    rw [hcall] at hcounting
    exact hw.set hcounting

/-! ## The score -/

/-- Of a count out of six. -/
theorem round3_sixths : ∀ c < 7, 0 ≤ round3 ((c : Nat) / (6 : Nat)) ∧ round3 ((c : Nat) / (6 : Nat)) ≤ 1 ∧
    (round3 ((c : Nat) / (6 : Nat)) = 1 ↔ c = 6) := by
  decide +kernel

theorem score_one {ρ : Round} (hlength : ρ.probed.length = services.length) :
    0 ≤ ρ.score ∧ ρ.score ≤ 1 ∧ (ρ.score = 1 ↔ ∀ p ∈ ρ.probed, p.health.status = .up) := by
  have hsix : ρ.services.length = 6 := by
    rw [Round.services, List.length_map, hlength]
    rfl
  have hne : ρ.services.isEmpty = false := by
    rw [← Bool.not_eq_true, List.isEmpty_iff_length_eq_zero, hsix]
    decide
  have hcount : ρ.services.countP (fun s => s.status = .up) ≤ 6 :=
    List.countP_le_length.trans hsix.le
  have hall : ρ.services.countP (fun s => s.status = .up) = 6 ↔
      ∀ p ∈ ρ.probed, p.health.status = .up := by
    rw [← hsix, List.countP_eq_length, Round.services, List.forall_mem_map]
    simp only [decide_eq_true_iff]
  rw [Round.score, score, hne, if_neg Bool.false_ne_true, hsix, ← hall]
  exact round3_sixths _ (Nat.lt_succ_of_le hcount)

/-- A poll's score is of a round within the last ten seconds and a page's of its own, every round is of each
service in turn and says how many are up, and no poll begins one within ten seconds of another. -/
structure Fresh (w : World) : Prop where
  answered : ∀ r score time, w.calls r = .answered score time → Backed w.rounds score time
  responded : ∀ r response time, w.calls r = .responded response time →
    Own w.rounds r response.services response.overallHealthScore time
  names : ∀ ρ ∈ w.rounds, ρ.probed.map (·.health.name) = services.map Service.name
  times : ∀ ρ ∈ w.rounds, ∀ p ∈ ρ.probed, ρ.begun ≤ p.time ∧ p.time ≤ ρ.stored
  score : ∀ ρ ∈ w.rounds, 0 ≤ ρ.score ∧ ρ.score ≤ 1 ∧ (ρ.score = 1 ↔ ∀ p ∈ ρ.probed, p.health.status = .up)
  quiet : ∀ ρ ∈ w.rounds, ρ.route = .score → Quiet w.rounds ρ.begun

theorem Inv.fresh (hw : Inv w) : Fresh w where
  answered r score time hcall := by
    have hanswered := hw.calls r
    rwa [hcall] at hanswered
  responded r response time hcall := by
    have hresponded := hw.calls r
    rwa [hcall] at hresponded
  names ρ hρ := by
    obtain ⟨hlength, -, -, hturn, -⟩ := hw.rounds ρ hρ
    rw [hturn.names, hlength]
    rfl
  times ρ hρ := (hw.rounds ρ hρ).2.2.2.1.times
  score ρ hρ := score_one (hw.rounds ρ hρ).1
  quiet ρ hρ := (hw.rounds ρ hρ).2.2.2.2

/-- However many polls and pages there are, however their probes and the clock are interleaved, and however
long a page counts. -/
theorem score_fresh (settings : Settings) (as : List Action) : Always (step settings) Fresh init as :=
  always_of_inv (I := Inv) (fun _ _ _ hw h => hw.step (step_spec h)) (fun _ hw => hw.fresh) inv_init as

end HtapStack.Health
