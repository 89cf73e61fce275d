import HtapStack.Compare.InFlight
import HtapStack.Compare.PostNdjson
import Mathlib.Logic.Function.Basic
/-!
# The comparison panel

`ComparePanel` of `frontend/src/pages/Explore.tsx`: what the watcher selects, the run
that is asked for, and the cards that are shown of it. A run made one at a time reads
the lines of `stream_benchmark` through `postNdjson`, and the watcher goes on selecting
between any two of them.

`comparison_shown`: the paths asked for are those selected, in the order of the preset,
and the backend takes them so. However the reply is cut, while its lines arrive the
cards keep their places: an answer takes the place of its own pending card, with the
result that the backend dumped. At the end, and after a failure, the cards are of the
paths that answered. `together_shown`: the same of a run made all at once.

Left out: the texts of the presets and their windows, and what a card says.
-/

namespace HtapStack.ComparePanel
open Compare NdJson PostNdjson Py
open Js (Json Units)

/-! ## The backend -/

/-- The keys of `ENGINES`. -/
def key : Engine → Text
  | .cassandra => "cassandra".toList
  | .presto => "presto".toList
  | .spark => "spark".toList
  | .sparkBulk => "spark_bulk".toList
  | .cqlite => "cqlite".toList

def engines : List Engine := [.cassandra, .presto, .spark, .sparkBulk, .cqlite]

def ofKey (name : Text) : Option Engine := engines.find? fun e => key e = name

/-- `_requested_engines`, or the detail of its 400. -/
def requestedEngines (names : Option (List Text)) (keepOrder : Bool) : Except Text (List Engine) :=
  match names with
  | none => .ok engines
  | some names =>
    let unknown := names.filter fun name => (ofKey name).isNone
    if unknown ≠ [] then .error ("Unknown engine(s): ".toList ++ join ", ".toList unknown)
    else
      let chosen :=
        if keepOrder then (names.filterMap ofKey).eraseDups else engines.filter fun e => names.contains (key e)
      if chosen = [] then .error "Choose at least one engine to compare".toList else .ok chosen

/-- What a run comes upon: the reference read, what each path answers, and the cancel flag as it is read before
the path at each place and for the last line. -/
structure Run (F : Type) where
  baseline : Option (OltpImpact F)
  result : Engine → EngineResult F
  cancelRequested : Nat → Bool
  cancelled : Bool

variable {F : Type}

/-- The paths of `_run_sequence` that are run, of those from the place `i` on. -/
def Run.sequence (r : Run F) (i : Nat) : List Engine → List Engine
  | [] => []
  | engine :: engines => if r.cancelRequested i then [] else engine :: r.sequence (i + 1) engines

def Run.message (r : Run F) (engine : Engine) : Message F := .engine (key engine) (r.result engine)

/-- What `lines()` of `stream_benchmark` yields the lines of. -/
def Run.messages (r : Run F) (engines : List Engine) (statement : Text) : List (Message F) :=
  [.start (engines.map key) statement, .baseline r.baseline] ++ (r.sequence 0 engines).map r.message ++
    [.done r.cancelled]

/-- What `run_benchmark` answers with when the paths have run all at once. -/
def Run.whole (r : Run F) (combined : Option (OltpImpact F)) (engines : List Engine) : Obj F :=
  let result (e : Engine) := NdJson.optional EngineResult.modelDump (if e ∈ engines then some (r.result e) else none)
  record [("cassandra", result .cassandra), ("presto", result .presto), ("spark", result .spark),
    ("spark_bulk", result .sparkBulk), ("cqlite", result .cqlite), ("mode", .str "parallel".toList),
    ("oltp_baseline", NdJson.optional OltpImpact.modelDump r.baseline),
    ("oltp_combined", NdJson.optional OltpImpact.modelDump combined), ("cancelled", .bool r.cancelled)]

/-! ## The page -/

structure Preset where
  key : String
  cqlDecline : Option String
  order : List Engine

def noGroupByInCql : String :=
  "CQL groups only by primary-key columns, and event_type is not one, " ++
    "so Cassandra declines this statement rather than answering it"

/-- `COMPARE_PRESETS`. -/
def comparePresets : List Preset :=
  [⟨"latest", none, [.cassandra, .cqlite, .presto, .spark, .sparkBulk]⟩,
    ⟨"group", some noGroupByInCql, [.cassandra, .cqlite, .presto, .spark, .sparkBulk]⟩,
    ⟨"window", some noGroupByInCql, [.cassandra, .presto, .spark, .sparkBulk, .cqlite]⟩,
    ⟨"history", some noGroupByInCql, [.cassandra, .presto, .spark, .sparkBulk, .cqlite]⟩]

/-- `DEFAULT_RUN_ORDER`. -/
def defaultRunOrder : List Engine := [.cassandra, .cqlite, .presto, .spark, .sparkBulk]

/-- An object, by the names of its members. -/
abbrev Results (N : Type) := Units → Option (Json N)

structure Panel (N : Type) where
  preset : String
  sql : Text
  edited : Bool
  chosen : List Engine
  mode : Mode
  reuseSnapshot : Bool
  error : Option Units
  results : Option (Results N)
  pending : Bool
  runOrder : List Engine
  answered : List Units

variable {N : Type}

def name (k : String) : Units := Json.units k.toList

/-- `x[k]`, and `x.k`. -/
def property (k : Units) : Json N → Option (Json N)
  | .obj es => es.lookup k
  | _ => none

def member (k : String) (x : Json N) : Option (Json N) := property (name k) x

def keyUnits (e : Engine) : Units := Json.units (key e)

def Mode.text : Mode → Units
  | .sequential => name "sequential"
  | .parallel => name "parallel"

/-- `Boolean(x)`, with the numbers that are false. -/
def truthy (zero : N → Bool) : Json N → Bool
  | .null => false
  | .bool b => b
  | .num x => !zero x
  | .str s => s ≠ []
  | .arr _ | .obj _ => true

namespace Panel

def initial (sql : Text) : Panel N :=
  ⟨"latest", sql, false, engines, .sequential, false, none, none, false, [], []⟩

def presetOf (p : Panel N) : Option Preset := comparePresets.find? fun option => option.key = p.preset

def cqlDecline (p : Panel N) : Option String := if p.edited then none else p.presetOf.bind (·.cqlDecline)

/-- The paths that a run asks. -/
def asking (p : Panel N) : List Engine :=
  if p.cqlDecline.isSome then p.chosen.filter (· != .cassandra) else p.chosen

/-- `orderFor(preset, asking)`. -/
def order (p : Panel N) : List Engine :=
  (p.presetOf.elim defaultRunOrder (·.order)).filter (· ∈ p.asking)

/-- `start`, up to the request. -/
def start (p : Panel N) : Panel N :=
  { p with
    error := none
    answered := []
    runOrder := p.order
    pending := true
    results := some (Function.update (fun _ => none) (name "mode") (some (.str (Mode.text p.mode)))) }

/-- `{ ...(current ?? {}), mode: 'sequential', [k]: value }`. -/
def withResult (p : Panel N) (k : Units) (value : Option (Json N)) : Results N :=
  Function.update
    (Function.update (p.results.getD fun _ => none) (name "mode") (some (.str (Mode.text .sequential)))) k value

/-- What `start` does with a line. -/
def onLine (p : Panel N) (line : Json N) : Panel N :=
  match member "event" line, member "engine" line with
  | some (.str event), engine =>
    if event = name "baseline" then
      { p with results := some (p.withResult (name "oltp_baseline") (member "oltp_baseline" line)) }
    else
      match engine with
      | some (.str engine) =>
        if event = name "engine" then
          { p with
            results := some (p.withResult engine (member "result" line))
            answered := p.answered ++ [engine] }
        else p
      | _ => p
  | _, _ => p

/-- With the body of a run made all at once. -/
def onBody (p : Panel N) (body : Json N) : Panel N :=
  { p with
    results := some fun k => property k body
    answered := p.runOrder.map keyUnits
    pending := false }

def toggle (p : Panel N) (engine : Engine) : Panel N :=
  { p with
    chosen :=
      if engine ∈ p.chosen then
        if 1 < p.chosen.length then p.chosen.filter (· != engine) else p.chosen
      else p.chosen ++ [engine] }

end Panel

/-- What happens to the panel: the watcher's clicks and keystrokes, and what comes of a run. A click on what is
disabled is nothing. -/
inductive Action (N : Type) where
  /-- A preset, with its statement once that is known. -/
  | pick (option : Preset) (statement : Option Text)
  | edit (sql : Text)
  | toggle (engine : Engine)
  | setMode (mode : Mode)
  | setReuseSnapshot (reuse : Bool)
  | start
  | line (line : Json N)
  | body (body : Json N)
  | failed (message : Units)
  | settled

def Panel.act (p : Panel N) : Action N → Panel N
  | .pick option statement =>
    match statement with
    | none => p
    | some sql => { p with preset := option.key, sql := sql, edited := false }
  | .edit sql => { p with sql := sql, edited := true }
  | .toggle engine => if engine = .cassandra ∧ p.cqlDecline.isSome then p else p.toggle engine
  | .setMode mode => { p with mode := mode }
  | .setReuseSnapshot reuse => { p with reuseSnapshot := reuse }
  | .start => if p.pending ∨ p.asking = [] then p else p.start
  | .line line => p.onLine line
  | .body body => p.onBody body
  | .failed message => { p with error := some message, runOrder := [], pending := false }
  | .settled => { p with pending := false }

def Panel.acts (p : Panel N) (as : List (Action N)) : Panel N := as.foldl Panel.act p

inductive Card (N : Type) where
  | result (engine : Engine) (result : Option (Json N))
  | pending (engine : Engine) (running : Bool)

section
variable (zero : N → Bool) (p : Panel N)

/-- `results?.[engine.key]`. -/
def Panel.resultOf (e : Engine) : Option (Json N) := p.results.bind fun r => r (keyUnits e)

def Panel.has (e : Engine) : Bool := (p.resultOf e).elim false (truthy zero)

def Panel.ranInParallel : Bool :=
  match p.results.bind fun r => r (name "mode") with
  | some (.str mode) => mode = Mode.text .parallel
  | _ => false

def Panel.shown : List Engine :=
  ((if p.ranInParallel then (engines.filter (p.has zero)).map keyUnits else p.answered).filterMap fun k =>
    engines.find? fun e => keyUnits e = k).filter (p.has zero)

def Panel.waiting : List Engine :=
  if p.pending then p.runOrder.filter fun e => !p.answered.contains (keyUnits e) else []

/-- The cards of the paths that have still to answer, the first of which is the one working. -/
def pendingCards (waiting : List Engine) : List (Card N) := waiting.mapIdx fun i e => .pending e (i == 0)

def Panel.cards : List (Card N) :=
  if p.results.isSome then (p.shown zero).map (fun e => .result e (p.resultOf e)) ++ pendingCards p.waiting else []

end

/-! ## What is asked -/

theorem ofKey_key (e : Engine) : ofKey (key e) = some e := by cases e <;> rfl

theorem key_inj {e e' : Engine} (h : key e = key e') : e = e' := by
  have hkeys := congrArg ofKey h
  rw [ofKey_key, ofKey_key] at hkeys
  exact Option.some.inj hkeys

theorem eraseDups_of_nodup {α : Type} [BEq α] [LawfulBEq α] {l : List α} (h : l.Nodup) : l.eraseDups = l := by
  induction l with
  | nil => rfl
  | cons a l ih =>
    obtain ⟨ha, hl⟩ := List.nodup_cons.1 h
    have hfilter : l.filter (fun b => !b == a) = l := by
      refine List.filter_eq_self.2 fun b hb => ?_
      rw [Bool.not_eq_true', beq_eq_false_iff_ne]
      rintro rfl
      exact ha hb
    rw [List.eraseDups_cons, hfilter, ih hl]

theorem known_keys (es : List Engine) : (es.map key).filter (fun name => (ofKey name).isNone) = [] := by
  refine List.filter_eq_nil_iff.2 fun name hname => ?_
  obtain ⟨e, -, rfl⟩ := List.mem_map.1 hname
  rw [ofKey_key]
  exact Bool.false_ne_true

/-- Paths that are asked for once each are taken in their order. -/
theorem requestedEngines_keys {es : List Engine} (h : es.Nodup) (hne : es ≠ []) :
    requestedEngines (some (es.map key)) true = .ok es := by
  have hchosen : ((es.map key).filterMap ofKey).eraseDups = es := by
    rw [List.filterMap_map, (funext ofKey_key : ofKey ∘ key = some), List.filterMap_some, eraseDups_of_nodup h]
  rw [requestedEngines]
  simp only [known_keys, ne_eq, not_true_eq_false, if_false, if_true, hchosen, hne]

section
variable {p : Panel N}

/-- What the watcher can make of a panel, with or without runs in between. -/
def Reached (p : Panel N) : Prop := ∃ sql as, p = (Panel.initial sql).acts as

structure Selected (p : Panel N) : Prop where
  nodup : p.chosen.Nodup
  ne_nil : p.chosen ≠ []

theorem Selected.toggle (h : Selected p) (e : Engine) : Selected (p.toggle e) := by
  unfold Panel.toggle
  constructor
  · dsimp only
    split
    · split
      · exact h.nodup.filter _
      · exact h.nodup
    · rename_i hnew
      exact h.nodup.append (List.nodup_singleton e) (List.disjoint_singleton.2 hnew)
  · dsimp only
    split
    · rename_i hmem
      split
      · rename_i hlong
        intro hnil
        have hleft : (p.chosen.erase e).length = 0 := by
          rw [h.nodup.erase_eq_filter]
          exact congrArg List.length hnil
        rw [List.length_erase_of_mem hmem] at hleft
        omega
      · exact h.ne_nil
    · exact List.append_ne_nil_of_right_ne_nil _ (List.cons_ne_nil _ _)

theorem selected_act (h : Selected p) (a : Action N) : Selected (p.act a) := by
  have hkeep {q : Panel N} (hq : q.chosen = p.chosen) : Selected q := ⟨hq ▸ h.nodup, hq ▸ h.ne_nil⟩
  cases a with
  | pick option statement =>
    cases statement with
    | none => exact h
    | some sql => exact hkeep rfl
  | toggle e =>
    rw [Panel.act]
    split
    · exact h
    · exact h.toggle e
  | start =>
    rw [Panel.act]
    split
    · exact h
    · exact hkeep rfl
  | line line =>
    refine hkeep ?_
    rw [Panel.act, Panel.onLine]
    repeat' split
    all_goals rfl
  | edit | setMode | setReuseSnapshot | body | failed | settled => exact hkeep rfl

theorem selected_of_reached (h : Reached p) : Selected p := by
  obtain ⟨sql, as, rfl⟩ := h
  have hall (q : Panel N) (hq : Selected q) : Selected (q.acts as) := by
    induction as generalizing q with
    | nil => exact hq
    | cons a as ih => exact ih _ (selected_act hq a)
  exact hall _ ⟨(by decide : engines.Nodup), (by decide : engines ≠ [])⟩

/-- Nothing is left to ask in one state alone. -/
theorem asking_eq_nil_iff (h : Selected p) :
    p.asking = [] ↔ p.chosen = [.cassandra] ∧ p.cqlDecline.isSome = true := by
  unfold Panel.asking
  by_cases hdecline : p.cqlDecline.isSome = true
  · rw [if_pos hdecline, and_iff_left hdecline, List.filter_eq_nil_iff]
    constructor
    · intro hall
      have hrep : p.chosen = List.replicate p.chosen.length .cassandra :=
        List.eq_replicate_of_mem fun e he => by simpa using hall e he
      have hlong := List.length_pos_iff.2 h.ne_nil
      have hshort := List.nodup_replicate.1 (hrep ▸ h.nodup)
      rw [hrep, (by omega : p.chosen.length = 1)]
      rfl
    · intro hone e he
      rw [hone, List.mem_singleton] at he
      subst he
      decide
  · rw [if_neg hdecline]
    simp [hdecline, h.ne_nil]

theorem orders_complete : ∀ order ∈ defaultRunOrder :: comparePresets.map Preset.order,
    order.Nodup ∧ ∀ e, e ∈ order := by
  have hall : ∀ order ∈ defaultRunOrder :: comparePresets.map Preset.order,
      order.Nodup ∧ ∀ e ∈ engines, e ∈ order := by decide
  refine fun order horder => ⟨(hall order horder).1, fun e => (hall order horder).2 e ?_⟩
  cases e <;> decide

/-- The order that a run has is one of the paths that it asks. -/
theorem order_perm (h : Selected p) : p.order.Nodup ∧ p.order.Perm p.asking := by
  have horder : p.presetOf.elim defaultRunOrder (·.order) ∈ defaultRunOrder :: comparePresets.map Preset.order := by
    cases hpreset : p.presetOf with
    | none => exact List.mem_cons_self
    | some option => exact List.mem_cons_of_mem _ (List.mem_map_of_mem (List.mem_of_find?_eq_some hpreset))
  obtain ⟨hnodup, hmem⟩ := orders_complete _ horder
  have hasking : p.asking.Nodup := by
    unfold Panel.asking
    split
    · exact h.nodup.filter _
    · exact h.nodup
  refine ⟨hnodup.filter _, (List.perm_ext_iff_of_nodup (hnodup.filter _) hasking).2 fun e => ?_⟩
  rw [List.mem_filter, decide_eq_true_iff]
  exact and_iff_right (hmem e)

end

/-! ## What is shown -/

theorem keyUnits_inj {e e' : Engine} : keyUnits e = keyUnits e' ↔ e = e' :=
  ⟨fun h => key_inj (Json.units_inj h), congrArg keyUnits⟩

theorem find_keyUnits (e : Engine) : (engines.find? fun e' => keyUnits e' = keyUnits e) = some e := by
  simp only [keyUnits_inj]
  cases e <;> rfl

theorem keyUnits_ne {e : Engine} {k : String} (h : k ∈ ["mode", "oltp_baseline"]) : keyUnits e ≠ name k := by
  intro hkey
  have hkey : key e = k.toList := Json.units_inj hkey
  simp only [List.mem_cons, List.not_mem_nil, or_false] at h
  rcases h with rfl | rfl <;> cases e <;> exact absurd hkey (by decide)

/-- The answers that a panel has, of a run that is made one at a time. -/
structure Shows (p : Panel N) (answers : List (Engine × Json N)) : Prop where
  answered : p.answered = answers.map fun a => keyUnits a.1
  mode : (p.results.bind fun r => r (name "mode")) = some (.str (Mode.text .sequential))
  results : ∀ a ∈ answers, p.resultOf a.1 = some a.2
  objects : ∀ a ∈ answers, ∃ es, a.2 = .obj es

section
variable {p : Panel N} {answers : List (Engine × Json N)} {zero : N → Bool}

theorem Shows.shown (h : Shows p answers) : p.shown zero = answers.map Prod.fst := by
  have hmode : p.ranInParallel = false := by
    have hne : Mode.text .sequential ≠ Mode.text .parallel := by decide
    rw [Panel.ranInParallel, h.mode]
    exact decide_eq_false hne
  have hfound : (answers.map fun a => keyUnits a.1).filterMap (fun k => engines.find? fun e => keyUnits e = k) =
      answers.map Prod.fst := by
    rw [List.filterMap_map, ← List.filterMap_eq_map]
    exact List.filterMap_congr fun a _ => find_keyUnits a.1
  unfold Panel.shown
  rw [hmode, h.answered, if_neg Bool.false_ne_true, hfound, List.filter_eq_self]
  intro e he
  obtain ⟨a, ha, rfl⟩ := List.mem_map.1 he
  obtain ⟨es, hes⟩ := h.objects a ha
  rw [Panel.has, h.results a ha, hes]
  rfl

theorem Shows.cards (h : Shows p answers) :
    p.cards zero = answers.map (fun a => .result a.1 (some a.2)) ++ pendingCards p.waiting := by
  have hresults : p.results.isSome = true := by
    cases hr : p.results with
    | none =>
      have hmode := h.mode
      rw [hr] at hmode
      cases hmode
    | some r => rfl
  unfold Panel.cards
  rw [if_pos hresults, h.shown, List.map_map]
  congr 1
  refine List.map_congr_left fun a ha => ?_
  rw [Function.comp_apply, h.results a ha]

/-- The paths that are waited for are those after the ones that answered. -/
theorem Shows.waiting (h : Shows p answers) (hpending : p.pending = true) (hnodup : p.runOrder.Nodup)
    (hkeys : answers.map Prod.fst <+: p.runOrder) : p.waiting = p.runOrder.drop answers.length := by
  obtain ⟨rest, hrest⟩ := hkeys
  have hlength : answers.length = (answers.map Prod.fst).length := (List.length_map _).symm
  unfold Panel.waiting
  rw [if_pos hpending, h.answered]
  rw [← hrest] at hnodup ⊢
  obtain ⟨-, -, hapart⟩ := List.nodup_append.1 hnodup
  rw [hlength, List.drop_left, List.filter_append]
  have hgone : (answers.map Prod.fst).filter (fun e => !(answers.map fun a => keyUnits a.1).contains (keyUnits e)) =
      [] := by
    refine List.filter_eq_nil_iff.2 fun e he => ?_
    obtain ⟨a, ha, rfl⟩ := List.mem_map.1 he
    rw [List.contains_iff_mem.2 (List.mem_map.2 ⟨a, ha, rfl⟩)]
    exact Bool.false_ne_true
  have hleft : rest.filter (fun e => !(answers.map fun a => keyUnits a.1).contains (keyUnits e)) = rest := by
    refine List.filter_eq_self.2 fun e he => ?_
    rw [Bool.not_eq_true', ← Bool.not_eq_true, List.contains_iff_mem]
    intro hmem
    obtain ⟨a, ha, hkey⟩ := List.mem_map.1 hmem
    exact hapart _ (List.mem_map_of_mem ha) _ he (keyUnits_inj.1 hkey)
  rw [hgone, hleft, List.nil_append]

end

/-! ## What the lines do -/

/-- A card with an answer of the run. -/
def Run.answer (r : Run F) (D : FloatReprs F) (e : Engine) : Engine × Json F := (e, (r.result e).modelDump.toJson D)

/-- The path that a message is the answer of. -/
def toldBy : Message F → Option Engine
  | .engine name _ => ofKey name
  | _ => none

section
variable {D : FloatReprs F}

theorem member_record (k : String) (es : List (String × Obj F)) :
    member k ((record es).toJson D) = (es.lookup k).map (·.toJson D) := by
  rw [record, Obj.toJson, member, property]
  induction es with
  | nil => rfl
  | cons e es ih =>
    have hkey : (name k == (Key.str e.1.toList : Key F).units D) = (k == e.1) := by
      rw [Bool.eq_iff_iff, beq_iff_eq, beq_iff_eq]
      exact ⟨fun h => String.toList_inj.1 (Json.units_inj h), congrArg name⟩
    rw [List.map_cons, List.map_cons, List.lookup_cons, List.lookup_cons, hkey]
    cases k == e.1 with
    | true => rfl
    | false => exact ih

/-- The name of a line's event. -/
def event : Message F → String
  | .start .. => "start"
  | .baseline _ => "baseline"
  | .engine .. => "engine"
  | .done _ => "done"

theorem toJson_str (s : Text) : (Obj.str s).toJson D = .str (Json.units s) := by rw [Obj.toJson]

theorem member_event (m : Message F) : member "event" (m.payload.toJson D) = some (.str (name (event m))) := by
  cases m <;> exact (member_record ..).trans (congrArg some (toJson_str _))

theorem name_ne {k k' : String} (h : k ≠ k') : name k ≠ name k' := fun hname =>
  h (String.toList_inj.1 (Json.units_inj hname))

variable {p : Panel F} {answers : List (Engine × Json F)}

theorem withResult_mode {k : Units} (hk : name "mode" ≠ k) (value : Option (Json F)) :
    p.withResult k value (name "mode") = some (.str (Mode.text .sequential)) := by
  unfold Panel.withResult
  rw [Function.update_of_ne hk, Function.update_self]

theorem withResult_key (e : Engine) (k : Units) (value : Option (Json F)) :
    p.withResult k value (keyUnits e) = if keyUnits e = k then value else p.resultOf e := by
  unfold Panel.withResult
  by_cases hk : keyUnits e = k
  · rw [hk, Function.update_self, if_pos rfl]
  · rw [Function.update_of_ne hk, Function.update_of_ne (keyUnits_ne (by decide)), if_neg hk, Panel.resultOf]
    cases p.results <;> rfl

theorem onLine_silent {m : Message F} (hm : event m = "start" ∨ event m = "done") :
    p.onLine (m.payload.toJson D) = p := by
  have hengine : member "engine" (m.payload.toJson D) = none := by
    cases m with
    | start | done => exact member_record ..
    | baseline | engine => simp [event] at hm
  have hne : event m ≠ "baseline" := by
    rcases hm with hm | hm <;> rw [hm] <;> decide
  rw [Panel.onLine, member_event, hengine]
  exact if_neg (name_ne hne)

theorem onLine_baseline (impact : Option (OltpImpact F)) : ∃ value,
    p.onLine ((Message.baseline impact).payload.toJson D) =
      { p with results := some (p.withResult (name "oltp_baseline") value) } := by
  refine ⟨member "oltp_baseline" ((Message.baseline impact).payload.toJson D), ?_⟩
  rw [Panel.onLine, member_event]
  exact if_pos rfl

theorem onLine_answer (r : Run F) (e : Engine) : p.onLine ((r.message e).payload.toJson D) =
    { p with
      results := some (p.withResult (keyUnits e) (some (r.answer D e).2))
      answered := p.answered ++ [keyUnits e] } := by
  have hengine : member "engine" ((r.message e).payload.toJson D) = some (.str (keyUnits e)) :=
    (member_record ..).trans (congrArg some (toJson_str _))
  have hresult : member "result" ((r.message e).payload.toJson D) = some (r.answer D e).2 := member_record ..
  rw [Panel.onLine, member_event, hengine, hresult]
  refine (if_neg (name_ne (by decide : "engine" ≠ "baseline"))).trans ?_
  exact if_pos rfl

theorem Shows.baseline (h : Shows p answers) (value : Option (Json F)) :
    Shows { p with results := some (p.withResult (name "oltp_baseline") value) } answers where
  answered := h.answered
  mode := withResult_mode (name_ne (by decide)) value
  results a ha := by
    refine (withResult_key a.1 _ value).trans ?_
    rw [if_neg (keyUnits_ne (by decide)), h.results a ha]
  objects := h.objects

theorem answer_object (r : Run F) (D : FloatReprs F) (e : Engine) : ∃ es, (r.answer D e).2 = .obj es :=
  ⟨_, by rw [Run.answer, EngineResult.modelDump, record, Obj.toJson]⟩

/-- An answer more, of a path that had not answered. -/
theorem Shows.answer (h : Shows p answers) (r : Run F) {e : Engine} (hnew : e ∉ answers.map Prod.fst) :
    Shows (p.onLine ((r.message e).payload.toJson D)) (answers ++ [r.answer D e]) := by
  rw [onLine_answer]
  refine ⟨?_, withResult_mode (keyUnits_ne (by decide)).symm _, ?_, ?_⟩
  · rw [List.map_append, ← h.answered]
    rfl
  · intro a ha
    refine (withResult_key a.1 _ _).trans ?_
    rcases List.mem_append.1 ha with ha | ha
    · have hne : a.1 ≠ e := fun hae => hnew (hae ▸ List.mem_map_of_mem ha)
      rw [if_neg (fun hk => hne (keyUnits_inj.1 hk)), h.results a ha]
    · obtain rfl := List.mem_singleton.1 ha
      exact if_pos rfl
  · intro a ha
    rcases List.mem_append.1 ha with ha | ha
    · exact h.objects a ha
    · obtain rfl := List.mem_singleton.1 ha
      exact answer_object r D e

end

/-! ## While a run goes on -/

/-- What the watcher does, but for a run. -/
def Action.isWatch : Action N → Bool
  | .pick .. | .edit _ | .toggle _ | .setMode _ | .setReuseSnapshot _ => true
  | _ => false

/-- Anything but the end of a run. -/
def Action.isMeanwhile : Action N → Bool
  | .body _ | .failed _ | .settled => false
  | _ => true

def Action.lineOf : Action N → Option (Json N)
  | .line said => some said
  | _ => none

def lines (as : List (Action N)) : List (Json N) := as.filterMap Action.lineOf

def isAnswer (line : Json N) : Bool :=
  match member "event" line with
  | some (.str event) => event = name "engine"
  | _ => false

structure Running (p : Panel N) (order : List Engine) (answers : List (Engine × Json N)) : Prop where
  pending : p.pending = true
  runOrder : p.runOrder = order
  shows : Shows p answers

section
variable {p : Panel F} {answers : List (Engine × Json F)} {order : List Engine} {r : Run F} {D : FloatReprs F}

/-- The fields of a run, which the watcher leaves alone. -/
structure SameRun (p q : Panel N) : Prop where
  pending : q.pending = p.pending
  runOrder : q.runOrder = p.runOrder
  results : q.results = p.results
  answered : q.answered = p.answered

theorem sameRun_watch (p : Panel N) {a : Action N} (ha : a.isWatch = true) : SameRun p (p.act a) := by
  cases a with
  | pick option statement => cases statement <;> exact ⟨rfl, rfl, rfl, rfl⟩
  | toggle e =>
    rw [Panel.act]
    split <;> exact ⟨rfl, rfl, rfl, rfl⟩
  | edit | setMode | setReuseSnapshot => exact ⟨rfl, rfl, rfl, rfl⟩
  | start | line | body | failed | settled => cases ha

theorem sameRun_acts (p : Panel N) {as : List (Action N)} (has : ∀ a ∈ as, a.isWatch = true) :
    SameRun p (p.acts as) := by
  induction as generalizing p with
  | nil => exact ⟨rfl, rfl, rfl, rfl⟩
  | cons a as ih =>
    obtain ⟨ha, has⟩ := List.forall_mem_cons.1 has
    have hfirst := sameRun_watch p ha
    have hrest := ih (p.act a) has
    exact ⟨hrest.pending.trans hfirst.pending, hrest.runOrder.trans hfirst.runOrder,
      hrest.results.trans hfirst.results, hrest.answered.trans hfirst.answered⟩

theorem SameRun.cards {p q : Panel N} (h : SameRun p q) {zero : N → Bool} : q.cards zero = p.cards zero := by
  unfold Panel.cards Panel.shown Panel.waiting Panel.ranInParallel Panel.has Panel.resultOf
  rw [h.pending, h.runOrder, h.results, h.answered]

theorem Shows.same {q : Panel N} {p : Panel N} {answers : List (Engine × Json N)} (h : Shows p answers)
    (hsame : SameRun p q) : Shows q answers where
  answered := hsame.answered.trans h.answered
  mode := by rw [hsame.results, h.mode]
  results a ha := by rw [Panel.resultOf, hsame.results]; exact h.results a ha
  objects := h.objects

theorem Running.act_other (h : Running p order answers) {a : Action F} (ha : a.isMeanwhile = true)
    (hline : a.lineOf = none) : Running (p.act a) order answers := by
  have hwatch (ha : a.isWatch = true) : Running (p.act a) order answers := by
    have hsame := sameRun_watch p ha
    exact ⟨hsame.pending.trans h.pending, hsame.runOrder.trans h.runOrder, h.shows.same hsame⟩
  cases a with
  | start =>
    rw [Panel.act, if_pos (.inl h.pending)]
    exact h
  | line => cases hline
  | body | failed | settled => cases ha
  | pick | edit | toggle | setMode | setReuseSnapshot => exact hwatch rfl

theorem answers_keys (r : Run F) (D : FloatReprs F) (es : List Engine) :
    (es.map (r.answer D)).map Prod.fst = es := by
  rw [List.map_map]
  exact List.map_id _

/-- A message of the run, and what it answers. -/
theorem Running.message {es : List Engine} (h : Running p order (es.map (r.answer D))) {m : Message F}
    (hm : toldBy m = none ∧ event m ≠ "engine" ∨ ∃ e, m = r.message e) (hnew : ∀ e ∈ toldBy m, e ∉ es) :
    Running (p.onLine (m.payload.toJson D)) order ((es ++ (toldBy m).toList).map (r.answer D)) := by
  rcases hm with ⟨hnone, hevent⟩ | ⟨e, rfl⟩
  · rw [hnone, Option.toList_none, List.append_nil]
    cases m with
    | start | done => rw [onLine_silent (by simp [event])]; exact h
    | baseline impact =>
      obtain ⟨value, hvalue⟩ := onLine_baseline (D := D) (p := p) impact
      rw [hvalue]
      exact ⟨h.pending, h.runOrder, h.shows.baseline value⟩
    | engine => exact absurd rfl hevent
  · have htold : toldBy (r.message e) = some e := ofKey_key e
    have hshows := h.shows.answer (D := D) r ((answers_keys r D es).symm ▸ hnew e htold)
    rw [htold, Option.toList_some, List.map_append]
    refine ⟨?_, ?_, hshows⟩
    · rw [onLine_answer]
      exact h.pending
    · rw [onLine_answer]
      exact h.runOrder

/-- Whatever the watcher does between the lines. -/
theorem Running.acts {as : List (Action F)} (has : ∀ a ∈ as, a.isMeanwhile = true) {es : List Engine}
    {ms : List (Message F)} (hms : ∀ m ∈ ms, toldBy m = none ∧ event m ≠ "engine" ∨ ∃ e, m = r.message e)
    (hlines : lines as = ms.map fun m => m.payload.toJson D) (hnodup : (es ++ ms.filterMap toldBy).Nodup)
    (h : Running p order (es.map (r.answer D))) :
    Running (p.acts as) order ((es ++ ms.filterMap toldBy).map (r.answer D)) := by
  induction as generalizing p es ms with
  | nil =>
    obtain rfl := List.map_eq_nil_iff.1 hlines.symm
    rwa [List.filterMap_nil, List.append_nil]
  | cons a as ih =>
    obtain ⟨ha, hrest⟩ := List.forall_mem_cons.1 has
    cases hline : a.lineOf with
    | none =>
      rw [lines, List.filterMap_cons, hline] at hlines
      exact ih hrest hms hlines hnodup (h.act_other ha hline)
    | some line =>
      obtain ⟨rfl⟩ : a = .line line := by
        cases a <;> cases hline
        rfl
      rw [lines, List.filterMap_cons, hline] at hlines
      cases ms with
      | nil => cases hlines
      | cons m ms =>
        obtain ⟨hm, hms⟩ := List.forall_mem_cons.1 hms
        obtain ⟨rfl, htail⟩ := List.cons.inj hlines
        have hsplit : es ++ (m :: ms).filterMap toldBy = (es ++ (toldBy m).toList) ++ ms.filterMap toldBy := by
          rw [List.filterMap_cons]
          cases toldBy m <;> simp
        rw [hsplit] at hnodup ⊢
        refine ih hrest hms htail hnodup (h.message hm fun e he hmem => ?_)
        obtain ⟨hleft, -, -⟩ := List.nodup_append.1 hnodup
        obtain ⟨-, -, hapart⟩ := List.nodup_append.1 hleft
        exact hapart e hmem e (Option.mem_toList.2 he) rfl

end

/-! ## A run made one at a time -/

section
variable {r : Run F} {D : FloatReprs F}

theorem sequence_isPrefix (r : Run F) (i : Nat) (es : List Engine) : r.sequence i es <+: es := by
  induction es generalizing i with
  | nil => exact List.prefix_rfl
  | cons e es ih =>
    rw [Run.sequence]
    split
    · exact List.nil_prefix
    · exact List.cons_prefix_cons.2 ⟨rfl, ih _⟩

theorem messages_told (r : Run F) (es : List Engine) (statement : Text) :
    (r.messages es statement).filterMap toldBy = r.sequence 0 es := by
  have hanswers : ((r.sequence 0 es).map r.message).filterMap toldBy = r.sequence 0 es := by
    rw [List.filterMap_map, (funext ofKey_key : toldBy ∘ r.message = some), List.filterMap_some]
  rw [Run.messages, List.filterMap_append, List.filterMap_append, hanswers]
  exact List.append_nil _

/-- The paths that the first messages are the answers of are the first paths. -/
theorem told_isPrefix {es : List Engine} {statement : Text} {ms : List (Message F)}
    (hms : ms <+: r.messages es statement) : ms.filterMap toldBy <+: es := by
  have hreached := hms.filterMap toldBy
  rw [messages_told] at hreached
  exact hreached.trans (sequence_isPrefix r 0 es)

theorem mem_messages {es : List Engine} {statement : Text} {m : Message F} (hm : m ∈ r.messages es statement) :
    toldBy m = none ∧ event m ≠ "engine" ∨ ∃ e, m = r.message e := by
  simp only [Run.messages, List.mem_append, List.mem_cons, List.not_mem_nil, or_false, List.mem_map] at hm
  rcases hm with ((rfl | rfl) | ⟨e, -, rfl⟩) | rfl
  · exact .inl ⟨rfl, (by decide : "start" ≠ "engine")⟩
  · exact .inl ⟨rfl, (by decide : "baseline" ≠ "engine")⟩
  · exact .inr ⟨e, rfl⟩
  · exact .inl ⟨rfl, (by decide : "done" ≠ "engine")⟩

theorem isAnswer_toJson {m : Message F} (hm : toldBy m = none ∧ event m ≠ "engine" ∨ ∃ e, m = r.message e) :
    isAnswer (m.payload.toJson D) = (toldBy m).isSome := by
  rw [isAnswer, member_event]
  rcases hm with ⟨hnone, hevent⟩ | ⟨e, rfl⟩
  · rw [hnone]
    exact decide_eq_false (name_ne hevent)
  · have htold : toldBy (r.message e) = some e := ofKey_key e
    rw [htold]
    exact decide_eq_true rfl

theorem countP_isAnswer {ms : List (Message F)}
    (hms : ∀ m ∈ ms, toldBy m = none ∧ event m ≠ "engine" ∨ ∃ e, m = r.message e) :
    (ms.map fun m => m.payload.toJson D).countP isAnswer = (ms.filterMap toldBy).length := by
  rw [List.countP_map, List.length_filterMap_eq_countP]
  exact List.countP_congr fun m hm => by rw [Function.comp_apply, isAnswer_toJson (hms m hm)]

theorem shows_end {N : Type} {zero : N → Bool} {p : Panel N} {answers : List (Engine × Json N)} (h : Shows p answers)
    (hpending : p.pending = false) {after : List (Action N)} (hafter : ∀ a ∈ after, a.isWatch = true) :
    (p.acts after).cards zero = answers.map fun a => .result a.1 (some a.2) := by
  have hwaiting : p.waiting = [] := by
    rw [Panel.waiting, hpending]
    rfl
  rw [(sameRun_acts p hafter).cards, h.cards, hwaiting]
  exact List.append_nil _

end

/-- The cards of paths that answered. -/
def Run.cards (r : Run F) (D : FloatReprs F) (es : List Engine) : List (Card F) :=
  es.map fun e => .result e (some ((r.result e).modelDump.toJson D))

section
variable {p : Panel F} {order es : List Engine} {r : Run F} {D : FloatReprs F} {zero : F → Bool}

theorem answers_cards (r : Run F) (D : FloatReprs F) (es : List Engine) :
    (es.map (r.answer D)).map (fun a => Card.result a.1 (some a.2)) = r.cards D es := List.map_map

/-- While a run goes on: the paths that answered, and then the others. -/
theorem Running.cards (h : Running p order (es.map (r.answer D))) (hnodup : order.Nodup) (hes : es <+: order) :
    p.cards zero = r.cards D es ++ pendingCards (order.drop es.length) := by
  have hkeys : (es.map (r.answer D)).map Prod.fst <+: p.runOrder := by
    rw [answers_keys, h.runOrder]
    exact hes
  have hwaiting := h.shows.waiting h.pending (h.runOrder.symm ▸ hnodup) hkeys
  rw [h.shows.cards, answers_cards, hwaiting, h.runOrder, List.length_map]

/-- Once it has failed or has settled: the paths that answered. -/
theorem Running.ended (h : Running p order (es.map (r.answer D))) {a : Action F}
    (ha : (∃ message, a = .failed message) ∨ a = .settled) {after : List (Action F)}
    (hafter : ∀ b ∈ after, b.isWatch = true) : ((p.act a).acts after).cards zero = r.cards D es := by
  have hshows : Shows (p.act a) (es.map (r.answer D)) ∧ (p.act a).pending = false := by
    rcases ha with ⟨message, rfl⟩ | rfl
    all_goals exact ⟨⟨h.shows.answered, h.shows.mode, h.shows.results, h.shows.objects⟩, rfl⟩
  exact (shows_end hshows.1 hshows.2 hafter).trans (answers_cards r D es)

end

/-- What is read of a reply are the messages. -/
theorem postNdjson_messages {S : Type} {d : TextDecoder S} (hd : d.Lawful) (D : FloatReprs F) (n : Nat)
    (stringify : Json F → Units) {r : Run F} {order : List Engine} {statement : Text}
    (hstandard : ∀ m ∈ r.messages order statement, m.payload.Standard D) {ls : List (List UInt8)}
    (hls : (r.messages order statement).mapM (fun m => ndjson D n m.payload) = .ok ls) {chunks : List (List UInt8)}
    (hchunks : chunks.flatten = ls.flatten) {response : Response F} (hok : response.ok = true)
    (hbody : response.body = some chunks) :
    postNdjson d D.nearest stringify response =
      ⟨(r.messages order statement).map fun m => m.payload.toJson D, none⟩ := by
  have hvs : ∀ v ∈ (r.messages order statement).map Message.payload, v.Standard D := by
    intro v hv
    obtain ⟨m, hm, rfl⟩ := List.mem_map.1 hv
    exact hstandard m hm
  have hdumped : ((r.messages order statement).map Message.payload).mapM (ndjson D n) = .ok ls := by
    rw [List.mapM_map]
    exact hls
  rw [postNdjson_lines hd D n stringify hvs hdumped (.inl hchunks) hok hbody, List.map_map]
  rfl

theorem running_start {p : Panel N} (hpending : p.pending = false) (hmode : p.mode = .sequential)
    (hask : p.asking ≠ []) : Running (p.act .start) p.order [] := by
  have hstart : p.act .start = p.start := by
    rw [Panel.act, hpending]
    exact if_neg (by simp [hask])
  rw [hstart]
  refine ⟨rfl, rfl, rfl, ?_, nofun, nofun⟩
  have hset : (p.start.results.bind fun r => r (name "mode")) = some (.str (Mode.text p.mode)) := by
    simp [Panel.start]
  rwa [hmode] at hset

/-- From the selection to the cards, for every selection, every run of the backend whose messages are standard and
can be written, every way that the reply is cut, and whatever the watcher does meanwhile and afterwards. -/
theorem comparison_shown {S : Type} {d : TextDecoder S} (hd : d.Lawful) (D : FloatReprs F) (n : Nat)
    (stringify : Json F → Units) (zero : F → Bool) {p : Panel F} (hp : Reached p) (hpending : p.pending = false)
    (hmode : p.mode = .sequential) (hask : ¬ (p.chosen = [.cassandra] ∧ p.cqlDecline.isSome = true))
    (r : Run F) (statement : Text) (hstandard : ∀ m ∈ r.messages p.order statement, m.payload.Standard D)
    {ls : List (List UInt8)} (hls : (r.messages p.order statement).mapM (fun m => ndjson D n m.payload) = .ok ls)
    {chunks : List (List UInt8)} (hchunks : chunks.flatten = ls.flatten) (response : Response F)
    (hok : response.ok = true) (hbody : response.body = some chunks) :
    let reply := postNdjson d D.nearest stringify response
    p.order.Perm p.asking ∧ requestedEngines (some (p.order.map key)) true = .ok p.order ∧ reply.thrown = none ∧
      ∀ as, (∀ a ∈ as, a.isMeanwhile = true) → lines as <+: reply.calls →
        let q := (p.act .start).acts as
        let es := p.order.take ((lines as).countP isAnswer)
        q.cards zero = r.cards D es ++ pendingCards (p.order.drop es.length) ∧
          ∀ after, (∀ a ∈ after, a.isWatch = true) →
            (∀ message, ((q.act (.failed message)).acts after).cards zero = r.cards D es) ∧
              (lines as = reply.calls →
                ((q.act .settled).acts after).cards zero = r.cards D (r.sequence 0 p.order)) := by
  have hselected := selected_of_reached hp
  have hasking : p.asking ≠ [] := fun hnil => hask ((asking_eq_nil_iff hselected).1 hnil)
  obtain ⟨hnodup, hperm⟩ := order_perm hselected
  have horder : p.order ≠ [] := fun hnil => hasking (List.nil_perm.1 (hnil ▸ hperm))
  have hreply := postNdjson_messages hd D n stringify hstandard hls hchunks hok hbody
  intro reply
  refine ⟨hperm, requestedEngines_keys hnodup horder, congrArg Outcome.thrown hreply, fun as has hprefix => ?_⟩
  have hcalls : reply.calls = (r.messages p.order statement).map fun m => m.payload.toJson D :=
    congrArg Outcome.calls hreply
  -- The lines so far are those of the first messages.
  obtain ⟨ms, hms, hlines⟩ := List.prefix_map_iff.1 (hcalls ▸ hprefix)
  have hkinds : ∀ m ∈ ms, toldBy m = none ∧ event m ≠ "engine" ∨ ∃ e, m = r.message e :=
    fun m hm => mem_messages (hms.subset hm)
  have htold := told_isPrefix hms
  have hstart : Running (p.act .start) p.order (([] : List Engine).map (r.answer D)) :=
    running_start hpending hmode hasking
  have hrunning := Running.acts has hkinds hlines (htold.sublist.nodup hnodup) hstart
  rw [List.nil_append] at hrunning
  intro q es
  have hes : es = ms.filterMap toldBy := by
    have htake : es = p.order.take ((lines as).countP isAnswer) := rfl
    rw [htake, hlines, countP_isAnswer hkinds]
    exact (List.prefix_iff_eq_take.1 htold).symm
  rw [hes]
  refine ⟨hrunning.cards hnodup htold, fun after hafter => ⟨fun message => ?_, fun hall => ?_⟩⟩
  · exact hrunning.ended (.inl ⟨message, rfl⟩) hafter
  -- Once the reply is read to its end, its messages are all those of the run.
  · have hwhole : ms = r.messages p.order statement := by
      have hlength := congrArg List.length (hlines.symm.trans (hall.trans hcalls))
      rw [List.length_map, List.length_map] at hlength
      exact hms.eq_of_length hlength
    rw [← messages_told r p.order statement, ← hwhole]
    exact hrunning.ended (.inr rfl) hafter

/-! ## A run made all at once -/

section
variable {r : Run F} {D : FloatReprs F} {p : Panel F}

theorem requestedEngines_sorted {es : List Engine} (hne : es ≠ []) :
    requestedEngines (some (es.map key)) false = .ok (engines.filter (· ∈ es)) := by
  have hmem (e : Engine) : key e ∈ es.map key ↔ e ∈ es :=
    ⟨fun h => by obtain ⟨e', he', hkey⟩ := List.mem_map.1 h; exact key_inj hkey ▸ he', List.mem_map_of_mem⟩
  have hchosen : engines.filter (fun e => (es.map key).contains (key e)) = engines.filter (· ∈ es) :=
    List.filter_congr fun e _ => by rw [Bool.eq_iff_iff, List.contains_iff_mem, decide_eq_true_iff, hmem]
  have hsome : engines.filter (· ∈ es) ≠ [] := by
    obtain ⟨e, he⟩ := List.exists_mem_of_ne_nil _ hne
    refine List.ne_nil_of_mem (List.mem_filter.2 ⟨?_, decide_eq_true he⟩)
    cases e <;> decide
  rw [requestedEngines]
  simp only [known_keys, ne_eq, not_true_eq_false, if_false, Bool.false_eq_true, hchosen, hsome]

theorem whole_result (combined : Option (OltpImpact F)) (es : List Engine) (e : Engine) :
    property (keyUnits e) ((r.whole combined es).toJson D) = some (if e ∈ es then (r.answer D e).2 else .null) := by
  have hoptional : (NdJson.optional EngineResult.modelDump (if e ∈ es then some (r.result e) else none)).toJson D =
      if e ∈ es then (r.answer D e).2 else .null := by
    split
    · rfl
    · exact Obj.toJson.eq_1 ..
  refine Eq.trans ?_ (congrArg some hoptional)
  cases e <;> exact member_record ..

theorem cards_eq {zero : F → Bool} (h : p.results.isSome = true) :
    p.cards zero = (p.shown zero).map (fun e => .result e (p.resultOf e)) ++ pendingCards p.waiting := if_pos h

/-- Of results that are all of one run, the panel shows those that there are, in the order of the page. -/
theorem shown_parallel {zero : F → Bool} (hmode : p.ranInParallel = true) :
    p.shown zero = engines.filter (p.has zero) := by
  have hfound : ((engines.filter (p.has zero)).map keyUnits).filterMap
      (fun k => engines.find? fun e => keyUnits e = k) = engines.filter (p.has zero) := by
    rw [List.filterMap_map]
    exact (List.filterMap_congr fun e _ => find_keyUnits e).trans List.filterMap_some
  rw [Panel.shown, if_pos hmode, hfound, List.filter_filter]
  exact List.filter_congr fun e _ => Bool.and_self _

/-- With the results that a run starts with, no path has answered. -/
theorem shown_start {zero : F → Bool} (hmode : p.mode = .parallel) {q : Panel F}
    (hresults : q.results = p.start.results) : q.shown zero = [] := by
  have hparallel : q.ranInParallel = true := by
    rw [Panel.ranInParallel, hresults]
    simp [Panel.start, hmode]
  rw [shown_parallel hparallel, List.filter_eq_nil_iff]
  intro e _
  have hnone : q.resultOf e = none := by
    rw [Panel.resultOf, hresults]
    simp [Panel.start, Function.update_of_ne (keyUnits_ne (by decide) : keyUnits e ≠ name "mode")]
  rw [Panel.has, hnone]
  exact Bool.false_ne_true

/-- With the answer for all of them, each path that was asked has its result. -/
theorem shown_body {zero : F → Bool} (q : Panel F) (combined : Option (OltpImpact F)) (es : List Engine) :
    (q.act (.body ((r.whole combined es).toJson D))).shown zero = engines.filter (· ∈ es) := by
  have hmember : ((q.act (.body ((r.whole combined es).toJson D))).results.bind fun r => r (name "mode")) =
      some (.str (Mode.text .parallel)) := (member_record ..).trans (congrArg some (toJson_str _))
  have hparallel : (q.act (.body ((r.whole combined es).toJson D))).ranInParallel = true := by
    rw [Panel.ranInParallel, hmember]
    exact decide_eq_true rfl
  rw [shown_parallel hparallel]
  refine List.filter_congr fun e _ => ?_
  have hresult : (q.act (.body ((r.whole combined es).toJson D))).resultOf e =
      some (if e ∈ es then (r.answer D e).2 else .null) := whole_result combined es e
  rw [Panel.has, hresult]
  by_cases hes : e ∈ es
  · obtain ⟨fields, hfields⟩ := answer_object r D e
    rw [if_pos hes, hfields, decide_eq_true hes]
    rfl
  · rw [if_neg hes, decide_eq_false hes]
    rfl

/-- Paths that run all at once are waited for in the order of the preset, and shown in the order of the page. -/
theorem together_shown (D : FloatReprs F) (zero : F → Bool) (hp : Reached p) (hpending : p.pending = false)
    (hmode : p.mode = .parallel) (hask : ¬ (p.chosen = [.cassandra] ∧ p.cqlDecline.isSome = true)) (r : Run F)
    (combined : Option (OltpImpact F)) (as after : List (Action F)) (has : ∀ a ∈ as, a.isWatch = true)
    (hafter : ∀ a ∈ after, a.isWatch = true) :
    let es := engines.filter (· ∈ p.asking)
    let q := (p.act .start).acts as
    requestedEngines (some (p.asking.map key)) false = .ok es ∧
      q.cards zero = pendingCards p.order ∧
      ((q.act (.body ((r.whole combined es).toJson D))).acts after).cards zero = r.cards D es ∧
      ∀ message, ((q.act (.failed message)).acts after).cards zero = [] := by
  have hasking : p.asking ≠ [] := fun hnil => hask ((asking_eq_nil_iff (selected_of_reached hp)).1 hnil)
  have hstart : p.act .start = p.start := by
    rw [Panel.act, hpending]
    exact if_neg (by simp [hasking])
  intro es q
  have hq : SameRun p.start q := hstart ▸ sameRun_acts (p.act .start) has
  refine ⟨requestedEngines_sorted hasking, ?_, ?_, fun message => ?_⟩
  · have hwaiting : p.start.waiting = p.order := List.filter_eq_self.2 fun e _ => rfl
    rw [hq.cards, cards_eq rfl, shown_start hmode rfl, hwaiting]
    rfl
  · have hall : engines.filter (· ∈ es) = es := by
      refine List.filter_congr fun e he => ?_
      rw [Bool.eq_iff_iff, decide_eq_true_iff, List.mem_filter]
      exact and_iff_right he
    rw [(sameRun_acts _ hafter).cards, cards_eq rfl, shown_body, hall]
    refine (List.append_nil _).trans (List.map_congr_left fun e he => ?_)
    have hresult : (q.act (.body ((r.whole combined es).toJson D))).resultOf e =
        some (if e ∈ es then (r.answer D e).2 else .null) := whole_result combined es e
    rw [hresult, if_pos he]
    rfl
  -- A failure leaves the results as the start made them, with no path in them.
  · have hresults : (q.act (.failed message)).results = p.start.results := hq.results
    rw [(sameRun_acts _ hafter).cards, cards_eq (congrArg Option.isSome hresults), shown_start hmode hresults]
    rfl

end

/-! ## A run that is cancelled -/

def asked : Panel Binary64 := .initial "SELECT entity_id FROM drone_latest_status".toList

/-- What `_run` makes of a client that does not connect. -/
def notConnected : EngineResult Binary64 where
  columns := []
  rows := []
  rowCount := 0
  queryTimeMs := binary64.nearest (.finite false 0)
  sql := none
  available := false
  error := some "Engine not connected".toList
  snapshotBytes := none
  snapshotMs := none
  snapshotReused := false
  snapshotAgeS := none
  sstableFiles := none
  sstableBytes := none
  readerOpenMs := none
  dataAgeS := none
  oltp := none

/-- Cancelled while its first path is at work. -/
def cancelledRun : Run Binary64 := ⟨none, fun _ => notConnected, fun i => 0 < i, true⟩

theorem cancelledRun_messages : cancelledRun.messages asked.order asked.sql =
    [.start (asked.order.map key) asked.sql, .baseline none, .engine (key .cassandra) notConnected,
      .done true] := rfl

theorem standard_record {D : FloatReprs F} {es : List (String × Obj F)} (hkeys : (es.map Prod.fst).Nodup)
    (h : ∀ e ∈ es, e.2.Standard D) : (record es).Standard D := by
  have hrecord : record es = .dict ((es.map fun e => (e.1.toList, e.2)).map fun e => (.str e.1, e.2)) := by
    rw [record, List.map_map]
    rfl
  rw [hrecord]
  refine .dict ?_ fun e he => ?_
  · rw [List.map_map]
    have hnodup := hkeys.map (f := String.toList) fun _ _ => String.toList_inj.1
    rwa [List.map_map] at hnodup
  · obtain ⟨entry, hentry, rfl⟩ := List.mem_map.1 he
    exact h entry hentry

theorem isFinite_of_val {x : Binary64} {negative : Bool} {q : ℚ} (h : x.val = .finite negative q) :
    binary64.isFinite x = true := by
  simp only [binary64, h]

theorem notConnected_isFinite : binary64.isFinite notConnected.queryTimeMs = true := by
  have hval : notConnected.queryTimeMs.val = .finite false 0 := by decide +kernel
  exact isFinite_of_val hval

section
variable {D : FloatReprs F}

theorem standard_texts (xs : List Text) : (texts xs : Obj F).Standard D := by
  refine .list fun v hv => ?_
  obtain ⟨x, -, rfl⟩ := List.mem_map.1 hv
  exact .str x

theorem standard_optional {α : Type} {f : α → Obj F} {x : Option α} (h : ∀ a ∈ x, (f a).Standard D) :
    (NdJson.optional f x).Standard D := by
  cases x with
  | none => exact .none
  | some a => exact h a rfl

/-- A result without figures. -/
theorem standard_result {r : EngineResult F} (hrows : r.rows = []) (htime : D.isFinite r.queryTimeMs = true)
    (hfloats : ∀ x ∈ [r.snapshotMs, r.snapshotAgeS, r.readerOpenMs, r.dataAgeS], x = none) (holtp : r.oltp = none) :
    r.modelDump.Standard D := by
  simp only [List.forall_mem_cons, List.not_mem_nil, false_implies, implies_true, and_true] at hfloats
  obtain ⟨hms, hage, hopen, hdata⟩ := hfloats
  refine standard_record (by simp) ?_
  simp only [List.forall_mem_cons, List.not_mem_nil, false_implies, implies_true, and_true, hrows, hms, hage, hopen,
    hdata, holtp]
  exact ⟨standard_texts _, .list nofun, .int _, .float htime, standard_optional fun _ _ => .str _, .bool _,
    standard_optional fun _ _ => .str _, standard_optional fun _ _ => .int _, .none, .bool _, .none,
    standard_optional fun _ _ => .int _, standard_optional fun _ _ => .int _, .none, .none, .none⟩

end

theorem cancelledRun_standard : ∀ m ∈ cancelledRun.messages asked.order asked.sql, m.payload.Standard binary64 := by
  have hresult : notConnected.modelDump.Standard binary64 :=
    standard_result rfl notConnected_isFinite (by simp [notConnected]) rfl
  rw [cancelledRun_messages]
  simp only [List.forall_mem_cons, List.not_mem_nil, false_implies, implies_true, and_true]
  refine ⟨standard_record (by decide) ?_, standard_record (by decide) ?_, standard_record (by decide) ?_,
    standard_record (by decide) ?_⟩ <;>
  simp only [List.forall_mem_cons, List.not_mem_nil, false_implies, implies_true, and_true]
  · exact ⟨.str _, standard_texts _, .str _⟩
  · exact ⟨.str _, .none⟩
  · exact ⟨.str _, .str _, hresult⟩
  · exact ⟨.str _, .bool _⟩

theorem cancelledRun_written : Returns ((cancelledRun.messages asked.order asked.sql).mapM fun m =>
    ndjson binary64 9 m.payload) := by
  have hint : Returns (intText 0) := returns_intText (by decide)
  rw [cancelledRun_messages, returns_mapM]
  intro m hm
  refine (returns_bind_iff ?_ fun _ _ => iff_true_intro (returns_pure _)).2 trivial
  simp only [List.mem_cons, List.not_mem_nil, or_false] at hm
  rcases hm with rfl | rfl | rfl | rfl <;>
  simp [Message.payload, notConnected, EngineResult.modelDump, record, texts, NdJson.optional, hint]

/-- One answer, and then the end. -/
theorem comparison_shown_cancelled : ∃ ls,
    (cancelledRun.messages asked.order asked.sql).mapM (fun m => ndjson binary64 9 m.payload) = .ok ls ∧
      ((((asked.act .start).acts ((received ls).calls.map .line)).act .settled).cards fun _ => false) =
        cancelledRun.cards binary64 [.cassandra] := by
  obtain ⟨ls, hls⟩ := cancelledRun_written
  obtain ⟨-, -, -, hrun⟩ := comparison_shown asciiDecoder_lawful binary64 9 (fun _ => []) (fun _ => false)
    ⟨_, [], rfl⟩ rfl rfl (by decide) cancelledRun asked.sql cancelledRun_standard hls rfl
    ⟨true, 200, [], none, some ls⟩ rfl rfl
  have hlines : lines ((received ls).calls.map .line) = (received ls).calls := by
    rw [lines, List.filterMap_map]
    exact List.filterMap_some
  refine ⟨ls, hls, ?_⟩
  obtain ⟨-, hend⟩ := hrun ((received ls).calls.map .line) (fun a ha => by
    obtain ⟨line, -, rfl⟩ := List.mem_map.1 ha
    rfl) (by rw [hlines]; exact List.prefix_rfl)
  exact (hend [] nofun).2 hlines

theorem together_shown_all :
    (((({ asked with mode := .parallel } : Panel Binary64).act .start).act
      (.body ((cancelledRun.whole none engines).toJson binary64))).cards fun _ => false) =
        cancelledRun.cards binary64 engines :=
  (together_shown binary64 (fun _ => false) ⟨asked.sql, [.setMode .parallel], rfl⟩ rfl rfl (by decide) cancelledRun
    none [] [] nofun nofun).2.2.1

end HtapStack.ComparePanel
