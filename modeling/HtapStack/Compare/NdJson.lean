import HtapStack.Lib.Binary64
/-!
# The lines of the comparison stream

What `stream_benchmark` of `backend/app/routes/query.py` writes: each message is a
dict, an engine's result dumped by its model, and `_ndjson` makes one line of it. The
row values are whatever an engine returns; those that `json` does not know are given
by their text.

`lines_standard_iff`: the lines are JSON texts, one each, exactly if no float in the
messages written is infinite or not a number. `nan_line` is a row with a NaN.
-/

namespace HtapStack.NdJson
open Py
open Js (Json)

abbrev Text := List Char

variable {F : Type}

structure OltpImpact (F : Type) where
  p50Ms : F
  p95Ms : F
  maxMs : F
  samples : Int
  failures : Int

structure EngineResult (F : Type) where
  columns : List Text
  rows : List (List (Obj F))
  rowCount : Int
  queryTimeMs : F
  sql : Option Text
  available : Bool
  error : Option Text
  snapshotBytes : Option Int
  snapshotMs : Option F
  snapshotReused : Bool
  snapshotAgeS : Option F
  sstableFiles : Option Int
  sstableBytes : Option Int
  readerOpenMs : Option F
  dataAgeS : Option F
  oltp : Option (OltpImpact F)

/-- `_reported_figures`. -/
structure Figures (F : Type) where
  snapshotBytes : Option Int
  snapshotMs : Option F
  snapshotReused : Bool
  snapshotAgeS : Option F
  sstableFiles : Option Int
  sstableBytes : Option Int
  readerOpenMs : Option F
  dataAgeS : Option F

/-- What `_run` makes of the rows that an engine returned, each a dict. -/
def answered (statement : Text) (rows : List (List (Text × Obj F))) (elapsedMs : F) (figures : Figures F) :
    EngineResult F :=
  let columns := (rows.head?.getD []).map Prod.fst
  { figures with
    columns := columns
    rows := rows.map fun r => columns.map fun c => (r.lookup c).getD .none
    rowCount := rows.length
    queryTimeMs := elapsedMs
    sql := some statement
    available := true
    error := none
    oltp := none }

/-! ## Messages -/

/-- A dict with names for keys. -/
def record (es : List (String × Obj F)) : Obj F := .dict (es.map fun e => (.str e.1.toList, e.2))

/-- `None`, or a value. -/
def optional {α : Type} (f : α → Obj F) (x : Option α) : Obj F := x.elim .none f

def texts (xs : List Text) : Obj F := .list (xs.map .str)

def OltpImpact.modelDump (i : OltpImpact F) : Obj F :=
  record [("p50_ms", .float i.p50Ms), ("p95_ms", .float i.p95Ms), ("max_ms", .float i.maxMs),
    ("samples", .int i.samples), ("failures", .int i.failures)]

def EngineResult.modelDump (r : EngineResult F) : Obj F :=
  record [("columns", texts r.columns), ("rows", .list (r.rows.map .list)), ("row_count", .int r.rowCount),
    ("query_time_ms", .float r.queryTimeMs), ("sql", optional .str r.sql), ("available", .bool r.available),
    ("error", optional .str r.error), ("snapshot_bytes", optional .int r.snapshotBytes),
    ("snapshot_ms", optional .float r.snapshotMs), ("snapshot_reused", .bool r.snapshotReused),
    ("snapshot_age_s", optional .float r.snapshotAgeS), ("sstable_files", optional .int r.sstableFiles),
    ("sstable_bytes", optional .int r.sstableBytes), ("reader_open_ms", optional .float r.readerOpenMs),
    ("data_age_s", optional .float r.dataAgeS), ("oltp", optional OltpImpact.modelDump r.oltp)]

/-- What `lines()` yields a line of. -/
inductive Message (F : Type) where
  | start (engines : List Text) (sql : Text)
  | baseline (impact : Option (OltpImpact F))
  | engine (name : Text) (result : EngineResult F)
  | done (cancelled : Bool)

def Message.payload : Message F → Obj F
  | .start engines sql =>
    record [("event", .str "start".toList), ("engines", texts engines), ("sql", .str sql)]
  | .baseline impact =>
    record [("event", .str "baseline".toList), ("oltp_baseline", optional OltpImpact.modelDump impact)]
  | .engine name result =>
    record [("event", .str "engine".toList), ("engine", .str name), ("result", result.modelDump)]
  | .done cancelled => record [("event", .str "done".toList), ("cancelled", .bool cancelled)]

/-- `_ndjson`, with `n` calls left on the stack. -/
def ndjson (D : FloatReprs F) (n : Nat) (payload : Obj F) : Except DumpError (List UInt8) := do
  let t ← dumps D ⟨true, true⟩ n payload
  return encode (t ++ ['\n'])

/-- The messages up to the first that `_ndjson` raises on. -/
def written (D : FloatReprs F) (n : Nat) (ms : List (Message F)) : List (Message F) :=
  ms.takeWhile fun m => (ndjson D n m.payload).toBool

/-- The lines that are written. -/
def lines (D : FloatReprs F) (n : Nat) (ms : List (Message F)) : List (List UInt8) :=
  (written D n ms).filterMap fun m => (ndjson D n m.payload).toOption

/-- One JSON text, and a newline at its end alone. -/
def StandardLine (line : List UInt8) : Prop :=
  ∃ t, line = encode (t ++ ['\n']) ∧ '\n' ∉ t ∧ (Json.parse id t).isSome = true

variable {D : FloatReprs F} {n : Nat}

theorem ndjson_eq_ok {payload : Obj F} {line : List UInt8} :
    ndjson D n payload = .ok line ↔ ∃ t, dumps D ⟨true, true⟩ n payload = .ok t ∧ encode (t ++ ['\n']) = line := by
  rw [ndjson, bind_eq_ok]
  exact exists_congr fun t => and_congr_right fun _ => ⟨Except.ok.inj, congrArg Except.ok⟩

/-- No text has a newline in it, of whatever values it was made. -/
theorem newline_not_mem {payload : Obj F} {t : List Char} (h : dumps D ⟨true, true⟩ n payload = .ok t) : '\n' ∉ t :=
  fun hmem => absurd (printable_dumps h _ hmem).1 (by decide)

theorem standardLine_iff {payload : Obj F} {line : List UInt8} (h : ndjson D n payload = .ok line) :
    StandardLine line ↔ ∀ x, payload.Has x → D.isFinite x = true := by
  obtain ⟨t, ht, rfl⟩ := ndjson_eq_ok.1 h
  rw [← isSome_parse id ht]
  constructor
  · rintro ⟨u, hu, -, hparse⟩
    rwa [List.append_cancel_right (encode_inj hu)]
  · exact fun hparse => ⟨t, rfl, newline_not_mem ht, hparse⟩

/-- Each message that is written has its line. -/
theorem lines_forall (ms : List (Message F)) {p : List UInt8 → Prop} : (∀ line ∈ lines D n ms, p line) ↔
    ∀ m ∈ written D n ms, ∃ line, ndjson D n m.payload = .ok line ∧ p line := by
  have hwritten : ∀ m ∈ written D n ms, ∃ line, ndjson D n m.payload = .ok line := by
    intro m hm
    have hok := List.mem_takeWhile_imp hm
    cases hline : ndjson D n m.payload with
    | ok line => exact ⟨line, rfl⟩
    | error e => simp [hline, Except.toBool] at hok
  constructor
  · intro h m hm
    obtain ⟨line, hline⟩ := hwritten m hm
    exact ⟨line, hline, h line (List.mem_filterMap.2 ⟨m, hm, by rw [hline]; rfl⟩)⟩
  · intro h line hmem
    obtain ⟨m, hm, hline⟩ := List.mem_filterMap.1 hmem
    obtain ⟨line', hline', hp⟩ := h m hm
    rw [hline'] at hline
    obtain rfl := Option.some.inj hline
    exact hp

/-- The lines of any messages are JSON texts exactly if the floats that they show are finite. -/
theorem lines_standard_iff (D : FloatReprs F) (n : Nat) (ms : List (Message F)) :
    (∀ line ∈ lines D n ms, StandardLine line) ↔
      ∀ m ∈ written D n ms, ∀ x, m.payload.Has x → D.isFinite x = true := by
  rw [lines_forall]
  refine forall₂_congr fun m hm => ?_
  obtain ⟨line, hline, -⟩ := (lines_forall ms (p := fun _ => True)).1 (fun _ _ => trivial) m hm
  rw [← standardLine_iff hline]
  exact ⟨fun ⟨line', hline', h⟩ => Except.ok.inj (hline.symm.trans hline') ▸ h, fun h => ⟨line, hline, h⟩⟩

/-! ## A row with a NaN -/

def noFigures : Figures Binary64 := ⟨none, none, false, none, none, none, none, none⟩

/-- One row, of a drone whose risk score is not a number. -/
def nanResult : EngineResult Binary64 :=
  answered "SELECT risk_score FROM drone_latest_status LIMIT 1".toList
    [[("risk_score".toList, .float (binary64.nearest .nan))]] (binary64.nearest (.finite false 1)) noFigures

def nanMessage : Message Binary64 := .engine "cassandra".toList nanResult

theorem nan_written : Returns (ndjson binary64 9 nanMessage.payload) := by
  have hint : Returns (intText 1) := returns_intText (by decide)
  refine (returns_bind_iff ?_ fun _ _ => iff_true_intro (returns_pure _)).2 trivial
  simp [nanMessage, Message.payload, nanResult, answered, EngineResult.modelDump, record, texts, optional, noFigures,
    hint]

theorem nan_shown : nanMessage.payload.Has (binary64.nearest .nan) := by
  have hrows : Obj.Has (binary64.nearest .nan) (.list [.list [.float (binary64.nearest .nan)]]) :=
    .list List.mem_cons_self (.list List.mem_cons_self .here)
  have hresult : nanResult.modelDump.Has (binary64.nearest .nan) :=
    .dict (List.mem_cons_of_mem _ List.mem_cons_self) hrows
  exact .dict (List.mem_cons_of_mem _ (List.mem_cons_of_mem _ List.mem_cons_self)) hresult

/-- A comparison of one path, whose only row has one value that is not a number. -/
theorem nan_line : ¬ ∀ ms, ∀ line ∈ lines binary64 9 ms, StandardLine line := by
  intro h
  obtain ⟨line, hline⟩ := nan_written
  have hmem : line ∈ lines binary64 9 [nanMessage] := by
    simp [lines, written, hline, Except.toBool, Except.toOption]
  have hfinite := (standardLine_iff hline).1 (h _ line hmem) _ nan_shown
  simp [binary64.nan_isFinite] at hfinite

end HtapStack.NdJson
