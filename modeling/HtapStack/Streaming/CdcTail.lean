import HtapStack.Lib.Returns
import Mathlib.Algebra.Group.Nat.Defs
import Mathlib.Data.List.DropRight
/-!
# The CDC tail

`CdcTail` of `backend/app/routes/streaming.py`: `_ingest` takes the messages of a
poll one by one, and `_decode` makes one record of each. Reading the value (the
Confluent frame, the schema of the registry, the Avro record) is under a `try`
that turns every exception into a record with a decode error; what is then read
out of the decoded value is not.

`decode_iff`: a message is answered by one record, and a batch ends up in the
buffer, exactly when every value that decodes is a record of the kind the rest of
`_decode` takes for granted (`Usable`). `string_schema_raises` is the smallest
value that is not.

What the Avro library makes of bytes and a schema is a parameter, and so is what
the registry answers; nothing is assumed of either. Left out: the rate, and what
`run` does after an exception (it drops the consumer and attaches again).
-/

namespace HtapStack.CdcTail

abbrev Text := List Char

/-! ## Decoded values -/

/-- `(-1)^negative * coefficient * 10^exponent`. -/
structure Decimal where
  negative : Bool
  coefficient : Nat
  exponent : Int
  deriving DecidableEq, Repr

/-- What decoding Avro yields. Dates are given by their `isoformat()`. -/
inductive Value (F : Type) where
  | none
  | bool (b : Bool)
  | int (n : Int64)
  | float (x : F)
  | str (s : Text)
  | bytes (b : List UInt8)
  | datetime (iso : Text)
  | date (iso : Text)
  | time (iso : Text)
  | decimal (d : Decimal)
  | uuid (hex : Text)
  | list (xs : List (Value F))
  | dict (es : List (Text × Value F))

/-- The exceptions of the unprotected part. -/
inductive Exn where
  | attribute
  | type
  | value
  | invalidOperation
  | recursion
  deriving DecidableEq, Repr

/-- What the interpreter makes of values: the texts of anything but a `str`, floats,
and how deep `str` and a Python function may recurse. -/
structure Interp (F : Type) where
  utf8 : List UInt8 → Text
  base64 : List UInt8 → Text
  repr : Value F → Text
  truthy : F → Bool
  finite : F → Bool
  /-- `int(x // n)` of a finite float. -/
  floorDiv : F → Int → Int
  /-- `now * 1000 - ms`. -/
  age : F → Int → F
  round1 : F → F
  strDepth : Nat
  jsonDepth : Nat

variable {F Schema : Type} {size : Nat}

/-- Containers are nested less than `n` deep. -/
def Value.within : Nat → Value F → Bool
  | 0, _ => false
  | n + 1, .list xs => xs.all (within n)
  | n + 1, .dict es => es.all fun e => within n e.2
  | _ + 1, _ => true

def Value.truthy (I : Interp F) : Value F → Bool
  | .none => false
  | .bool b => b
  | .int n => n != 0
  | .float x => I.truthy x
  | .str s => !s.isEmpty
  | .bytes b => !b.isEmpty
  | .datetime _ | .date _ | .time _ | .uuid _ => true
  | .decimal d => d.coefficient != 0
  | .list xs => !xs.isEmpty
  | .dict es => !es.isEmpty

/-- `str(v)`. -/
def Value.text (I : Interp F) : Value F → Except Exn Text
  | .str s => .ok s
  | v => if v.within I.strDepth then .ok (I.repr v) else .error .recursion

/-- `v.get(key)`. -/
def Value.get (key : Text) : Value F → Except Exn (Value F)
  | .dict es => .ok ((es.lookup key).getD .none)
  | _ => .error .attribute

/-- `v.get(key) or default`. -/
def Value.getOr (I : Interp F) (v : Value F) (key : Text) (default : Value F) : Except Exn (Value F) := do
  let x ← v.get key
  return if x.truthy I then x else default

/-- The integer part of a thousandth, without its sign. -/
def Decimal.thousandth (d : Decimal) : Nat :=
  if 3 ≤ d.exponent then d.coefficient * 10 ^ (d.exponent - 3).toNat
  else d.coefficient / 10 ^ (3 - d.exponent).toNat

/-- The precision of the default context, in digits. -/
def decimalPrecision : Nat := 28

/-- `int(v // 1000)`. -/
def Value.milliseconds (I : Interp F) : Value F → Except Exn Int
  | .bool _ => .ok 0
  | .int n => .ok (n.toInt / 1000)
  | .float x => if I.finite x then .ok (I.floorDiv x 1000) else .error .value
  | .decimal d =>
    if d.thousandth < 10 ^ decimalPrecision then .ok (if d.negative then -d.thousandth else d.thousandth)
    else .error .invalidOperation
  | _ => .error .type

/-- What a `for` goes over. -/
def Value.items : Value F → Except Exn (List (Value F))
  | .str s => .ok (s.map fun c => .str [c])
  | .bytes b => .ok (b.map fun x => .int (.ofNat x.toNat))
  | .list xs => .ok xs
  | .dict es => .ok (es.map fun e => .str e.1)
  | _ => .error .type

/-- `[str(x) for x in v]`. -/
def Value.names (I : Interp F) (v : Value F) : Except Exn (List Text) := do
  let items ← v.items
  items.mapM (Value.text I)

/-- `_json_safe`, with `n` calls left on the stack. -/
def jsonSafe (I : Interp F) : Nat → Value F → Except Exn (Value F)
  | 0, _ => .error .recursion
  | n + 1, v =>
    match v with
    | .none | .bool _ | .int _ | .float _ | .str _ => .ok v
    | .bytes b => .ok (.dict [("base64".toList, .str (I.base64 b))])
    | .datetime iso | .date iso => .ok (.str iso)
    | .decimal _ | .uuid _ | .time _ => .ok (.str (I.repr v))
    | .dict es => .dict <$> es.mapM fun e => (e.1, ·) <$> jsonSafe I n e.2
    | .list xs => .list <$> xs.mapM (jsonSafe I n)

/-! ## Records -/

structure Record (F : Type) where
  seq : Nat
  partition : Nat
  offset : Nat
  key : Text
  keyspace : Text
  table : Text
  operation : Text
  mutationAtMs : Int
  kafkaAtMs : Int
  ageMs : Option F
  backfill : Bool
  isPartial : Bool
  columns : List (Text × Value F)
  updateFields : List Text
  schemaId : Option Nat
  decodeError : Option Text

structure Message where
  topic : Text
  partition : Nat
  offset : Nat
  key : Option (List UInt8)
  value : Option (List UInt8)
  timestamp : Option Int

/-- An exception by its type's name and its text. -/
structure Fault where
  type : Text
  text : Text
  deriving DecidableEq, Repr

/-- What the registry answers if it is asked, and the clock. -/
structure Answer (F Schema : Type) where
  fetched : Except Fault Schema
  now : F

/-- `deque(maxlen=n)`. -/
structure Deque (α : Type) (n : Nat) where
  items : List α
  bounded : items.length ≤ n

/-- A full deque drops from the left. -/
def Deque.append {α : Type} {n : Nat} (d : Deque α n) (x : α) : Deque α n :=
  ⟨(d.items ++ [x]).rtake n, by
    rw [List.rtake_eq_reverse_take_reverse, List.length_reverse]
    exact List.length_take_le n _⟩

/-- Latency samples kept. -/
def latencySamples : Nat := 200

/-- The buffer holds `settings.cdc_buffer_size` records. -/
structure Tail (F Schema : Type) (size : Nat) where
  buffer : Deque (Record F) size
  seq : Nat
  consumed : Nat
  decodeFailures : Nat
  schemas : Nat → Option Schema
  backfillUntil : Text × Nat → Option Nat
  latencies : Deque F latencySamples
  lastRecordAtMs : Option Int

def envelopeFields : List Text :=
  ["timestampMicros".toList, "sourceTable".toList, "sourceKeyspace".toList, "truncatedFields".toList,
    "version".toList, "operationType".toList, "isPartial".toList, "updateFields".toList, "range".toList,
    "ttl".toList, "payload".toList]

/-! ## Decoding -/

def headerBytes : Nat := 5
def magicByte : UInt8 := 0

def hex (b : List UInt8) : Text := b.flatMap fun x => [Nat.digitChar (x.toNat / 16), Nat.digitChar (x.toNat % 16)]

def notFramed (payload : List UInt8) : Fault :=
  ⟨"ValueError".toList, "not Confluent-framed: ".toList ++ (toString payload.length).toList ++
    " bytes beginning ".toList ++ if payload.isEmpty then "nothing".toList else hex (payload.take 1)⟩

/-- The id of the schema, and the bytes after the header. -/
def unframe (payload : List UInt8) : Except Fault (Nat × List UInt8) :=
  if payload.length < headerBytes ∨ payload.head? ≠ some magicByte then .error (notFramed payload)
  else .ok (((payload.take headerBytes).drop 1).foldl (fun n b => n * 256 + b.toNat) 0, payload.drop headerBytes)

/-- `_schema`: fetched once per id, and kept. -/
def Tail.schema (t : Tail F Schema size) (id : Nat) (fetched : Except Fault Schema) :
    Tail F Schema size × Except Fault Schema :=
  match t.schemas id, fetched with
  | some cached, _ => (t, .ok cached)
  | none, .ok parsed => ({ t with schemas := fun i => if i = id then some parsed else t.schemas i }, .ok parsed)
  | none, .error e => (t, .error e)

/-- The record before its value is read. -/
def start (I : Interp F) (t : Tail F Schema size) (m : Message) : Record F :=
  let bytes := m.key.getD []
  let key := if bytes.isEmpty then [] else I.utf8 bytes
  let parts := key.splitOn ':'
  let named := decide (2 ≤ parts.length)
  { seq := t.seq
    partition := m.partition
    offset := m.offset
    key := key
    keyspace := if named then parts.getD 0 [] else []
    table := if named then parts.getD 1 [] else []
    operation := []
    mutationAtMs := 0
    kafkaAtMs := m.timestamp.getD 0
    ageMs := none
    backfill := decide (m.offset < (t.backfillUntil (m.topic, m.partition)).getD 0)
    isPartial := false
    columns := []
    updateFields := []
    schemaId := none
    decodeError := none }

/-- The row's columns: those of `payload`, or whatever is not of the envelope. -/
def columnsOf (fields : List (Text × Value F)) : List (Text × Value F) :=
  match fields.lookup "payload".toList with
  | some (.dict es) => es
  | _ => fields.filter fun e => e.1 ∉ envelopeFields

def Value.columns : Value F → Except Exn (List (Text × Value F))
  | .dict es => .ok (columnsOf es)
  | _ => .error .attribute

/-- The part of `_decode` after its `try`. -/
def finish (I : Interp F) (now : F) (record : Record F) (decoded : Value F) : Except Exn (Record F) := do
  let operation ← (← decoded.getOr I "operationType".toList (.str [])).text I
  let keyspace ← (← decoded.getOr I "sourceKeyspace".toList (.str record.keyspace)).text I
  let table ← (← decoded.getOr I "sourceTable".toList (.str record.table)).text I
  let isPartial ← decoded.getOr I "isPartial".toList (.bool false)
  let micros ← decoded.getOr I "timestampMicros".toList (.int 0)
  let mutationAtMs ← micros.milliseconds I
  let named ← decoded.getOr I "updateFields".toList (.list [])
  let updateFields ← named.names I
  let columns ← (← decoded.columns).mapM fun e => (e.1, ·) <$> jsonSafe I I.jsonDepth e.2
  return { record with
    operation := operation
    keyspace := keyspace
    table := table
    isPartial := isPartial.truthy I
    mutationAtMs := mutationAtMs
    updateFields := updateFields
    columns := columns
    ageMs := if mutationAtMs != 0 && !record.backfill then some (I.round1 (I.age now mutationAtMs)) else none }

/-- What a decoded record leaves behind. -/
def Tail.note (I : Interp F) (t : Tail F Schema size) (now : F) (record : Record F) : Tail F Schema size :=
  { t with
    latencies :=
      if record.ageMs.isSome then t.latencies.append (I.age now record.mutationAtMs) else t.latencies
    lastRecordAtMs := some (if record.kafkaAtMs != 0 then record.kafkaAtMs else record.mutationAtMs) }

def failed (t : Tail F Schema size) (record : Record F) (fault : Fault) : Tail F Schema size × Except Exn (Record F) :=
  ({ t with decodeFailures := t.decodeFailures + 1 },
    .ok { record with decodeError := some (fault.type ++ ": ".toList ++ fault.text) })

section
variable (I : Interp F) (reader : List UInt8 → Schema → Except Fault (Value F))

/-- `_decode`: the tail afterwards, and the record or what is raised. -/
def decode (t : Tail F Schema size) (m : Message) (answer : Answer F Schema) :
    Tail F Schema size × Except Exn (Record F) :=
  let t := { t with seq := t.seq + 1 }
  let record := start I t m
  match unframe (m.value.getD []) with
  | .error fault => failed t record fault
  | .ok (id, body) =>
    let record := { record with schemaId := some id }
    match t.schema id answer.fetched with
    | (t, .error fault) => failed t record fault
    | (t, .ok schema) =>
      match reader body schema with
      | .error fault => failed t record fault
      | .ok decoded =>
        match finish I answer.now record decoded with
        | .error e => (t, .error e)
        | .ok record => (t.note I answer.now record, .ok record)

/-- `_ingest`: the messages of a poll, until one raises. -/
def ingest (t : Tail F Schema size) : List (Message × Answer F Schema) → Tail F Schema size × Option Exn
  | [] => (t, none)
  | (m, answer) :: rest =>
    match decode I reader { t with consumed := t.consumed + 1 } m answer with
    | (t, .ok record) => ingest { t with buffer := t.buffer.append record } rest
    | (t, .error e) => (t, some e)

end

/-! ## What the unprotected part takes for granted -/

def Value.printable (I : Interp F) : Value F → Bool
  | .str _ => true
  | v => v.within I.strDepth

/-- A count of microseconds that `int(v // 1000)` can take. -/
def Value.countable (I : Interp F) : Value F → Bool
  | .bool _ | .int _ => true
  | .float x => I.finite x
  | .decimal d => decide (d.thousandth < 10 ^ decimalPrecision)
  | _ => false

/-- The fields of a record that the rest of `_decode` can read: where they are
there and not empty, the three texts can be printed, `timestampMicros` is a number,
`updateFields` is something to go over, and the columns are not nested too deep. -/
structure Usable (I : Interp F) (fields : List (Text × Value F)) : Prop where
  texts : ∀ name ∈ ["operationType".toList, "sourceKeyspace".toList, "sourceTable".toList],
    ∀ v ∈ fields.lookup name, v.truthy I = true → v.printable I = true
  micros : ∀ v ∈ fields.lookup "timestampMicros".toList, v.truthy I = true → v.countable I = true
  named : ∀ v ∈ fields.lookup "updateFields".toList, v.truthy I = true →
    ∃ items, v.items = .ok items ∧ ∀ x ∈ items, x.printable I = true
  columns : ∀ e ∈ columnsOf fields, e.2.within I.jsonDepth = true

variable {I : Interp F}

theorem returns_text {v : Value F} : Returns (v.text I) ↔ v.printable I = true := by
  cases v with
  | str s => simp [Value.text, Value.printable]
  | _ =>
    simp only [Value.text, Value.printable]
    split <;> simp_all

theorem returns_milliseconds {v : Value F} : Returns (v.milliseconds I) ↔ v.countable I = true := by
  cases v with
  | float x =>
    simp only [Value.milliseconds, Value.countable]
    split <;> simp_all
  | decimal d =>
    simp only [Value.milliseconds, Value.countable, decide_eq_true_eq]
    split <;> simp_all
  | _ => simp [Value.milliseconds, Value.countable]

theorem returns_jsonSafe {n : Nat} {v : Value F} : Returns (jsonSafe I n v) ↔ v.within n = true := by
  induction n generalizing v with
  | zero => simp [jsonSafe, Value.within]
  | succ n ih => cases v <;> simp [jsonSafe, Value.within, ih]

/-- What `get(key) or default` is, of a dict. -/
def fieldOr (I : Interp F) (fields : List (Text × Value F)) (key : Text) (default : Value F) : Value F :=
  let x := (fields.lookup key).getD .none
  if x.truthy I then x else default

/-- A property that the default has is one of the field, if that is not empty. -/
theorem fieldOr_iff (fields : List (Text × Value F)) (key : Text) {default : Value F} {p : Value F → Prop}
    (hp : p default) : p (fieldOr I fields key default) ↔ ∀ v ∈ fields.lookup key, v.truthy I = true → p v := by
  unfold fieldOr
  cases h : fields.lookup key with
  | none => simp [Value.truthy, hp]
  | some v => cases ht : v.truthy I <;> simp [ht, hp]

theorem returns_names {v : Value F} :
    Returns (v.names I) ↔ ∃ items, v.items = .ok items ∧ ∀ x ∈ items, x.printable I = true := by
  simp only [Value.names, returns_bind, returns_mapM, returns_text]

/-- Of a dict, the lines that may raise do so or not one by one. -/
theorem returns_finish_dict {now : F} {record : Record F} {fields : List (Text × Value F)} :
    Returns (finish I now record (.dict fields)) ↔
      Returns ((fieldOr I fields "operationType".toList (.str [])).text I) ∧
      Returns ((fieldOr I fields "sourceKeyspace".toList (.str record.keyspace)).text I) ∧
      Returns ((fieldOr I fields "sourceTable".toList (.str record.table)).text I) ∧
      Returns ((fieldOr I fields "timestampMicros".toList (.int 0)).milliseconds I) ∧
      Returns ((fieldOr I fields "updateFields".toList (.list [])).names I) ∧
      ∀ e ∈ columnsOf fields, Returns (jsonSafe I I.jsonDepth e.2) := by
  have hor (key : Text) (default : Value F) :
      (Value.dict fields).getOr I key default = .ok (fieldOr I fields key default) := rfl
  unfold finish
  simp only [hor, ok_bind, Value.columns]
  refine returns_bind_and fun _ _ => returns_bind_and fun _ _ => returns_bind_and fun _ _ =>
    returns_bind_and fun _ _ => returns_bind_and fun _ _ => ?_
  rw [returns_bind_and fun _ _ => iff_true_intro (returns_pure _), and_true, returns_mapM]
  simp only [returns_map]

theorem returns_finish {now : F} {record : Record F} {decoded : Value F} :
    Returns (finish I now record decoded) ↔ ∃ fields, decoded = .dict fields ∧ Usable I fields := by
  cases decoded with
  | dict fields =>
    have htext (key : Text) (s : Text) : Returns ((fieldOr I fields key (.str s)).text I) ↔
        ∀ v ∈ fields.lookup key, v.truthy I = true → v.printable I = true :=
      returns_text.trans (fieldOr_iff fields key (p := fun v => v.printable I = true) rfl)
    have hmicros := returns_milliseconds.trans
      (fieldOr_iff (I := I) fields "timestampMicros".toList (p := fun v => v.countable I = true)
        (show (Value.int 0).countable I = true from rfl))
    have hnames := returns_names.trans
      (fieldOr_iff (I := I) fields "updateFields".toList
        (p := fun v => ∃ items, v.items = .ok items ∧ ∀ x ∈ items, x.printable I = true)
        (show ∃ items, (Value.list []).items = .ok items ∧ _ from ⟨[], rfl, by simp⟩))
    rw [returns_finish_dict, htext, htext, htext, hmicros, hnames]
    simp only [returns_jsonSafe]
    constructor
    · rintro ⟨ho, hk, ht, hm, hn, hc⟩
      exact ⟨fields, rfl, by simpa using ⟨ho, hk, ht⟩, hm, hn, hc⟩
    · rintro ⟨_, ⟨⟩, htexts, hm, hn, hc⟩
      exact ⟨htexts _ (by simp), htexts _ (by simp), htexts _ (by simp), hm, hn, hc⟩
  | _ => simp [finish, Value.getOr, Value.get, returns_bind]

/-! ## One record for each message -/

section
variable (I : Interp F) (reader : List UInt8 → Schema → Except Fault (Value F))

/-- What the protected part of `_decode` comes to. -/
def decoded (t : Tail F Schema size) (m : Message) (answer : Answer F Schema) : Except Fault (Value F) := do
  let (id, body) ← unframe (m.value.getD [])
  let schema ← (t.schema id answer.fetched).2
  reader body schema

/-- The message's value does not decode, or decodes to a record that can be used. -/
def Message.Usable (t : Tail F Schema size) (m : Message) (answer : Answer F Schema) : Prop :=
  ∀ v, decoded reader t m answer = .ok v → ∃ fields, v = .dict fields ∧ CdcTail.Usable I fields

/-- The message became this record, and counts as a failure if that is one. -/
structure Recorded (t : Tail F Schema size) (m : Message) (t' : Tail F Schema size) (record : Record F) : Prop where
  partition : record.partition = m.partition
  offset : record.offset = m.offset
  failures : t'.decodeFailures = t.decodeFailures + if record.decodeError.isSome then 1 else 0
  buffer : t'.buffer = t.buffer
  consumed : t'.consumed = t.consumed

/-- One record, decoded or with a decode error, and nothing raised. -/
def Answered (t : Tail F Schema size) (m : Message) (answer : Answer F Schema) : Prop :=
  ∃ t' record, decode I reader t m answer = (t', .ok record) ∧ Recorded t m t' record

/-- Every message, in its turn, is usable. -/
def AllUsable : Tail F Schema size → List (Message × Answer F Schema) → Prop
  | _, [] => True
  | t, (m, answer) :: rest => m.Usable I reader { t with consumed := t.consumed + 1 } answer ∧
      ∀ t' record, decode I reader { t with consumed := t.consumed + 1 } m answer = (t', .ok record) →
        AllUsable { t' with buffer := t'.buffer.append record } rest

/-- The buffer takes one record for each message, in their order, and the counts
follow. -/
def Kept (t : Tail F Schema size) (batch : List (Message × Answer F Schema)) : Prop :=
  ∃ t' records, ingest I reader t batch = (t', none) ∧
    records.map (fun r => (r.partition, r.offset)) = batch.map (fun b => (b.1.partition, b.1.offset)) ∧
    t'.buffer.items = (t.buffer.items ++ records).rtake size ∧
    t'.consumed = t.consumed + batch.length ∧
    t'.decodeFailures = t.decodeFailures + records.countP (·.decodeError.isSome)

variable {I reader} {t : Tail F Schema size} {m : Message} {answer : Answer F Schema}

/-- What asking for a schema changes is the cache, and what it answers does not
depend on the message's number. -/
theorem schema_seq (t : Tail F Schema size) (n id : Nat) (fetched : Except Fault Schema) :
    ∃ schemas, Tail.schema { t with seq := n } id fetched =
      ({ t with seq := n, schemas := schemas }, (t.schema id fetched).2) := by
  unfold Tail.schema
  cases t.schemas id with
  | some cached => exact ⟨_, rfl⟩
  | none => cases fetched <;> exact ⟨_, rfl⟩

theorem answered_failed (t' : Tail F Schema size) (record : Record F) (fault : Fault)
    (hdecode : decode I reader t m answer = failed t' record fault)
    (hrecord : record.partition = m.partition ∧ record.offset = m.offset)
    (ht : t'.decodeFailures = t.decodeFailures ∧ t'.buffer = t.buffer ∧ t'.consumed = t.consumed) :
    Answered I reader t m answer :=
  ⟨_, _, hdecode, hrecord.1, hrecord.2, by simp [ht.1], ht.2.1, ht.2.2⟩

/-- Whatever the protected part raises becomes a record. -/
theorem answered_of_error {fault : Fault} (h : decoded reader t m answer = .error fault) :
    Answered I reader t m answer := by
  unfold decoded at h
  cases hframe : unframe (m.value.getD []) with
  | error f =>
    refine answered_failed { t with seq := t.seq + 1 } (start I { t with seq := t.seq + 1 } m) f ?_ ⟨rfl, rfl⟩
      ⟨rfl, rfl, rfl⟩
    simp only [decode, hframe]
  | ok framed =>
    obtain ⟨id, body⟩ := framed
    obtain ⟨schemas, hschema⟩ := schema_seq t (t.seq + 1) id answer.fetched
    rw [hframe, ok_bind] at h
    have hrecord (f : Fault)
        (hf : decode I reader t m answer = failed { t with seq := t.seq + 1, schemas := schemas }
          { start I { t with seq := t.seq + 1 } m with schemaId := some id } f) : Answered I reader t m answer :=
      answered_failed _ _ f hf ⟨rfl, rfl⟩ ⟨rfl, rfl, rfl⟩
    cases hs : (t.schema id answer.fetched).2 with
    | error f =>
      refine hrecord f ?_
      simp only [decode, hframe, hschema, hs]
    | ok schema =>
      refine hrecord fault ?_
      have hr : reader body schema = .error fault := by simpa only [hs, ok_bind] using h
      simp only [decode, hframe, hschema, hs, hr]

theorem decode_of_ok {v : Value F} (h : decoded reader t m answer = .ok v) :
    ∃ t' record, Recorded t m t' record ∧ record.decodeError = none ∧
      decode I reader t m answer = match finish I answer.now record v with
        | .error e => (t', .error e)
        | .ok r => (t'.note I answer.now r, .ok r) := by
  unfold decoded at h
  cases hframe : unframe (m.value.getD []) with
  | error f => simp [hframe, bind, Except.bind] at h
  | ok framed =>
    obtain ⟨id, body⟩ := framed
    obtain ⟨schemas, hschema⟩ := schema_seq t (t.seq + 1) id answer.fetched
    rw [hframe, ok_bind] at h
    cases hs : (t.schema id answer.fetched).2 with
    | error f => simp [hs, bind, Except.bind] at h
    | ok schema =>
      have hr : reader body schema = .ok v := by simpa only [hs, ok_bind] using h
      refine ⟨{ t with seq := t.seq + 1, schemas := schemas },
        { start I { t with seq := t.seq + 1 } m with schemaId := some id }, ⟨rfl, rfl, rfl, rfl, rfl⟩, rfl, ?_⟩
      simp only [decode, hframe, hschema, hs, hr]

theorem finish_frame {now : F} {record r : Record F} {v : Value F} (h : finish I now record v = .ok r) :
    r.seq = record.seq ∧ r.partition = record.partition ∧ r.offset = record.offset ∧
      r.decodeError = record.decodeError := by
  unfold finish at h
  simp only [bind_eq_ok, pure, Except.pure, Except.ok.injEq] at h
  -- one line of the block after the other returns
  iterate 13 obtain ⟨_, -, h⟩ := h
  subst h
  exact ⟨rfl, rfl, rfl, rfl⟩

theorem usable_iff_finish {v : Value F} {record : Record F} (h : decoded reader t m answer = .ok v) :
    m.Usable I reader t answer ↔ Returns (finish I answer.now record v) := by
  rw [returns_finish]
  constructor
  · exact fun hu => hu v h
  · intro hf w hw
    cases h.symm.trans hw
    exact hf

theorem usable_of_decode {t' : Tail F Schema size} {r : Record F}
    (hr : decode I reader t m answer = (t', .ok r)) : m.Usable I reader t answer := by
  cases h : decoded reader t m answer with
  | error fault =>
    intro v hv
    cases h.symm.trans hv
  | ok v =>
    obtain ⟨_, record, -, -, hdecode⟩ := decode_of_ok (I := I) h
    rw [hdecode] at hr
    rw [usable_iff_finish h]
    split at hr
    · cases hr
    · exact ⟨_, ‹_›⟩

/-- A message is answered by one record exactly when it is usable. -/
theorem answered_iff : Answered I reader t m answer ↔ m.Usable I reader t answer := by
  constructor
  · rintro ⟨t', r, hr, -⟩
    exact usable_of_decode hr
  · intro husable
    cases h : decoded reader t m answer with
    | error fault => exact answered_of_error h
    | ok v =>
      obtain ⟨t', record, hrec, herror, hdecode⟩ := decode_of_ok (I := I) h
      obtain ⟨r, hr⟩ := (usable_iff_finish h).1 husable
      obtain ⟨-, hp, ho, he⟩ := finish_frame hr
      refine ⟨t'.note I answer.now r, r, by rw [hdecode, hr], hp.trans hrec.partition, ho.trans hrec.offset, ?_,
        hrec.buffer, hrec.consumed⟩
      simpa [he, Tail.note] using hrec.failures

/-! ## A batch -/

theorem Deque.items_append {α : Type} {n : Nat} (d : Deque α n) (x : α) :
    (d.append x).items <:+ d.items ++ [x] := List.drop_suffix _ _

theorem rtake_rtake_append {α : Type} (n : Nat) (xs ys : List α) : (xs.rtake n ++ ys).rtake n = (xs ++ ys).rtake n := by
  simp only [List.rtake_eq_reverse_take_reverse, List.reverse_append, List.reverse_reverse, List.take_append,
    List.length_reverse, List.take_take, Nat.min_eq_left (Nat.sub_le n ys.length)]

theorem Deque.rtake_items {α : Type} {n : Nat} (d : Deque α n) : d.items.rtake n = d.items := by
  have := d.bounded
  simp [List.rtake, Nat.sub_eq_zero_of_le this]

theorem allUsable_of_ingest (batch : List (Message × Answer F Schema)) (t : Tail F Schema size)
    (h : (ingest I reader t batch).2 = none) : AllUsable I reader t batch := by
  induction batch generalizing t with
  | nil => trivial
  | cons head rest ih =>
    obtain ⟨m, answer⟩ := head
    unfold ingest at h
    split at h
    · rename_i t' record hdecode
      refine ⟨usable_of_decode hdecode, fun t'' r hr => ?_⟩
      cases hdecode.symm.trans hr
      exact ih _ h
    · cases h

/-- A batch is kept exactly when each of its messages, in its turn, is usable. -/
theorem kept_iff (batch : List (Message × Answer F Schema)) (t : Tail F Schema size) :
    Kept I reader t batch ↔ AllUsable I reader t batch := by
  constructor
  · rintro ⟨t', records, hingest, -⟩
    exact allUsable_of_ingest batch t (by rw [hingest])
  · intro h
    induction batch generalizing t with
    | nil =>
      refine ⟨t, [], rfl, rfl, ?_, rfl, rfl⟩
      simp [Deque.rtake_items]
    | cons head rest ih =>
      obtain ⟨m, answer⟩ := head
      obtain ⟨t', record, hdecode, hrec⟩ := answered_iff.2 h.1
      obtain ⟨t'', records, hingest, hplaces, hbuffer, hconsumed, hfailures⟩ := ih _ (h.2 t' record hdecode)
      have hc : t'.consumed = t.consumed + 1 := hrec.consumed
      have hf : t'.decodeFailures = t.decodeFailures + if record.decodeError.isSome then 1 else 0 := hrec.failures
      refine ⟨t'', record :: records, ?_, ?_, ?_, ?_, ?_⟩
      · simp only [ingest, hdecode, hingest]
      · simp [hplaces, hrec.partition, hrec.offset]
      · rw [hbuffer, Deque.append, rtake_rtake_append, hrec.buffer, List.append_assoc]
        rfl
      · simp only [hconsumed, hc, List.length_cons]
        omega
      · simp only [hfailures, hf, List.countP_cons]
        omega

end

/-- No message stops or skews the tail exactly when each is usable: from any tail,
for any bytes, any answer of the registry and anything that reading Avro yields. -/
theorem decode_iff (I : Interp F) (reader : List UInt8 → Schema → Except Fault (Value F)) :
    (∀ (t : Tail F Schema size) (m : Message) (answer : Answer F Schema),
      Answered I reader t m answer ↔ m.Usable I reader t answer) ∧
    ∀ (t : Tail F Schema size) (batch : List (Message × Answer F Schema)),
      Kept I reader t batch ↔ AllUsable I reader t batch :=
  ⟨fun _ _ _ => answered_iff, fun t batch => kept_iff batch t⟩

/-! ## A value of the schema `"string"` -/

/-- An interpreter as far as ASCII and no floats need one. -/
def ascii : Interp Unit where
  utf8 b := b.map fun x => Char.ofNat x.toNat
  base64 _ := []
  repr _ := []
  truthy _ := false
  finite _ := true
  floorDiv _ _ := 0
  age _ _ := ()
  round1 x := x
  strDepth := 1000
  jsonDepth := 1000

/-- Reading a short Avro string: its length in zigzag, and its bytes. -/
def readString : List UInt8 → Unit → Except Fault (Value Unit)
  | [], _ => .error ⟨"EOFError".toList, []⟩
  | n :: bytes, _ =>
    if bytes.length < n.toNat / 2 then .error ⟨"EOFError".toList, []⟩
    else .ok (.str ((bytes.take (n.toNat / 2)).map fun x => Char.ofNat x.toNat))

def attached : Tail Unit Unit 50 := ⟨⟨[], by decide⟩, 0, 0, 0, fun _ => none, fun _ => none, ⟨[], by decide⟩, none⟩

/-- Schema 7 and the string `hi`. -/
def hi : Message := ⟨"cdc".toList, 0, 0, none, some [0, 0, 0, 0, 7, 4, 104, 105], some 1⟩

theorem string_schema_raises :
    ¬ ∀ (t : Tail Unit Unit 50) (m : Message) (answer : Answer Unit Unit), Answered ascii readString t m answer := by
  intro h
  obtain ⟨t', record, hdecode, -⟩ := h attached hi ⟨.ok (), ()⟩
  have hraises : (decode ascii readString attached hi ⟨.ok (), ()⟩).2 = .error .attribute := rfl
  rw [hdecode] at hraises
  cases hraises

end HtapStack.CdcTail
