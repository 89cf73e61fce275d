import HtapStack.Lib.Binary64
import HtapStack.Streaming.CdcTail
/-!
# Decoded values as JSON

`_json_safe` of `backend/app/routes/streaming.py` makes the columns of a CDC record
from what decoding Avro yields, and the route that shows the records serialises them
as standard JSON, in which there is no NaN and no infinity.

`jsonSafe_standard_iff`: what `_json_safe` makes of a value is JSON, and a record's
columns can be serialised, exactly if no float among the values is infinite or not a
number; `_json_safe` leaves floats as they are. `nan_not_json` is one that is not.
-/

namespace HtapStack.CdcTail

variable {F : Type} {I : Interp F} {D : Py.FloatReprs F} {n : Nat} {v r : Value F}

/-- A float among the values. -/
inductive Value.Has (x : F) : Value F → Prop
  | here : Has x (.float x)
  | list {v : Value F} {xs : List (Value F)} (hv : v ∈ xs) (h : Has x v) : Has x (.list xs)
  | dict {e : Text × Value F} {es : List (Text × Value F)} (he : e ∈ es) (h : Has x e.2) : Has x (.dict es)

/-- Nothing but null, booleans, strings, finite numbers, lists and objects. -/
inductive Value.IsJson (D : Py.FloatReprs F) : Value F → Prop
  | none : IsJson D .none
  | bool (b : Bool) : IsJson D (.bool b)
  | int (i : Int64) : IsJson D (.int i)
  | float {x : F} (h : D.isFinite x = true) : IsJson D (.float x)
  | str (s : Text) : IsJson D (.str s)
  | list {xs : List (Value F)} (h : ∀ v ∈ xs, IsJson D v) : IsJson D (.list xs)
  | dict {es : List (Text × Value F)} (h : ∀ e ∈ es, IsJson D e.2) : IsJson D (.dict es)

/-- The value as `json` sees it: what is neither of JSON's kinds nor a container is foreign to it. -/
def Value.toObj (I : Interp F) (v : Value F) : Py.Obj F :=
  match v with
  | .none => .none
  | .bool b => .bool b
  | .int i => .int i.toInt
  | .float x => .float x
  | .str s => .str s
  | .list xs => .list (xs.map fun x => x.toObj I)
  | .dict es => .dict (es.map fun e => (.str e.1, e.2.toObj I))
  | v => .other (I.repr v)
  termination_by sizeOf v
  decreasing_by
  · have hlt := List.sizeOf_lt_of_mem ‹x ∈ xs›
    simp only [Value.list.sizeOf_spec]
    omega
  · have hlt := List.sizeOf_lt_of_mem ‹e ∈ es›
    obtain ⟨key, w⟩ := e
    simp only [Prod.mk.sizeOf_spec, Value.dict.sizeOf_spec] at hlt ⊢
    omega

/-- `json.dumps(v, allow_nan=False)`, as the JSON response has it. -/
def standard : Py.Options := ⟨false, false⟩

theorem has_list {x : F} {xs : List (Value F)} : Value.Has x (.list xs) ↔ ∃ v ∈ xs, v.Has x := by
  constructor
  · rintro (_ | ⟨hv, h⟩)
    exact ⟨_, hv, h⟩
  · exact fun ⟨_, hv, h⟩ => .list hv h

theorem has_dict {x : F} {es : List (Text × Value F)} : Value.Has x (.dict es) ↔ ∃ e ∈ es, e.2.Has x := by
  constructor
  · rintro (_ | _ | ⟨he, h⟩)
    exact ⟨_, he, h⟩
  · exact fun ⟨_, he, h⟩ => .dict he h

/-- What `_json_safe` returns, by the kind of the value: apart from a float, there is none in a leaf. -/
theorem jsonSafe_cases (h : jsonSafe I (n + 1) v = .ok r) :
    (∃ x, v = .float x ∧ r = .float x) ∨ (∀ x, ¬ v.Has x) ∧
      (r = .none ∨ (∃ b, r = .bool b) ∨ (∃ i, r = .int i) ∨ (∃ s, r = .str s) ∨ ∃ key s, r = .dict [(key, .str s)]) ∨
    (∃ xs rs, v = .list xs ∧ r = .list rs ∧ List.Forall₂ (fun x r => jsonSafe I n x = .ok r) xs rs) ∨
    ∃ es rs, v = .dict es ∧ r = .dict rs ∧ List.Forall₂ (fun e r => jsonSafe I n e.2 = .ok r.2) es rs := by
  cases v with
  | none =>
    cases h
    exact .inr (.inl ⟨fun x hx => (nomatch hx), .inl rfl⟩)
  | bool b =>
    cases h
    exact .inr (.inl ⟨fun x hx => (nomatch hx), .inr (.inl ⟨b, rfl⟩)⟩)
  | int i =>
    cases h
    exact .inr (.inl ⟨fun x hx => (nomatch hx), .inr (.inr (.inl ⟨i, rfl⟩))⟩)
  | float x =>
    cases h
    exact .inl ⟨x, rfl, rfl⟩
  | bytes b =>
    cases h
    exact .inr (.inl ⟨fun x hx => (nomatch hx), .inr (.inr (.inr (.inr ⟨_, _, rfl⟩)))⟩)
  | str | datetime | date | time | decimal | uuid =>
    cases h
    exact .inr (.inl ⟨fun x hx => (nomatch hx), .inr (.inr (.inr (.inl ⟨_, rfl⟩)))⟩)
  | list xs =>
    obtain ⟨rs, hrs, rfl⟩ := map_eq_ok.1 h
    exact .inr (.inr (.inl ⟨xs, rs, rfl, rfl, Py.mapM_forall₂ hrs⟩))
  | dict es =>
    obtain ⟨rs, hrs, rfl⟩ := map_eq_ok.1 h
    refine .inr (.inr (.inr ⟨es, rs, rfl, rfl, (Py.mapM_forall₂ hrs).imp fun e r he => ?_⟩))
    obtain ⟨w, hw, rfl⟩ := map_eq_ok.1 he
    exact hw

/-- Floats stay as they are. -/
theorem isJson_jsonSafe (h : jsonSafe I n v = .ok r) : r.IsJson D ↔ ∀ x, v.Has x → D.isFinite x = true := by
  induction n generalizing v r with
  | zero => cases h
  | succ n ih =>
    rcases jsonSafe_cases h with ⟨x, rfl, rfl⟩ | ⟨hnone, hr⟩ | ⟨xs, rs, rfl, rfl, hrs⟩ | ⟨es, rs, rfl, rfl, hrs⟩
    · constructor
      · rintro (_ | _ | _ | hx) y hy
        cases hy
        exact hx
      · exact fun hx => .float (hx x .here)
    · refine iff_of_true ?_ fun x hx => absurd hx (hnone x)
      rcases hr with rfl | ⟨b, rfl⟩ | ⟨i, rfl⟩ | ⟨s, rfl⟩ | ⟨key, s, rfl⟩
      · exact .none
      · exact .bool b
      · exact .int i
      · exact .str s
      · refine .dict fun e he => ?_
        obtain rfl := List.mem_singleton.1 he
        exact .str s
    · simp only [has_list]
      constructor
      · rintro (_ | _ | _ | _ | _ | hr) x ⟨v, hv, hx⟩
        obtain ⟨w, hw, hvw⟩ := Py.mem_of_forall₂ hrs.flip hv
        exact (ih hvw).1 (hr w hw) x hx
      · refine fun hx => .list fun w hw => ?_
        obtain ⟨v, hv, hvw⟩ := Py.mem_of_forall₂ hrs hw
        exact (ih hvw).2 fun x h => hx x ⟨v, hv, h⟩
    · simp only [has_dict]
      constructor
      · rintro (_ | _ | _ | _ | _ | _ | hr) x ⟨v, hv, hx⟩
        obtain ⟨w, hw, hvw⟩ := Py.mem_of_forall₂ hrs.flip hv
        exact (ih hvw).1 (hr w hw) x hx
      · refine fun hx => .dict fun w hw => ?_
        obtain ⟨v, hv, hvw⟩ := Py.mem_of_forall₂ hrs hw
        exact (ih hvw).2 fun x h => hx x ⟨v, hv, h⟩

/-- With a call more than `_json_safe` had, `json.dumps` goes through. -/
theorem returns_standard {m : Nat} (hm : n < m) (h : jsonSafe I n v = .ok r) :
    Returns (Py.dumps D standard m (r.toObj I)) ↔ r.IsJson D := by
  induction n generalizing v r m with
  | zero => cases h
  | succ n ih =>
    obtain ⟨m, rfl⟩ : ∃ k, m = k + 1 := ⟨m - 1, by omega⟩
    rcases jsonSafe_cases h with ⟨x, rfl, rfl⟩ | ⟨-, hr⟩ | ⟨xs, rs, rfl, rfl, hrs⟩ | ⟨es, rs, rfl, rfl, hrs⟩
    · rw [Value.toObj, Py.returns_float]
      constructor
      · rintro (hnan | hx)
        · cases hnan
        · exact .float hx
      · rintro (_ | _ | _ | hx)
        exact .inr hx
    · obtain ⟨m, rfl⟩ : ∃ k, m = k + 1 := ⟨m - 1, by omega⟩
      rcases hr with rfl | ⟨b, rfl⟩ | ⟨i, rfl⟩ | ⟨s, rfl⟩ | ⟨key, s, rfl⟩
      · exact iff_of_true (by simp [Value.toObj]) .none
      · exact iff_of_true (by simp [Value.toObj]) (.bool b)
      · have hint : Returns (Py.intText i.toInt) := by
          refine Py.returns_intText ?_
          have hlow := i.le_toInt
          have hhigh := i.toInt_lt
          omega
        exact iff_of_true (by simpa [Value.toObj] using hint) (.int i)
      · exact iff_of_true (by simp [Value.toObj]) (.str s)
      · refine iff_of_true (by simp [Value.toObj]) (.dict fun e he => ?_)
        obtain rfl := List.mem_singleton.1 he
        exact .str s
    · rw [Value.toObj, Py.returns_list, List.forall_mem_map]
      constructor
      · refine fun hall => .list fun w hw => ?_
        obtain ⟨v, -, hvw⟩ := Py.mem_of_forall₂ hrs hw
        exact (ih (by omega) hvw).1 (hall w hw)
      · rintro (_ | _ | _ | _ | _ | hall) w hw
        obtain ⟨v, -, hvw⟩ := Py.mem_of_forall₂ hrs hw
        exact (ih (by omega) hvw).2 (hall w hw)
    · rw [Value.toObj, Py.returns_dict, List.forall_mem_map]
      constructor
      · refine fun hall => .dict fun w hw => ?_
        obtain ⟨v, -, hvw⟩ := Py.mem_of_forall₂ hrs hw
        exact (ih (by omega) hvw).1 (hall w hw).2
      · rintro (_ | _ | _ | _ | _ | _ | hall) w hw
        obtain ⟨v, -, hvw⟩ := Py.mem_of_forall₂ hrs hw
        exact ⟨Py.returns_name _, (ih (by omega) hvw).2 (hall w hw)⟩

/-! ## Columns -/

/-- The columns as they are shown. -/
def Record.columnsObj (I : Interp F) (record : Record F) : Py.Obj F :=
  .dict (record.columns.map fun e => (.str e.1, e.2.toObj I))

theorem finish_columns {now : F} {record buffered : Record F} {fields : List (Text × Value F)}
    (h : finish I now record (.dict fields) = .ok buffered) :
    List.Forall₂ (fun e c => jsonSafe I I.jsonDepth e.2 = .ok c.2) (columnsOf fields) buffered.columns := by
  unfold finish at h
  simp only [bind_eq_ok, pure, Except.pure, Except.ok.injEq] at h
  iterate 11 obtain ⟨_, -, h⟩ := h
  obtain ⟨columns, hcolumns, shown, hshown, h⟩ := h
  subst h
  obtain rfl := Except.ok.inj hcolumns
  refine (Py.mapM_forall₂ hshown).imp fun e c hc => ?_
  obtain ⟨w, hw, rfl⟩ := map_eq_ok.1 hc
  exact hw

/-- What `_json_safe` makes of a value is JSON, and the columns of a record can be serialised, exactly
if the floats that decoding yields are finite, as deep as Python recurses. -/
theorem jsonSafe_standard_iff (I : Interp F) (D : Py.FloatReprs F) :
    (∀ n v, (∃ r, jsonSafe I n v = .ok r ∧ r.IsJson D ∧ ∀ m, n < m → Returns (Py.dumps D standard m (r.toObj I))) ↔
      v.within n = true ∧ ∀ x, v.Has x → D.isFinite x = true) ∧
    ∀ now record buffered fields, finish I now record (.dict fields) = .ok buffered →
      ((∀ m, I.jsonDepth + 1 < m → Returns (Py.dumps D standard m (buffered.columnsObj I))) ↔
        ∀ e ∈ columnsOf fields, ∀ x, e.2.Has x → D.isFinite x = true) := by
  refine ⟨fun n v => ?_, fun now record buffered fields h => ?_⟩
  · rw [← returns_jsonSafe (I := I)]
    constructor
    · rintro ⟨r, hr, hjson, -⟩
      exact ⟨⟨r, hr⟩, (isJson_jsonSafe hr).1 hjson⟩
    · rintro ⟨⟨r, hr⟩, hfinite⟩
      have hjson := (isJson_jsonSafe hr).2 hfinite
      exact ⟨r, hr, hjson, fun m hm => (returns_standard hm hr).2 hjson⟩
  · have hcolumns := finish_columns h
    constructor
    · intro hall e he
      obtain ⟨c, hc, hec⟩ := Py.mem_of_forall₂ hcolumns.flip he
      have hdumped := hall (I.jsonDepth + 2) (by omega)
      rw [Record.columnsObj, Py.returns_dict, List.forall_mem_map] at hdumped
      exact (isJson_jsonSafe hec).1 ((returns_standard (Nat.lt_succ_self _) hec).1 (hdumped c hc).2)
    · intro hfinite m hm
      obtain ⟨m, rfl⟩ : ∃ k, m = k + 1 := ⟨m - 1, by omega⟩
      rw [Record.columnsObj, Py.returns_dict, List.forall_mem_map]
      intro c hc
      obtain ⟨e, he, hec⟩ := Py.mem_of_forall₂ hcolumns hc
      exact ⟨Py.returns_name _, (returns_standard (by omega) hec).2 ((isJson_jsonSafe hec).2 (hfinite e he))⟩

/-! ## A column that is not a number -/

/-- The counterpart of `ascii` for doubles. -/
def doubles : Interp Binary64 where
  utf8 := ascii.utf8
  base64 _ := []
  repr _ := []
  truthy x := x.val != .finite false 0 && x.val != .finite true 0
  finite := binary64.isFinite
  floorDiv x n :=
    match x.val with
    | .finite negative q => ⌊(if negative then -q else q) / n⌋
    | _ => 0
  age now _ := now
  round1 x := x
  strDepth := 1000
  jsonDepth := 1000

theorem nan_not_json : ¬ ∀ v : Value Binary64, v.within 1000 = true →
    ∃ r, jsonSafe doubles 1000 v = .ok r ∧ r.IsJson binary64 := by
  intro h
  obtain ⟨r, hr, hjson⟩ := h (.float (binary64.nearest .nan)) rfl
  have hfinite := (isJson_jsonSafe hr).1 hjson _ .here
  simp [binary64.nan_isFinite] at hfinite

end HtapStack.CdcTail
