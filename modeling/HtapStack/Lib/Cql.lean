import Mathlib.Algebra.Group.Int.Defs
import Mathlib.Data.List.AList
/-!
# CQL transactions

What Accord does with `BEGIN TRANSACTION ... COMMIT TRANSACTION`: `LET` reads at
most one row per reference, `SELECT` projects columns of the references, and the
writes under `IF` happen when the condition holds of what was read. All of it is
one atomic step on the database.

Nulls follow CQL. A reference is null when its `SELECT` found no row; a column
of it is null when the reference is, or when the row holds no value there; and a
comparison with null is false. A transaction returns one row, its projection, or
no row when every reference is null.

A statement is written with `?` and bound in order, so it is a `Binder`: a
parser of the bound values.
-/

namespace HtapStack.Cql

/-- A bound or stored value. A `uuid` or `timeuuid` is its 128-bit number, a
`timestamp` its milliseconds. -/
inductive Value where
  | text (s : String)
  | bigint (n : Int)
  | uuid (n : Nat)
  | timestamp (t : Int)
  deriving DecidableEq, Repr

/-- A table: at most one row for each primary key. -/
abbrev Table (K V : Type) := AList fun _ : K => V

/-! ## Tables -/

section Tables
variable {K V : Type} [DecidableEq K]

/-- `UPDATE ... SET column op= value` of columns that a missing row has as null:
it changes the row if there is one. -/
def Table.modify (k : K) (f : V → V) (t : Table K V) : Table K V :=
  match t.lookup k with
  | some v => t.insert k (f v)
  | none => t

theorem Table.lookup_modify (k k' : K) (f : V → V) (t : Table K V) :
    (t.modify k f).lookup k' = if k' = k then (t.lookup k).map f else t.lookup k' := by
  unfold Table.modify
  by_cases hk : k' = k
  · subst hk
    cases h : t.lookup k' with
    | some v => simp [AList.lookup_insert]
    | none => simp [h]
  · cases h : t.lookup k with
    | some v => simp [AList.lookup_insert_ne hk, hk]
    | none => simp [hk]

theorem Table.mem_modify {k k' : K} {f : V → V} {t : Table K V} : k' ∈ t.modify k f ↔ k' ∈ t := by
  rw [← AList.lookup_isSome, ← AList.lookup_isSome, Table.lookup_modify]
  split
  · subst_vars; simp
  · rfl

/-- How many rows have a key that satisfies `p`. -/
def Table.countKeys (p : K → Bool) (t : Table K V) : Nat := t.keys.countP p

theorem Table.countKeys_insert {p : K → Bool} {k : K} {v : V} {t : Table K V} (hk : k ∉ t) :
    Table.countKeys p (t.insert k v) = Table.countKeys p t + if p k then 1 else 0 := by
  have hk' : k ∉ t.keys := hk
  rw [Table.countKeys, AList.keys_insert, List.erase_of_not_mem hk', List.countP_cons]
  rfl

theorem Table.countKeys_erase {p : K → Bool} {k : K} {t : Table K V} (hk : k ∈ t) :
    Table.countKeys p t = Table.countKeys p (t.erase k) + if p k then 1 else 0 := by
  have hk' : k ∈ t.keys := hk
  rw [Table.countKeys, (List.perm_cons_erase hk').countP_eq, List.countP_cons, ← AList.keys_erase]
  rfl

omit [DecidableEq K] in
theorem Table.countKeys_eq_zero {p : K → Bool} {t : Table K V} :
    Table.countKeys p t = 0 ↔ ∀ k ∈ t, p k = false := by
  rw [Table.countKeys, List.countP_eq_zero]
  exact ⟨fun h k hk => by simpa using h k hk, fun h k hk => by simpa using h k hk⟩

end Tables

/-! ## Transactions -/

/-- The columns a `LET` selects of the row it found. -/
abbrev Columns := List (String × Option Value)

/-- `LET name = (SELECT ... WHERE <full primary key>)`. -/
structure Let (DB : Type) where
  name : String
  read : DB → Option Columns

/-- The conditions an `IF` may use. -/
inductive Cond where
  | rowIsNull (ref : String)
  | rowIsNotNull (ref : String)
  | isNull (ref col : String)
  | isNotNull (ref col : String)
  | eq (ref col : String) (v : Value)
  | gt (ref col : String) (n : Int)
  | and (a b : Cond)

structure Txn (DB : Type) where
  lets : List (Let DB)
  select : List (String × String)
  cond : Cond
  writes : DB → DB

/-- A row as the driver returns it to Python: a dict from column names to values,
where a null is `None`. -/
abbrev Dict := List (String × Option Value)

/-- `d.get(name)`: `None` for a missing name and for a null. -/
def Dict.get (d : Dict) (name : String) : Option Value := (d.lookup name).join

@[simp] theorem Dict.get_nil (name : String) : Dict.get [] name = none := rfl

@[simp] theorem Dict.get_cons (c : String) (v : Option Value) (d : Dict) (name : String) :
    Dict.get ((c, v) :: d) name = if name = c then v else d.get name := by
  unfold Dict.get
  rw [List.lookup_cons]
  by_cases h : name = c
  · simp [h]
  · simp [h, beq_eq_false_iff_ne.2 h]

/-- What the references read, by name. -/
abbrev Env := String → Option Columns

/-- The value of `ref.col`, or null. -/
def Env.col (env : Env) (ref col : String) : Option Value := (env ref).bind (Dict.get · col)

def Cond.eval (env : Env) : Cond → Bool
  | .rowIsNull ref => (env ref).isNone
  | .rowIsNotNull ref => (env ref).isSome
  | .isNull ref col => (env.col ref col).isNone
  | .isNotNull ref col => (env.col ref col).isSome
  | .eq ref col v => env.col ref col = some v
  | .gt ref col n =>
    match env.col ref col with
    | some (.bigint m) => n < m
    | _ => false
  | .and a b => a.eval env && b.eval env

namespace Txn
variable {DB : Type} (t : Txn DB) (db : DB)

def env : Env := fun ref => (t.lets.find? (·.name == ref)).bind (·.read db)

/-- Whether the `IF` holds of the state. -/
def applies : Bool := t.cond.eval (t.env db)

/-- The row returned, or `{}` where every reference is null. -/
def projection : Dict :=
  if t.lets.all fun l => (l.read db).isNone then []
  else t.select.map fun c => (c.1 ++ "." ++ c.2, (t.env db).col c.1 c.2)

/-- The state afterwards. -/
def commit : DB := if t.applies db then t.writes db else db

/-- An explanation read off the returned row, of why the writes were not made:
it is empty exactly when the condition held, so exactly when they were. -/
def ExplainedBy (reason : Dict → String) : Prop :=
  (reason (t.projection db) = "" ↔ t.applies db = true) ∧
    t.commit db = if reason (t.projection db) = "" then t.writes db else db

theorem explainedBy_of_iff {t : Txn DB} {db : DB} {reason : Dict → String}
    (h : reason (t.projection db) = "" ↔ t.applies db = true) : t.ExplainedBy db reason := by
  refine ⟨h, ?_⟩
  unfold commit
  by_cases happ : t.applies db = true
  · rw [if_pos happ, if_pos (h.2 happ)]
  · rw [if_neg happ, if_neg (mt h.1 happ)]

end Txn

/-! ## Binding -/

/-- A statement with `?` for values to come, bound in the order it reads them. -/
abbrev Binder := StateT (List Value) Option

def bindText : Binder String := fun
  | .text s :: ps => some (s, ps)
  | _ => none

def bindBigint : Binder Int := fun
  | .bigint n :: ps => some (n, ps)
  | _ => none

def bindUuid : Binder Nat := fun
  | .uuid n :: ps => some (n, ps)
  | _ => none

def bindTimestamp : Binder Int := fun
  | .timestamp t :: ps => some (t, ps)
  | _ => none

@[simp] theorem bindText_cons (s : String) (ps : List Value) :
    bindText (.text s :: ps) = some (s, ps) := rfl
@[simp] theorem bindBigint_cons (n : Int) (ps : List Value) :
    bindBigint (.bigint n :: ps) = some (n, ps) := rfl
@[simp] theorem bindUuid_cons (n : Nat) (ps : List Value) :
    bindUuid (.uuid n :: ps) = some (n, ps) := rfl
@[simp] theorem bindTimestamp_cons (t : Int) (ps : List Value) :
    bindTimestamp (.timestamp t :: ps) = some (t, ps) := rfl

/-- A `bigint` has 64 bits: the driver raises on any other number. -/
def Value.fits : Value → Bool
  | .bigint n => -2 ^ 63 ≤ n && n < 2 ^ 63
  | _ => true

/-- Bind every value, or raise. -/
def bound {DB : Type} (cql : Binder (Txn DB)) (params : List Value) : Option (Txn DB) :=
  if params.all Value.fits then
    match cql params with
    | some (t, []) => some t
    | _ => none
  else none

end HtapStack.Cql
