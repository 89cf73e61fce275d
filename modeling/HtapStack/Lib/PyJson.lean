import HtapStack.Lib.Json
import HtapStack.Lib.Returns
import Mathlib.Data.Nat.Digits.Lemmas
/-!
# `json.dumps`

Python's serialiser with its default separators and `ensure_ascii`, over trees of
the values that it knows; what it hands to `default=str` is given by its text.

`value_dumps`: what it writes is read back as the value it was written for if every
float among the values is finite, and as nothing if one is not.
-/

namespace HtapStack.Py
open Js (Json Units)

/-- What `repr` makes of a float. -/
inductive Shown where
  | finite (n : Numeral)
  | infinite (negative : Bool)
  | nan

/-- Doubles with their `repr`: of a finite one, a numeral to which it is the nearest. -/
structure FloatReprs (F : Type) extends Doubles F where
  shown : F → Shown
  isFinite_iff : ∀ x, isFinite x = true ↔ ∃ n, shown x = .finite n
  plain : ∀ x n, shown x = .finite n → Json.IsPlain n
  nearest_shown : ∀ x n, shown x = .finite n → nearest n.value = x

/-- A key of a dict: `other` is none of the kinds that a JSON object has a name for. -/
inductive Key (F : Type) where
  | str (s : List Char)
  | int (i : Int)
  | float (x : F)
  | bool (b : Bool)
  | none
  | other

/-- A value; `list` is also a tuple, and `other` what `default` makes a text of. -/
inductive Obj (F : Type) where
  | none
  | bool (b : Bool)
  | int (i : Int)
  | float (x : F)
  | str (s : List Char)
  | list (xs : List (Obj F))
  | dict (es : List (Key F × Obj F))
  | other (text : List Char)

inductive DumpError where
  | type
  | value
  | recursion
  deriving DecidableEq, Repr

/-- `allow_nan`, and whether `default=str` is given. -/
structure Options where
  allowNan : Bool
  defaultStr : Bool
  deriving DecidableEq, Repr

/-! ## Numbers -/

local instance base : NeZero 10 := ⟨by decide⟩

def decimalDigits (n : Nat) : List (Fin 10) :=
  if n = 0 then [0] else (Nat.digits 10 n).reverse.map (Fin.ofNat 10)

theorem decimalDigits_ne_nil (n : Nat) : decimalDigits n ≠ [] := by
  unfold decimalDigits
  split
  · exact List.cons_ne_nil _ _
  · simpa [Nat.digits_ne_nil_iff_ne_zero]

/-- `str(i)`. -/
def numeralOf (i : Int) : Numeral where
  sign := if i < 0 then some true else .none
  whole := decimalDigits i.natAbs
  fraction := .none
  exponent := .none
  digits_ne_nil := .inl (decimalDigits_ne_nil _)

/-- `sys.get_int_max_str_digits()`. -/
def maxStrDigits : Nat := 4300

def intText (i : Int) : Except DumpError (List Char) :=
  if (decimalDigits i.natAbs).length ≤ maxStrDigits then .ok (numeralOf i).text else .error .value

variable {F : Type}

def floatText (D : FloatReprs F) (o : Options) (x : F) : Except DumpError (List Char) :=
  match D.shown x with
  | .finite n => .ok n.text
  | .infinite negative =>
    if o.allowNan then .ok (if negative then "-Infinity".toList else "Infinity".toList) else .error .value
  | .nan => if o.allowNan then .ok "NaN".toList else .error .value

/-! ## Strings -/

def escaped (c : Char) : List Char :=
  if c = '"' then ['\\', '"']
  else if c = '\\' then ['\\', '\\']
  else if c = '\n' then ['\\', 'n']
  else if c = '\r' then ['\\', 'r']
  else if c = '\t' then ['\\', 't']
  else if c = '\x0c' then ['\\', 'f']
  else if c = '\x08' then ['\\', 'b']
  else if 0x20 ≤ c.toNat ∧ c.toNat ≤ 0x7e then [c]
  else (Json.utf16 c).flatMap fun u => '\\' :: Json.unitText u

def quoted (s : List Char) : List Char := '"' :: (s.flatMap escaped ++ ['"'])

/-- `s.encode()`. -/
def encode (s : List Char) : List UInt8 := s.flatMap String.utf8EncodeChar

theorem encode_inj {s t : List Char} (h : encode s = encode t) : s = t := by
  have h : s.utf8Encode = t.utf8Encode := congrArg List.toByteArray h
  have hdecoded := congrArg ByteArray.utf8Decode? h
  simpa using hdecoded

/-! ## Values -/

def boolText (b : Bool) : List Char := if b then "true".toList else "false".toList

def Key.text (D : FloatReprs F) (o : Options) : Key F → Except DumpError (List Char)
  | .str s => .ok s
  | .float x => floatText D o x
  | .bool b => .ok (boolText b)
  | .none => .ok "null".toList
  | .int i => intText i
  | .other => .error .type

/-- `json.dumps(v)`, with `n` calls left on the stack. -/
def dumps (D : FloatReprs F) (o : Options) : Nat → Obj F → Except DumpError (List Char)
  | 0, _ => .error .recursion
  | n + 1, v =>
    match v with
    | .none => .ok "null".toList
    | .bool b => .ok (boolText b)
    | .int i => intText i
    | .float x => floatText D o x
    | .str s => .ok (quoted s)
    | .other s => if o.defaultStr then .ok (quoted s) else .error .type
    | .list xs => do
      let ts ← xs.mapM (dumps D o n)
      return '[' :: (Json.comma.intercalate ts ++ [']'])
    | .dict es => do
      let ts ← es.mapM fun e => do
        let key ← e.1.text D o
        let t ← dumps D o n e.2
        return quoted key ++ ':' :: ' ' :: t
      return '{' :: (Json.comma.intercalate ts ++ ['}'])

/-- A float among the values. -/
inductive Obj.Has (x : F) : Obj F → Prop
  | here : Has x (.float x)
  | list {v : Obj F} {xs : List (Obj F)} (hv : v ∈ xs) (h : Has x v) : Has x (.list xs)
  | dict {e : Key F × Obj F} {es : List (Key F × Obj F)} (he : e ∈ es) (h : Has x e.2) : Has x (.dict es)

/-- The name of a member, as it is read. -/
def Key.units (D : FloatReprs F) (k : Key F) : Units := Json.units ((k.text D ⟨true, true⟩).toOption.getD [])

/-- What a reader of JSON takes the value for, if all floats are finite. -/
def jsonOf {N : Type} (D : FloatReprs F) (num : Literal → N) : Nat → Obj F → Option (Json N)
  | 0, _ => .none
  | n + 1, v =>
    match v with
    | .none => some .null
    | .bool b => some (.bool b)
    | .int i => some (.num (num (numeralOf i).value))
    | .float x =>
      match D.shown x with
      | .finite m => some (.num (num m.value))
      | _ => Option.none
    | .str s | .other s => some (.str (Json.units s))
    | .list xs => (xs.mapM (jsonOf D num n)).map .arr
    | .dict es =>
      (es.mapM fun e => (jsonOf D num n e.2).map (e.1.units D, ·)).map fun es => .obj (Json.collect es)

/-! ## Reading numbers back -/

theorem val_decimalDigits (n : Nat) (h : n ≠ 0) : (decimalDigits n).map (·.val) = (Nat.digits 10 n).reverse := by
  have hsmall : ∀ d ∈ (Nat.digits 10 n).reverse, ((Fin.ofNat 10 d : Fin 10) : Nat) = d := by
    intro d hd
    exact Nat.mod_eq_of_lt (Nat.digits_lt_base (by decide) (List.mem_reverse.1 hd))
  rw [decimalDigits, if_neg h, List.map_map]
  exact (List.map_congr_left hsmall).trans (List.map_id' _)

theorem ofDigits_decimalDigits (n : Nat) : ofDigits (decimalDigits n) = n := by
  by_cases h : n = 0
  · subst h
    rfl
  · rw [ofDigits, List.map_reverse, val_decimalDigits n h, List.reverse_reverse, Nat.ofDigits_digits]

theorem value_numeralOf (i : Int) : (numeralOf i).value = .finite (decide (i < 0)) i.natAbs := by
  have hsign : decide ((numeralOf i).sign = some true) = decide (i < 0) := by
    by_cases h : i < 0 <;> simp [numeralOf, h]
  rw [Numeral.value, hsign, Numeral.magnitude]
  simp [numeralOf, ofDigits_decimalDigits]

/-- No zero comes before other digits. -/
theorem decimalDigits_zero {n : Nat} (hzero : (decimalDigits n).head? = some 0) : (decimalDigits n).length = 1 := by
  by_cases h : n = 0
  · rw [decimalDigits, if_pos h]
    rfl
  · have hval := congrArg (Option.map Fin.val) hzero
    rw [← List.head?_map, val_decimalDigits _ h, List.head?_reverse,
      List.getLast?_eq_getLast_of_ne_nil (Nat.digits_ne_nil_iff_ne_zero.2 h)] at hval
    exact absurd (by simpa using hval) (Nat.getLast_digit_ne_zero 10 h)

theorem plain_numeralOf (i : Int) : Json.IsPlain (numeralOf i) where
  sign := by
    by_cases h : i < 0 <;> simp [numeralOf, h]
  whole := decimalDigits_ne_nil _
  zero := decimalDigits_zero
  fraction := by simp [numeralOf]

/-! ## Reading strings back -/

theorem stringTail_escaped (c : Char) (s : List Char) :
    Json.stringTail (escaped c ++ s) = (Json.stringTail s).map fun r => (Json.utf16 c ++ r.1, r.2) := by
  unfold escaped
  by_cases hquote : c = '"'
  · subst hquote
    rfl
  by_cases hback : c = '\\'
  · subst hback
    rfl
  rw [if_neg hquote, if_neg hback]
  split
  · subst c
    rfl
  split
  · subst c
    rfl
  split
  · subst c
    rfl
  split
  · subst c
    rfl
  split
  · subst c
    rfl
  split
  · exact Json.stringTail_plain hquote hback (by omega) s
  · exact Json.stringTail_units ..

theorem stringTail_text (t : List Char) (s : List Char) :
    Json.stringTail (t.flatMap escaped ++ s) = (Json.stringTail s).map fun r => (Json.units t ++ r.1, r.2) := by
  induction t with
  | nil => simp [Json.units]
  | cons c t ih =>
    rw [List.flatMap_cons, List.append_assoc, stringTail_escaped, ih]
    cases Json.stringTail s <;> simp [Json.units]

/-! ## What is written -/

section
variable {D : FloatReprs F} {o : Options} {n : Nat} {v : Obj F} {t : List Char}

/-- The text is of printable ASCII. -/
def Printable (t : List Char) : Prop := ∀ c ∈ t, 0x20 ≤ c.toNat ∧ c.toNat < 0x7f

instance (t : List Char) : Decidable (Printable t) := List.decidableBAll _ t

theorem Printable.append {t u : List Char} (ht : Printable t) (hu : Printable u) : Printable (t ++ u) :=
  fun c hc => (List.mem_append.1 hc).elim (ht c) (hu c)

theorem printable_hexDigit {d : Nat} (h : d < 16) : 0x20 ≤ (Json.hexDigit d).toNat ∧ (Json.hexDigit d).toNat < 0x7f := by
  revert d
  decide

theorem printable_unit (u : UInt16) : Printable ('\\' :: Json.unitText u) := by
  have hu : u.toNat < 65536 := u.toNat_lt
  intro c hc
  simp only [Json.unitText, Json.hex4, List.mem_cons, List.not_mem_nil, or_false] at hc
  rcases hc with rfl | rfl | rfl | rfl | rfl | rfl
  · decide
  · decide
  · exact printable_hexDigit (by omega)
  · exact printable_hexDigit (by omega)
  · exact printable_hexDigit (by omega)
  · exact printable_hexDigit (by omega)

theorem printable_escaped (c : Char) : Printable (escaped c) := by
  unfold escaped
  split
  · decide
  split
  · decide
  split
  · decide
  split
  · decide
  split
  · decide
  split
  · decide
  split
  · decide
  split
  · intro d hd
    obtain rfl := List.mem_singleton.1 hd
    omega
  · intro d hd
    obtain ⟨u, -, hd⟩ := List.mem_flatMap.1 hd
    exact printable_unit u d hd

theorem printable_quoted (s : List Char) : Printable (quoted s) := by
  intro c hc
  rcases List.mem_cons.1 hc with rfl | hc
  · decide
  rcases List.mem_append.1 hc with hc | hc
  · obtain ⟨d, -, hc⟩ := List.mem_flatMap.1 hc
    exact printable_escaped d c hc
  · obtain rfl := List.mem_singleton.1 hc
    decide

theorem printable_numeral (m : Numeral) : Printable m.text := by
  have hchars : Printable numeralChars := by decide
  exact fun c hc => hchars c (Numeral.mem_text hc)

theorem floatText_cases {x : F} (h : floatText D o x = .ok t) :
    (∃ m, D.shown x = .finite m ∧ t = m.text) ∨
    (∃ negative : Bool, D.shown x = .infinite negative ∧
      t = if negative then "-Infinity".toList else "Infinity".toList) ∨
    D.shown x = .nan ∧ t = "NaN".toList := by
  cases hs : D.shown x with
  | finite m =>
    simp only [floatText, hs] at h
    exact .inl ⟨m, rfl, (Except.ok.inj h).symm⟩
  | infinite negative =>
    simp only [floatText, hs] at h
    split at h
    · exact .inr (.inl ⟨negative, rfl, (Except.ok.inj h).symm⟩)
    · cases h
  | nan =>
    simp only [floatText, hs] at h
    split at h
    · exact .inr (.inr ⟨rfl, (Except.ok.inj h).symm⟩)
    · cases h

theorem printable_floatText {x : F} (h : floatText D o x = .ok t) : Printable t := by
  rcases floatText_cases h with ⟨m, -, rfl⟩ | ⟨negative, -, rfl⟩ | ⟨-, rfl⟩
  · exact printable_numeral m
  · cases negative <;> decide
  · decide

theorem printable_join {ts : List (List Char)} (h : ∀ t ∈ ts, Printable t) : Printable (Json.comma.intercalate ts) := by
  induction ts with
  | nil => exact fun c hc => by cases hc
  | cons t ts ih =>
    obtain ⟨ht, hts⟩ := List.forall_mem_cons.1 h
    cases ts with
    | nil => rwa [List.intercalate_singleton]
    | cons u ts =>
      rw [List.intercalate_cons_cons]
      exact (ht.append (by decide)).append (ih hts)

theorem mapM_forall₂ {ε α β : Type} {f : α → Except ε β} {xs : List α} {ys : List β} (h : xs.mapM f = .ok ys) :
    List.Forall₂ (fun x y => f x = .ok y) xs ys := by
  induction xs generalizing ys with
  | nil =>
    cases h
    exact .nil
  | cons x xs ih =>
    rw [List.mapM_cons] at h
    obtain ⟨y, hy, h⟩ := bind_eq_ok.1 h
    obtain ⟨zs, hzs, h⟩ := bind_eq_ok.1 h
    cases h
    exact .cons hy (ih hzs)

theorem mem_of_forall₂ {α β : Type} {R : α → β → Prop} {xs : List α} {ys : List β} (h : List.Forall₂ R xs ys) {y : β}
    (hy : y ∈ ys) : ∃ x ∈ xs, R x y := by
  induction h with
  | nil => cases hy
  | cons hR _ ih =>
    rcases List.mem_cons.1 hy with rfl | hy
    · exact ⟨_, List.mem_cons_self, hR⟩
    · obtain ⟨x, hx, hR⟩ := ih hy
      exact ⟨x, List.mem_cons_of_mem _ hx, hR⟩

theorem forall₂_of_mem {α β : Type} {R S : α → β → Prop} {xs : List α} {ys : List β} (h : List.Forall₂ R xs ys)
    (hS : ∀ x, ∀ y ∈ ys, R x y → S x y) : List.Forall₂ S xs ys := by
  induction h with
  | nil => exact .nil
  | cons hR _ ih =>
    exact .cons (hS _ _ List.mem_cons_self hR) (ih fun x y hy => hS x y (List.mem_cons_of_mem _ hy))

/-- What a call of `dumps` returns, by the kind of the value. -/
theorem dumps_cases (h : dumps D o (n + 1) v = .ok t) :
    (v = .none ∧ t = "null".toList) ∨ (∃ b, v = .bool b ∧ t = boolText b) ∨
    (∃ i, v = .int i ∧ t = (numeralOf i).text) ∨ (∃ x, v = .float x ∧ floatText D o x = .ok t) ∨
    (∃ s, (v = .str s ∨ v = .other s) ∧ t = quoted s) ∨
    (∃ xs ts, v = .list xs ∧ List.Forall₂ (fun x t => dumps D o n x = .ok t) xs ts ∧
      t = '[' :: (Json.comma.intercalate ts ++ [']'])) ∨
    ∃ es ts, v = .dict es ∧ List.Forall₂ (fun e t => ∃ key u, e.1.text D o = .ok key ∧
      dumps D o n e.2 = .ok u ∧ t = quoted key ++ ':' :: ' ' :: u) es ts ∧
      t = '{' :: (Json.comma.intercalate ts ++ ['}']) := by
  cases v with
  | none => exact .inl ⟨rfl, (Except.ok.inj h).symm⟩
  | bool b => exact .inr (.inl ⟨b, rfl, (Except.ok.inj h).symm⟩)
  | int i =>
    simp only [dumps, intText] at h
    split at h
    · exact .inr (.inr (.inl ⟨i, rfl, (Except.ok.inj h).symm⟩))
    · cases h
  | float x => exact .inr (.inr (.inr (.inl ⟨x, rfl, h⟩)))
  | str s => exact .inr (.inr (.inr (.inr (.inl ⟨s, .inl rfl, (Except.ok.inj h).symm⟩))))
  | other s =>
    simp only [dumps] at h
    split at h
    · exact .inr (.inr (.inr (.inr (.inl ⟨s, .inr rfl, (Except.ok.inj h).symm⟩))))
    · cases h
  | list xs =>
    obtain ⟨ts, hts, h⟩ := bind_eq_ok.1 h
    exact .inr (.inr (.inr (.inr (.inr (.inl ⟨xs, ts, rfl, mapM_forall₂ hts, (Except.ok.inj h).symm⟩)))))
  | dict es =>
    obtain ⟨ts, hts, h⟩ := bind_eq_ok.1 h
    refine .inr (.inr (.inr (.inr (.inr (.inr ⟨es, ts, rfl, (mapM_forall₂ hts).imp ?_, (Except.ok.inj h).symm⟩)))))
    intro e t he
    obtain ⟨key, hkey, he⟩ := bind_eq_ok.1 he
    obtain ⟨u, hu, he⟩ := bind_eq_ok.1 he
    exact ⟨key, u, hkey, hu, (Except.ok.inj he).symm⟩

theorem printable_dumps (h : dumps D o n v = .ok t) : Printable t := by
  induction n generalizing v t with
  | zero => cases h
  | succ n ih =>
    have hbrackets : ∀ {ts : List (List Char)} {a b : Char}, Printable [a] → Printable [b] →
        (∀ t ∈ ts, Printable t) → Printable (a :: (Json.comma.intercalate ts ++ [b])) := fun ha hb hts =>
      (ha.append ((printable_join hts).append hb) :)
    rcases dumps_cases h with ⟨-, rfl⟩ | ⟨b, -, rfl⟩ | ⟨i, -, rfl⟩ | ⟨x, -, hx⟩ | ⟨s, -, rfl⟩ | ⟨xs, ts, -, hts, rfl⟩ |
      ⟨es, ts, -, hts, rfl⟩
    · decide
    · cases b <;> decide
    · exact printable_numeral _
    · exact printable_floatText hx
    · exact printable_quoted s
    · refine hbrackets (by decide) (by decide) fun t ht => ?_
      obtain ⟨x, -, hx⟩ := mem_of_forall₂ hts ht
      exact ih hx
    · refine hbrackets (by decide) (by decide) fun t ht => ?_
      obtain ⟨e, -, key, u, -, hu, rfl⟩ := mem_of_forall₂ hts ht
      have hcolon : Printable [':', ' '] := by decide
      exact (printable_quoted key).append (hcolon.append (ih hu) :)

end

/-! ## Reading values back -/

section
variable {N : Type} {D : FloatReprs F} {o : Options} {num : Literal → N} {n : Nat} {v : Obj F} {t : List Char}

theorem begins_text {m : Numeral} (h : Json.IsPlain m) : Json.Begins m.text := by
  obtain ⟨c, s, hs, hc⟩ := Json.head_text h
  refine ⟨c, s, hs, (Json.head_plain hc).1, ?_⟩
  rcases hc with rfl | ⟨d, rfl⟩
  · decide
  · clear hs
    revert d
    decide

theorem reads_nan : Json.Begins "NaN".toList ∧ Json.Reads (Json.value num (n + 1)) none "NaN".toList :=
  ⟨⟨'N', _, rfl, rfl, by decide⟩, fun _ _ => rfl⟩

theorem reads_infinite (negative : Bool) :
    Json.Begins (if negative then "-Infinity".toList else "Infinity".toList) ∧
      Json.Reads (Json.value num (n + 1)) none (if negative then "-Infinity".toList else "Infinity".toList) := by
  cases negative
  · exact ⟨⟨'I', _, rfl, rfl, by decide⟩, fun _ _ => rfl⟩
  · exact ⟨⟨'-', _, rfl, rfl, by decide⟩, fun _ _ => rfl⟩

theorem reads_quoted (s : List Char) :
    Json.Begins (quoted s) ∧ Json.Reads (Json.value num (n + 1)) (some (.str (Json.units s))) (quoted s) := by
  refine ⟨⟨'"', _, rfl, rfl, by decide⟩, fun rest _ => ?_⟩
  have htext : quoted s ++ rest = '"' :: (s.flatMap escaped ++ '"' :: rest) := by simp [quoted]
  rw [htext, Json.value_str, stringTail_text]
  simp [Json.stringTail]

theorem name_quoted (key s : List Char) : Json.name (quoted key ++ ':' :: s) = some (Json.units key, s) := by
  have htext : quoted key ++ ':' :: s = '"' :: (key.flatMap escaped ++ '"' :: ':' :: s) := by simp [quoted]
  rw [htext, Json.name_string (stringTail_text key)]

/-- The name is the same under other options, if there is one. -/
theorem Key.units_of_text {k : Key F} {key : List Char} (h : k.text D o = .ok key) : k.units D = Json.units key := by
  have hall : k.text D ⟨true, true⟩ = .ok key := by
    cases k with
    | float x =>
      change floatText D _ x = _
      rcases floatText_cases h with ⟨m, hs, rfl⟩ | ⟨negative, hs, rfl⟩ | ⟨hs, rfl⟩
      · simp only [floatText, hs]
      · simp only [floatText, hs, if_true]
      · simp only [floatText, hs, if_true]
    | str | int | bool | none | other => exact h
  rw [Key.units, hall]
  rfl

/-- What `dumps` writes is read as the value, or as nothing if that has a float that is not finite. -/
theorem value_dumps (num : Literal → N) (h : dumps D o n v = .ok t) :
    Json.Begins t ∧ Json.Reads (Json.value num n) (jsonOf D num n v) t := by
  induction n generalizing v t with
  | zero => cases h
  | succ n ih =>
    rcases dumps_cases h with ⟨rfl, rfl⟩ | ⟨b, rfl, rfl⟩ | ⟨i, rfl, rfl⟩ | ⟨x, rfl, hx⟩ | ⟨s, rfl | rfl, rfl⟩ |
      ⟨xs, ts, rfl, hts, rfl⟩ | ⟨es, ts, rfl, hts, rfl⟩
    · exact ⟨⟨'n', _, rfl, rfl, by decide⟩, fun rest _ => Json.value_null⟩
    · refine ⟨?_, fun rest _ => Json.value_bool b⟩
      cases b
      · exact ⟨'f', _, rfl, rfl, by decide⟩
      · exact ⟨'t', _, rfl, rfl, by decide⟩
    · exact ⟨begins_text (plain_numeralOf i), fun rest hrest => Json.value_numeral (plain_numeralOf i) hrest⟩
    · rw [jsonOf]
      rcases floatText_cases hx with ⟨m, hs, rfl⟩ | ⟨negative, hs, rfl⟩ | ⟨hs, rfl⟩
      · rw [hs]
        exact ⟨begins_text (D.plain x m hs), fun rest hrest => Json.value_numeral (D.plain x m hs) hrest⟩
      · rw [hs]
        exact reads_infinite negative
      · rw [hs]
        exact reads_nan
    · exact reads_quoted s
    · exact reads_quoted s
    · refine ⟨⟨'[', _, rfl, rfl, by decide⟩, fun rest _ => ?_⟩
      have htext : '[' :: (Json.comma.intercalate ts ++ [']']) ++ rest = '[' :: (Json.comma.intercalate ts ++ ']' :: rest) := by
        simp
      have hbegins : ∀ t ∈ ts, Json.Begins t := fun t ht => by
        obtain ⟨x, -, hx⟩ := mem_of_forall₂ hts ht
        exact (ih hx).1
      rw [htext, Json.value_arr (hts.imp fun x t hx => (ih hx).2) hbegins, jsonOf]
      cases xs.mapM (jsonOf D num n) <;> rfl
    · refine ⟨⟨'{', _, rfl, rfl, by decide⟩, fun rest _ => ?_⟩
      have htext : '{' :: (Json.comma.intercalate ts ++ ['}']) ++ rest = '{' :: (Json.comma.intercalate ts ++ '}' :: rest) := by
        simp
      have hmembers : List.Forall₂ (fun e t => Json.ReadsMember (Json.value num n) (e.1.units D) (jsonOf D num n e.2) t)
          es ts := by
        refine hts.imp fun e t he => ?_
        obtain ⟨key, u, hkey, hu, rfl⟩ := he
        refine ⟨_, u, rfl, fun s => ?_, (ih hu).2⟩
        rw [Key.units_of_text hkey]
        exact name_quoted key s
      rw [htext, Json.value_obj hmembers, jsonOf]
      cases es.mapM fun e => (jsonOf D num n e.2).map (e.1.units D, ·) <;> rfl

theorem isSome_mapM {X Y : Type} {f : X → Option Y} {xs : List X} : (xs.mapM f).isSome = xs.all fun x => (f x).isSome := by
  induction xs with
  | nil => rfl
  | cons x xs ih =>
    rw [Json.mapM_cons_map, List.all_cons, ← ih]
    cases f x <;> simp

theorem has_list {x : F} {xs : List (Obj F)} : Obj.Has x (.list xs) ↔ ∃ v ∈ xs, v.Has x := by
  constructor
  · rintro (_ | ⟨hv, h⟩)
    exact ⟨_, hv, h⟩
  · exact fun ⟨_, hv, h⟩ => .list hv h

theorem has_dict {x : F} {es : List (Key F × Obj F)} : Obj.Has x (.dict es) ↔ ∃ e ∈ es, e.2.Has x := by
  constructor
  · rintro (_ | _ | ⟨he, h⟩)
    exact ⟨_, he, h⟩
  · exact fun ⟨_, he, h⟩ => .dict he h

/-- What is written is a JSON value exactly if the floats are finite. -/
theorem isSome_jsonOf (num : Literal → N) (h : dumps D o n v = .ok t) :
    (jsonOf D num n v).isSome = true ↔ ∀ x, v.Has x → D.isFinite x = true := by
  induction n generalizing v t with
  | zero => cases h
  | succ n ih =>
    rcases dumps_cases h with ⟨rfl, -⟩ | ⟨b, rfl, -⟩ | ⟨i, rfl, -⟩ | ⟨x, rfl, -⟩ | ⟨s, rfl | rfl, -⟩ |
      ⟨xs, ts, rfl, hts, -⟩ | ⟨es, ts, rfl, hts, -⟩
    · exact iff_of_true rfl fun x hx => by cases hx
    · exact iff_of_true rfl fun x hx => by cases hx
    · exact iff_of_true rfl fun x hx => by cases hx
    · have hfinite : (∀ y, (Obj.float x).Has y → D.isFinite y = true) ↔ D.isFinite x = true :=
        ⟨fun h => h x .here, fun h y hy => by cases hy; exact h⟩
      rw [hfinite, D.isFinite_iff, jsonOf]
      cases D.shown x <;> simp
    · exact iff_of_true rfl fun x hx => by cases hx
    · exact iff_of_true rfl fun x hx => by cases hx
    · rw [jsonOf, Option.isSome_map, isSome_mapM, List.all_eq_true]
      have hvalue : ∀ v ∈ xs, ((jsonOf D num n v).isSome = true ↔ ∀ x, v.Has x → D.isFinite x = true) := by
        intro v hv
        obtain ⟨t, -, ht⟩ := mem_of_forall₂ hts.flip hv
        exact ih ht
      simp only [has_list]
      exact ⟨fun h x ⟨v, hv, hx⟩ => (hvalue v hv).1 (h v hv) x hx, fun h v hv => (hvalue v hv).2 fun x hx => h x ⟨v, hv, hx⟩⟩
    · rw [jsonOf, Option.isSome_map, isSome_mapM, List.all_eq_true]
      have hvalue : ∀ e ∈ es, ((jsonOf D num n e.2).isSome = true ↔ ∀ x, e.2.Has x → D.isFinite x = true) := by
        intro e he
        obtain ⟨t, -, key, u, -, hu, -⟩ := mem_of_forall₂ hts.flip he
        exact ih hu
      simp only [Option.isSome_map, has_dict]
      exact ⟨fun h x ⟨e, he, hx⟩ => (hvalue e he).1 (h e he) x hx, fun h e he => (hvalue e he).2 fun x hx => h x ⟨e, he, hx⟩⟩

end

/-! ## How deep a text is -/

section
variable {N : Type} {D : FloatReprs F} {o : Options} {num : Literal → N} {n m : Nat} {v : Obj F} {t : List Char}

theorem mapM_of_forall₂ {ε α β : Type} {f : α → Except ε β} {xs : List α} {ys : List β}
    (h : List.Forall₂ (fun x y => f x = .ok y) xs ys) : xs.mapM f = .ok ys := by
  induction h with
  | nil => rfl
  | cons hx _ ih =>
    rw [List.mapM_cons, hx, ok_bind, ih]
    rfl

theorem length_le_join {ts : List (List Char)} (h : t ∈ ts) : t.length ≤ (Json.comma.intercalate ts).length := by
  induction ts with
  | nil => cases h
  | cons u ts ih =>
    cases ts with
    | nil =>
      obtain rfl := List.mem_singleton.1 h
      rw [List.intercalate_singleton]
    | cons w ts =>
      rw [List.intercalate_cons_cons, List.length_append, List.length_append]
      rcases List.mem_cons.1 h with rfl | h
      · omega
      · have := ih h
        omega

/-- Containers are written alike if their parts are. -/
theorem dumps_succ (h : dumps D o (n + 1) v = .ok t)
    (hparts : ∀ w u, dumps D o n w = .ok u → u.length < t.length → dumps D o m w = .ok u) :
    dumps D o (m + 1) v = .ok t := by
  rcases dumps_cases h with ⟨rfl, -⟩ | ⟨b, rfl, -⟩ | ⟨i, rfl, -⟩ | ⟨x, rfl, -⟩ | ⟨s, rfl | rfl, -⟩ |
    ⟨xs, ts, rfl, hts, rfl⟩ | ⟨es, ts, rfl, hts, rfl⟩
  · exact h
  · exact h
  · exact h
  · exact h
  · exact h
  · exact h
  · have hall : xs.mapM (dumps D o m) = .ok ts := by
      refine mapM_of_forall₂ (forall₂_of_mem hts fun x t ht hx => hparts x t hx ?_)
      have := length_le_join ht
      simp only [List.length_cons, List.length_append]
      omega
    rw [dumps, hall]
    rfl
  · have hall : es.mapM (fun e => do
        let key ← e.1.text D o
        let t ← dumps D o m e.2
        return quoted key ++ ':' :: ' ' :: t) = .ok ts := by
      refine mapM_of_forall₂ (forall₂_of_mem hts fun e t ht he => ?_)
      obtain ⟨key, u, hkey, hu, rfl⟩ := he
      have hlt : u.length < ('{' :: (Json.comma.intercalate ts ++ ['}'])).length := by
        have := length_le_join ht
        simp only [List.length_cons, List.length_append] at this ⊢
        omega
      rw [hkey, ok_bind, hparts e.2 u hu hlt]
      rfl
    rw [dumps, hall]
    rfl

/-- A text is no deeper than long. -/
theorem dumps_length (h : dumps D o n v = .ok t) (hm : t.length ≤ m) : dumps D o m v = .ok t := by
  induction n generalizing v t m with
  | zero => cases h
  | succ n ih =>
    cases m with
    | zero =>
      obtain ⟨c, u, rfl, -⟩ := (value_dumps id h).1
      cases hm
    | succ m => exact dumps_succ h fun w u hu hlt => ih hu (by omega)

/-- A reader of JSON takes a dumped text for the value, or for nothing. -/
theorem parse_dumps (h : dumps D o n v = .ok t) : Json.parse num t = jsonOf D num t.length v := by
  have hread := (value_dumps num (dumps_length h le_rfl)).2 [] Json.stops_nil
  rw [List.append_nil] at hread
  rw [Json.parse, hread]
  cases jsonOf D num t.length v <;> rfl

/-- A dumped text is JSON exactly if the floats of the value are finite. -/
theorem isSome_parse (num : Literal → N) (h : dumps D o n v = .ok t) :
    (Json.parse num t).isSome = true ↔ ∀ x, v.Has x → D.isFinite x = true := by
  rw [parse_dumps h]
  exact isSome_jsonOf num (dumps_length h le_rfl)

end

/-! ## What can be written -/

section
variable {D : FloatReprs F} {o : Options} {n : Nat}

theorem returns_intText {i : Int} (h : i.natAbs < 10 ^ 20) : Returns (intText i) := by
  have hlength : (decimalDigits i.natAbs).length ≤ maxStrDigits := by
    unfold decimalDigits
    split
    · decide
    · rw [List.length_map, List.length_reverse]
      exact ((Nat.digits_length_le_iff (by decide) _).2 h).trans (by decide)
  rw [intText, if_pos hlength]
  exact returns_ok _

theorem returns_floatText {x : F} : Returns (floatText D o x) ↔ o.allowNan = true ∨ D.isFinite x = true := by
  have hother {t : List Char} (hs : ∀ m, D.shown x ≠ .finite m) :
      Returns (if o.allowNan then .ok t else .error DumpError.value) ↔ o.allowNan = true ∨ D.isFinite x = true := by
    have hfinite : ¬ D.isFinite x = true := fun h => by
      obtain ⟨m, hm⟩ := (D.isFinite_iff x).1 h
      exact hs m hm
    rw [or_iff_left hfinite]
    split
    · exact iff_of_true (returns_ok t) ‹_›
    · exact iff_of_false (not_returns_error _) ‹_›
  unfold floatText
  cases hs : D.shown x with
  | finite m => exact iff_of_true (returns_ok _) (.inr ((D.isFinite_iff x).2 ⟨m, hs⟩))
  | infinite negative => exact hother fun m hm => by cases hs.symm.trans hm
  | nan => exact hother fun m hm => by cases hs.symm.trans hm

@[simp] theorem returns_none : Returns (dumps D o (n + 1) .none) := returns_ok _

@[simp] theorem returns_bool (b : Bool) : Returns (dumps D o (n + 1) (.bool b)) := returns_ok _

@[simp] theorem returns_int (i : Int) : Returns (dumps D o (n + 1) (.int i)) ↔ Returns (intText i) := Iff.rfl

@[simp] theorem returns_float (x : F) :
    Returns (dumps D o (n + 1) (.float x)) ↔ o.allowNan = true ∨ D.isFinite x = true := returns_floatText

@[simp] theorem returns_str (s : List Char) : Returns (dumps D o (n + 1) (.str s)) := returns_ok _

@[simp] theorem returns_other (s : List Char) :
    Returns (dumps D o (n + 1) (.other s)) ↔ o.defaultStr = true := by
  simp only [dumps]
  split
  · exact iff_of_true (returns_ok _) ‹_›
  · exact iff_of_false (not_returns_error _) ‹_›

@[simp] theorem returns_name (s : List Char) : Returns (Key.text D o (.str s)) := returns_ok _

@[simp] theorem returns_list {xs : List (Obj F)} :
    Returns (dumps D o (n + 1) (.list xs)) ↔ ∀ x ∈ xs, Returns (dumps D o n x) :=
  (returns_bind_and fun _ _ => iff_true_intro (returns_pure _)).trans ((and_true _).to_iff.trans returns_mapM)

@[simp] theorem returns_dict {es : List (Key F × Obj F)} :
    Returns (dumps D o (n + 1) (.dict es)) ↔ ∀ e ∈ es, Returns (e.1.text D o) ∧ Returns (dumps D o n e.2) := by
  refine (returns_bind_and fun _ _ => iff_true_intro (returns_pure _)).trans ((and_true _).to_iff.trans ?_)
  rw [returns_mapM]
  refine forall₂_congr fun e _ => returns_bind_and fun _ _ => ?_
  exact (returns_bind_and fun _ _ => iff_true_intro (returns_pure _)).trans (and_true _).to_iff

end

/-! ## Standard values -/

/-- Nothing but JSON values: finite floats, and dicts with distinct names for keys. -/
inductive Obj.Standard (D : FloatReprs F) : Obj F → Prop
  | none : Standard D .none
  | bool (b : Bool) : Standard D (.bool b)
  | int (i : Int) : Standard D (.int i)
  | float {x : F} (h : D.isFinite x = true) : Standard D (.float x)
  | str (s : List Char) : Standard D (.str s)
  | list {xs : List (Obj F)} (h : ∀ v ∈ xs, Standard D v) : Standard D (.list xs)
  | dict {es : List (List Char × Obj F)} (hkeys : (es.map Prod.fst).Nodup) (h : ∀ e ∈ es, Standard D e.2) :
    Standard D (.dict (es.map fun e => (.str e.1, e.2)))

/-- The same value in a language whose numbers are doubles. -/
def Obj.toJson (D : FloatReprs F) (v : Obj F) : Json F :=
  match v with
  | .none => .null
  | .bool b => .bool b
  | .int i => .num (D.nearest (.finite (decide (i < 0)) i.natAbs))
  | .float x => .num x
  | .str s | .other s => .str (Json.units s)
  | .list xs => .arr (xs.map fun x => x.toJson D)
  | .dict es => .obj (es.map fun e => (e.1.units D, e.2.toJson D))
  termination_by sizeOf v
  decreasing_by
  · have hlt := List.sizeOf_lt_of_mem ‹x ∈ xs›
    simp only [Obj.list.sizeOf_spec]
    omega
  · have hlt := List.sizeOf_lt_of_mem ‹e ∈ es›
    obtain ⟨key, w⟩ := e
    simp only [Prod.mk.sizeOf_spec, Obj.dict.sizeOf_spec] at hlt ⊢
    omega

section
variable {D : FloatReprs F} {n : Nat} {v : Obj F}

theorem Obj.Standard.finite (h : v.Standard D) {x : F} (hx : v.Has x) : D.isFinite x = true := by
  induction h with
  | none | bool | int | str => cases hx
  | float h =>
    cases hx
    exact h
  | list _ ih =>
    obtain ⟨v, hv, hx⟩ := has_list.1 hx
    exact ih v hv hx
  | dict _ _ ih =>
    obtain ⟨e, he, hx⟩ := has_dict.1 hx
    obtain ⟨member, hmember, rfl⟩ := List.mem_map.1 he
    exact ih member hmember hx

theorem mapM_some {X Y : Type} {f : X → Option Y} {g : X → Y} {xs : List X} (h : ∀ x ∈ xs, f x = some (g x)) :
    xs.mapM f = some (xs.map g) := by
  induction xs with
  | nil => rfl
  | cons x xs ih =>
    obtain ⟨hx, hxs⟩ := List.forall_mem_cons.1 h
    rw [Json.mapM_cons_map, hx, ih hxs]
    rfl

/-- A standard value is read as itself. -/
theorem jsonOf_standard (hv : v.Standard D) (h : (jsonOf D D.nearest n v).isSome = true) :
    jsonOf D D.nearest n v = some (v.toJson D) := by
  induction n generalizing v with
  | zero => cases h
  | succ n ih =>
    cases hv with
    | none | bool | str => rw [jsonOf, Obj.toJson]
    | int i => rw [jsonOf, Obj.toJson, value_numeralOf]
    | @float x hx =>
      obtain ⟨m, hm⟩ := (D.isFinite_iff x).1 hx
      rw [jsonOf, Obj.toJson, hm]
      simp only [D.nearest_shown x m hm]
    | @list xs hxs =>
      rw [jsonOf, Option.isSome_map, isSome_mapM, List.all_eq_true] at h
      rw [jsonOf, mapM_some fun x hx => ih (hxs x hx) (h x hx), Obj.toJson]
      rfl
    | @dict es hkeys hes =>
      rw [jsonOf, Option.isSome_map, isSome_mapM, List.all_eq_true] at h
      have hmembers : ∀ e ∈ es.map (fun e => (Key.str e.1, e.2)),
          (jsonOf D D.nearest n e.2).map (e.1.units D, ·) = some (e.1.units D, e.2.toJson D) := by
        intro e he
        have hsome := h e he
        obtain ⟨member, hmember, rfl⟩ := List.mem_map.1 he
        rw [Option.isSome_map] at hsome
        rw [ih (hes member hmember) hsome, Option.map_some]
      have hnames : ((es.map fun e => (Key.str e.1, e.2)).map fun e => (e.1.units D, e.2.toJson D)).map Prod.fst =
          (es.map Prod.fst).map Json.units := by
        simp only [List.map_map]
        rfl
      have hnodup := hkeys.map (f := Json.units) fun _ _ => Json.units_inj
      rw [← hnames] at hnodup
      rw [jsonOf, mapM_some hmembers, Option.map_some, Json.collect_of_nodup hnodup, Obj.toJson]

end

end HtapStack.Py
