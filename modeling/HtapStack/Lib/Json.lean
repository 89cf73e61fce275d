import HtapStack.Lib.JsText
/-!
# JSON texts

`Json.parse` reads a JSON text as the standard has it; what becomes of a number is
a parameter. Strings are sequences of UTF-16 code units, as in JavaScript, and of
members with one name the last counts.

What a serialiser writes is read back piece by piece: a string by
`stringTail_escaped`, a number by `number_text`, what stands between brackets by
`elements_join` and `members_join`.
-/

namespace HtapStack.Js

/-- A string's UTF-16 code units. -/
abbrev Units := List UInt16

inductive Json (N : Type) where
  | null
  | bool (b : Bool)
  | num (x : N)
  | str (s : Units)
  | arr (xs : List (Json N))
  | obj (es : List (Units × Json N))

namespace Json

/-! ## Code units -/

def utf16 (c : Char) : Units :=
  if c.toNat < 0x10000 then [.ofNat c.toNat]
  else [.ofNat (0xd800 + (c.toNat - 0x10000) / 0x400), .ofNat (0xdc00 + (c.toNat - 0x10000) % 0x400)]

def units (s : List Char) : Units := s.flatMap utf16

theorem utf16_eq (c : Char) : (c.toNat < 0x10000 ∧ utf16 c = [.ofNat c.toNat]) ∨
    0x10000 ≤ c.toNat ∧
      utf16 c = [.ofNat (0xd800 + (c.toNat - 0x10000) / 0x400), .ofNat (0xdc00 + (c.toNat - 0x10000) % 0x400)] := by
  by_cases h : c.toNat < 0x10000
  · exact .inl ⟨h, if_pos h⟩
  · exact .inr ⟨by omega, if_neg h⟩

theorem toNat_inj {m n : Nat} (hm : m < 0x10000) (hn : n < 0x10000) (h : UInt16.ofNat m = UInt16.ofNat n) : m = n := by
  have := congrArg UInt16.toNat h
  rwa [UInt16.toNat_ofNat_of_lt' hm, UInt16.toNat_ofNat_of_lt' hn] at this

/-- No character's code units go on as those of another. -/
theorem utf16_append_inj {c d : Char} {us vs : Units} (h : utf16 c ++ us = utf16 d ++ vs) : c = d ∧ us = vs := by
  have hc : c.toNat < 0xd800 ∨ 0xdfff < c.toNat ∧ c.toNat < 0x110000 := c.valid
  have hd : d.toNat < 0xd800 ∨ 0xdfff < d.toNat ∧ d.toNat < 0x110000 := d.valid
  have hinj : c.toNat = d.toNat → c = d := fun h => Char.ext (UInt32.toNat_inj.1 h)
  rcases utf16_eq c with ⟨hsmall, hcu⟩ | ⟨hlarge, hcu⟩ <;> rcases utf16_eq d with ⟨hdsmall, hdu⟩ | ⟨hdlarge, hdu⟩ <;>
    rw [hcu, hdu] at h
  · obtain ⟨hu, htail⟩ := List.cons.inj h
    exact ⟨hinj (toNat_inj hsmall hdsmall hu), htail⟩
  · have := toNat_inj hsmall (by omega) (List.cons.inj h).1
    omega
  · have := toNat_inj (by omega) hdsmall (List.cons.inj h).1
    omega
  · obtain ⟨hhigh, htail⟩ := List.cons.inj h
    obtain ⟨hlow, htail⟩ := List.cons.inj htail
    have hhigh := toNat_inj (by omega) (by omega) hhigh
    have hlow := toNat_inj (by omega) (by omega) hlow
    exact ⟨hinj (by omega), htail⟩

theorem units_inj {s t : List Char} (h : units s = units t) : s = t := by
  have hne (c : Char) (us : Units) : utf16 c ++ us ≠ [] := by
    rcases utf16_eq c with ⟨-, hc⟩ | ⟨-, hc⟩ <;> simp [hc]
  induction s generalizing t with
  | nil =>
    cases t with
    | nil => rfl
    | cons d t => exact absurd h.symm (hne d _)
  | cons c s ih =>
    cases t with
    | nil => exact absurd h (hne c _)
    | cons d t =>
      obtain ⟨rfl, htail⟩ := utf16_append_inj h
      rw [ih htail]

def hexDigit (d : Nat) : Char := Nat.digitChar d

/-- Four lower-case digits. -/
def hex4 (u : UInt16) : List Char :=
  [hexDigit (u.toNat / 4096), hexDigit (u.toNat / 256 % 16), hexDigit (u.toNat / 16 % 16), hexDigit (u.toNat % 16)]

/-- `\uXXXX`, without the backslash. -/
def unitText (u : UInt16) : List Char := 'u' :: hex4 u

def readHex4 (a b c d : Char) : Option UInt16 := do
  let a ← Js.radixDigit 16 a
  let b ← Js.radixDigit 16 b
  let c ← Js.radixDigit 16 c
  let d ← Js.radixDigit 16 d
  some (.ofNat (4096 * a + 256 * b + 16 * c + d))

/-! ## The parser -/

def isSpace (c : Char) : Bool := c == ' ' || c == '\t' || c == '\n' || c == '\r'

def skip (s : List Char) : List Char := s.dropWhile isSpace

/-- What a backslash and this character stand for. -/
def escape (c : Char) : Option Units :=
  if c = '"' ∨ c = '\\' ∨ c = '/' then some (utf16 c)
  else if c = 'b' then some [8]
  else if c = 'f' then some [12]
  else if c = 'n' then some [10]
  else if c = 'r' then some [13]
  else if c = 't' then some [9]
  else none

/-- A string after its opening quote, and what follows it. -/
def stringTail : List Char → Option (Units × List Char)
  | [] => none
  | '"' :: s => some ([], s)
  | '\\' :: 'u' :: a :: b :: c :: d :: s => do
    let u ← readHex4 a b c d
    (stringTail s).map fun r => (u :: r.1, r.2)
  | '\\' :: c :: s => do
    let u ← escape c
    (stringTail s).map fun r => (u ++ r.1, r.2)
  | c :: s => if c.toNat < 0x20 then none else (stringTail s).map fun r => (utf16 c ++ r.1, r.2)

/-- A numeral's text, without its sign: no zero before other digits, and digits on both sides of a point. -/
def isPlain (s : List Char) : Bool :=
  let whole := s.takeWhile Char.isDigit
  let rest := s.dropWhile Char.isDigit
  !whole.isEmpty && (whole.head? != some '0' || whole.length == 1) &&
    (rest.head? != some '.' || rest.tail.head?.any Char.isDigit)

def number (s : List Char) : Option Literal :=
  let t := if s.head? = some '-' then s.tail else s
  if isPlain t then (Decimal.read Js.digits t).map (.finite (s.head? == some '-')) else none

section
variable {N : Type}

/-- Values up to the closing bracket, with commas between them. -/
def elements (value : List Char → Option (Json N × List Char)) : Nat → List Char → Option (List (Json N) × List Char)
  | 0, _ => none
  | n + 1, s => do
    let (x, s) ← value s
    match skip s with
    | ',' :: s => (elements value n s).map fun r => (x :: r.1, r.2)
    | ']' :: s => some ([x], s)
    | _ => none

def name (s : List Char) : Option (Units × List Char) := do
  match skip s with
  | '"' :: s =>
    let (key, s) ← stringTail s
    match skip s with
    | ':' :: s => some (key, s)
    | _ => none
  | _ => none

/-- Members up to the closing brace. -/
def members (value : List Char → Option (Json N × List Char)) :
    Nat → List Char → Option (List (Units × Json N) × List Char)
  | 0, _ => none
  | n + 1, s => do
    let (key, s) ← name s
    let (x, s) ← value s
    match skip s with
    | ',' :: s => (members value n s).map fun r => ((key, x) :: r.1, r.2)
    | '}' :: s => some ([(key, x)], s)
    | _ => none

/-- The last of the members with each name. -/
def collect (es : List (Units × Json N)) : List (Units × Json N) :=
  es.foldr (fun e es => if e.1 ∈ es.map Prod.fst then es else e :: es) []

theorem collect_of_nodup {es : List (Units × Json N)} (h : (es.map Prod.fst).Nodup) : collect es = es := by
  induction es with
  | nil => rfl
  | cons e es ih =>
    obtain ⟨hnot, hes⟩ := List.nodup_cons.1 h
    change (if e.1 ∈ (collect es).map Prod.fst then collect es else e :: collect es) = e :: es
    rw [ih hes, if_neg hnot]

/-- A value nested less than `n` deep, and what follows it. -/
def value (num : Literal → N) : Nat → List Char → Option (Json N × List Char)
  | 0, _ => none
  | n + 1, s =>
    match skip s with
    | [] => none
    | c :: s =>
      if c = '"' then (stringTail s).map fun r => (.str r.1, r.2)
      else if c = '[' then
        if (skip s).head? = some ']' then some (.arr [], (skip s).tail)
        else (elements (value num n) s.length s).map fun r => (.arr r.1, r.2)
      else if c = '{' then
        if (skip s).head? = some '}' then some (.obj [], (skip s).tail)
        else (members (value num n) s.length s).map fun r => (.obj (collect r.1), r.2)
      else if "null".toList.isPrefixOf (c :: s) then some (.null, s.drop 3)
      else if "true".toList.isPrefixOf (c :: s) then some (.bool true, s.drop 3)
      else if "false".toList.isPrefixOf (c :: s) then some (.bool false, s.drop 4)
      else (number ((c :: s).takeWhile (· ∈ numeralChars))).map fun l =>
        (.num (num l), (c :: s).dropWhile (· ∈ numeralChars))

/-- One value, and white space around it. -/
def parse (num : Literal → N) (s : List Char) : Option (Json N) :=
  match value num s.length s with
  | some (x, s) => if skip s = [] then some x else none
  | none => none

end

/-! ## Reading strings -/

theorem radixDigit_hexDigit {d : Nat} (h : d < 16) : Js.radixDigit 16 (hexDigit d) = some d := by
  revert d
  decide

theorem readHex4_hex4 (u : UInt16) :
    readHex4 (hexDigit (u.toNat / 4096)) (hexDigit (u.toNat / 256 % 16)) (hexDigit (u.toNat / 16 % 16))
      (hexDigit (u.toNat % 16)) = some u := by
  have hu : u.toNat < 65536 := u.toNat_lt
  have hsum : 4096 * (u.toNat / 4096) + 256 * (u.toNat / 256 % 16) + 16 * (u.toNat / 16 % 16) + u.toNat % 16 =
      u.toNat := by omega
  simp only [readHex4, radixDigit_hexDigit (d := u.toNat / 4096) (by omega),
    radixDigit_hexDigit (Nat.mod_lt _ (Nat.zero_lt_succ 15)), Option.bind_eq_bind, Option.bind_some, hsum,
    UInt16.ofNat_toNat]

theorem stringTail_plain {c : Char} (hquote : c ≠ '"') (hback : c ≠ '\\') (hc : 0x20 ≤ c.toNat) (s : List Char) :
    stringTail (c :: s) = (stringTail s).map fun r => (utf16 c ++ r.1, r.2) := by
  rw [stringTail, if_neg (by omega)]
  · exact hquote
  · rintro _ _ _ _ _ rfl
    exact absurd rfl hback
  · exact fun _ _ h => absurd h hback

theorem stringTail_unit (u : UInt16) (s : List Char) :
    stringTail ('\\' :: unitText u ++ s) = (stringTail s).map fun r => (u :: r.1, r.2) := by
  rw [unitText, hex4]
  simp only [List.cons_append, List.nil_append, stringTail, readHex4_hex4, Option.bind_eq_bind, Option.bind_some]

theorem stringTail_units (us : Units) (s : List Char) :
    stringTail (us.flatMap (fun u => '\\' :: unitText u) ++ s) = (stringTail s).map fun r => (us ++ r.1, r.2) := by
  induction us with
  | nil => simp
  | cons u us ih =>
    rw [List.flatMap_cons, List.append_assoc, stringTail_unit, ih]
    cases stringTail s <;> rfl

/-! ## Reading numbers -/

/-- The numeral is as the standard writes them. -/
structure IsPlain (n : Numeral) : Prop where
  sign : n.sign ≠ some false
  whole : n.whole ≠ []
  zero : n.whole.head? = some 0 → n.whole.length = 1
  fraction : n.fraction ≠ some []

theorem isDigit_digitChar (d : Fin 10) : (digitChar d).isDigit = true := by
  revert d
  decide

theorem digitChar_eq_zero (d : Fin 10) : digitChar d = '0' ↔ d = 0 := by
  revert d
  decide

theorem takeWhile_digits (ds : List (Fin 10)) {s : List Char} (h : s.head?.any Char.isDigit = false) :
    (digitsText ds ++ s).takeWhile Char.isDigit = digitsText ds ∧ (digitsText ds ++ s).dropWhile Char.isDigit = s := by
  have hds : ∀ c ∈ digitsText ds, c.isDigit = true := by
    intro c hc
    obtain ⟨d, -, rfl⟩ := List.mem_map.1 hc
    exact isDigit_digitChar d
  rw [List.takeWhile_append_of_pos hds, List.dropWhile_append_of_pos hds]
  cases s with
  | nil => simp
  | cons c s =>
    have hc : c.isDigit = false := h
    simp [hc]

theorem isPlain_text {n : Numeral} (h : IsPlain n) : isPlain n.unsignedText = true := by
  obtain ⟨rest, hrest, hhead, hpoint⟩ : ∃ rest, n.unsignedText = digitsText n.whole ++ rest ∧
      rest.head?.any Char.isDigit = false ∧ (rest.head? != some '.' || rest.tail.head?.any Char.isDigit) = true := by
    refine ⟨_, by rw [Numeral.unsignedText, Numeral.mantissaText, List.append_assoc], ?_⟩
    cases hf : n.fraction with
    | some fraction =>
      cases fraction with
      | nil => exact absurd hf h.fraction
      | cons d ds => exact ⟨rfl, by simp [digitsText, isDigit_digitChar]⟩
    | none =>
      cases he : n.exponent with
      | none => exact ⟨rfl, rfl⟩
      | some e => rcases e.mark_mem with hm | hm <;> simp [Exponent.text, hm]
  obtain ⟨htake, hdrop⟩ := takeWhile_digits n.whole hhead
  rw [isPlain, hrest]
  simp only [htake, hdrop, hpoint, Bool.and_true]
  obtain ⟨d, ds, hw⟩ := List.exists_cons_of_ne_nil h.whole
  have hzero := h.zero
  rw [hw] at hzero ⊢
  by_cases hd : d = 0
  · subst hd
    have hds : ds = [] := by simpa using hzero rfl
    subst hds
    rfl
  · simp [digitsText, digitChar_eq_zero, hd]

theorem digit_digitChar (d : Fin 10) : Js.digit (digitChar d) = some d.val := by
  revert d
  decide

theorem readsDigits : ReadsDigits Js.digits := by
  intro ds hne
  have hall : (digitsText ds).mapM Js.digit = some (ds.map (·.val)) := by
    clear hne
    induction ds with
    | nil => rfl
    | cons d ds ih =>
      rw [digitsText, List.map_cons, List.mapM_cons, digit_digitChar, ← digitsText, ih]
      rfl
  obtain ⟨d, ds, rfl⟩ := List.exists_cons_of_ne_nil hne
  exact hall

theorem number_text {n : Numeral} (h : IsPlain n) : number n.text = some n.value := by
  have hread := read_text readsDigits n
  obtain ⟨c, s, hs, hc⟩ := n.head_unsignedText
  have hminus : c ≠ '-' := by
    rcases hc with ⟨d, rfl⟩ | rfl
    · exact (digitChar_plain d).2.2.1
    · decide
  cases hsign : n.sign with
  | some b =>
    cases b with
    | false => exact absurd hsign h.sign
    | true =>
      have htext : n.text = '-' :: n.unsignedText := by simp [Numeral.text, hsign, signText]
      simp [number, htext, isPlain_text h, hread, Numeral.value, hsign]
  | none =>
    have htext : n.text = n.unsignedText := by simp [Numeral.text, hsign, signText]
    have hhead : n.unsignedText.head? ≠ some '-' := by simp [hs, hminus]
    simp [number, htext, isPlain_text h, hread, Numeral.value, hsign, hhead]

/-! ## Reading values -/

section
variable {N : Type} {num : Literal → N} {n : Nat} {s rest : List Char}

/-- No numeral goes on here. -/
def Stops (rest : List Char) : Prop := ∀ c ∈ rest.head?, c ∉ numeralChars

theorem stops_nil : Stops [] := fun c hc => by cases hc

theorem stops_cons {c : Char} (h : c ∉ numeralChars) : Stops (c :: rest) := fun d hd => by
  obtain rfl : c = d := by simpa using hd
  exact h

theorem skip_cons {c : Char} (h : isSpace c = false) : skip (c :: s) = c :: s := by simp [skip, h]

theorem value_null : value num (n + 1) ("null".toList ++ rest) = some (.null, rest) := rfl

theorem value_bool (b : Bool) :
    value num (n + 1) ((if b then "true".toList else "false".toList) ++ rest) = some (.bool b, rest) := by
  cases b <;> rfl

theorem value_str : value num (n + 1) ('"' :: s) = (stringTail s).map fun r => (.str r.1, r.2) := rfl

/-- A numeral begins with a digit or a minus sign. -/
theorem head_text {m : Numeral} (h : IsPlain m) : ∃ c s, m.text = c :: s ∧ (c = '-' ∨ ∃ d, c = digitChar d) := by
  obtain ⟨d, ds, hw⟩ := List.exists_cons_of_ne_nil h.whole
  have hunsigned : ∃ s, m.unsignedText = digitChar d :: s := by
    simp [Numeral.unsignedText, Numeral.mantissaText, hw, digitsText]
  obtain ⟨s, hs⟩ := hunsigned
  cases hsign : m.sign with
  | some b =>
    cases b with
    | false => exact absurd hsign h.sign
    | true => exact ⟨'-', _, by rw [Numeral.text, hsign]; rfl, .inl rfl⟩
  | none => exact ⟨digitChar d, s, by rw [Numeral.text, hsign, hs]; rfl, .inr ⟨d, rfl⟩⟩

theorem head_plain {c : Char} (h : c = '-' ∨ ∃ d, c = digitChar d) :
    isSpace c = false ∧ c ≠ '"' ∧ c ≠ '[' ∧ c ≠ '{' ∧ c ≠ 'n' ∧ c ≠ 't' ∧ c ≠ 'f' := by
  rcases h with rfl | ⟨d, rfl⟩
  · decide
  · revert d
    decide

/-- What does not begin like any other value is read as a number. -/
theorem value_number {c : Char} (h : isSpace c = false ∧ c ≠ '"' ∧ c ≠ '[' ∧ c ≠ '{' ∧ c ≠ 'n' ∧ c ≠ 't' ∧ c ≠ 'f') :
    value num (n + 1) (c :: s) = (number ((c :: s).takeWhile (· ∈ numeralChars))).map fun l =>
      (.num (num l), (c :: s).dropWhile (· ∈ numeralChars)) := by
  obtain ⟨hspace, hquote, hbracket, hbrace, hn, ht, hf⟩ := h
  have hnull : "null".toList.isPrefixOf (c :: s) = false := by simp [List.isPrefixOf, hn.symm]
  have htrue : "true".toList.isPrefixOf (c :: s) = false := by simp [List.isPrefixOf, ht.symm]
  have hfalse : "false".toList.isPrefixOf (c :: s) = false := by simp [List.isPrefixOf, hf.symm]
  rw [value, skip_cons hspace]
  simp only [if_neg hquote, if_neg hbracket, if_neg hbrace, hnull, htrue, hfalse, Bool.false_eq_true, if_false]

theorem takeWhile_numeral {t : List Char} (ht : ∀ c ∈ t, c ∈ numeralChars) (h : Stops rest) :
    (t ++ rest).takeWhile (· ∈ numeralChars) = t ∧ (t ++ rest).dropWhile (· ∈ numeralChars) = rest := by
  have ht : ∀ c ∈ t, decide (c ∈ numeralChars) = true := fun c hc => decide_eq_true (ht c hc)
  rw [List.takeWhile_append_of_pos ht, List.dropWhile_append_of_pos ht]
  cases rest with
  | nil => simp
  | cons c rest =>
    have hc : c ∉ numeralChars := h c rfl
    simp [hc]

theorem value_numeral {m : Numeral} (h : IsPlain m) (hrest : Stops rest) :
    value num (n + 1) (m.text ++ rest) = some (.num (num m.value), rest) := by
  obtain ⟨c, s, hs, hc⟩ := head_text h
  obtain ⟨htake, hdrop⟩ := takeWhile_numeral (fun c => Numeral.mem_text (n := m)) hrest
  rw [hs, List.cons_append] at htake hdrop ⊢
  rw [value_number (head_plain hc), htake, hdrop, ← hs, number_text h, Option.map_some]

theorem value_space : value num n (' ' :: s) = value num n s := by
  cases n <;> rfl

/-! ## Reading what stands between brackets -/

def comma : List Char := [',', ' ']

theorem length_le_join (ts : List (List Char)) : ts.length ≤ (comma.intercalate ts).length + 1 := by
  induction ts with
  | nil => exact Nat.zero_le _
  | cons t ts ih =>
    cases ts with
    | nil => simp
    | cons u ts =>
      rw [List.intercalate_cons_cons, List.length_append, List.length_append, List.length_cons, comma]
      rw [comma] at ih
      simp only [List.length_cons, List.length_nil] at ih ⊢
      omega

section
variable {X : Type} {value : List Char → Option (Json N × List Char)} {f : X → Option (Json N)} {g : X → Units}
  {xs : List X} {ts : List (List Char)}

/-- The text is read as this, if as anything. -/
def Reads (value : List Char → Option (Json N × List Char)) (x : Option (Json N)) (t : List Char) : Prop :=
  ∀ rest, Stops rest → value (t ++ rest) = x.map (·, rest)

theorem mapM_cons_map {Y : Type} (f : X → Option Y) (x : X) (xs : List X) :
    (x :: xs).mapM f = (f x).bind fun y => (xs.mapM f).map (y :: ·) := by
  rw [List.mapM_cons]
  cases f x with
  | none => rfl
  | some y => cases xs.mapM f <;> simp

theorem elements_last {x : Option (Json N)} {t : List Char} (h : Reads value x t) :
    elements value (n + 1) (t ++ ']' :: rest) = x.map fun j => ([j], rest) := by
  rw [elements, h _ (stops_cons (by decide))]
  cases x <;> rfl

theorem elements_more {x : Option (Json N)} {t : List Char} (h : Reads value x t) :
    elements value (n + 1) (t ++ ',' :: s) = x.bind fun j => (elements value n s).map fun r => (j :: r.1, r.2) := by
  rw [elements, h _ (stops_cons (by decide))]
  cases x <;> rfl

theorem elements_space (hspace : ∀ s, value (' ' :: s) = value s) : elements value n (' ' :: s) = elements value n s := by
  cases n with
  | zero => rfl
  | succ n => rw [elements, elements, hspace]

theorem elements_join (hspace : ∀ s, value (' ' :: s) = value s)
    (h : List.Forall₂ (fun x t => Reads value (f x) t) xs ts) (hne : xs ≠ []) (hn : xs.length ≤ n) :
    elements value n (comma.intercalate ts ++ ']' :: rest) = (xs.mapM f).map (·, rest) := by
  induction h generalizing n with
  | nil => exact absurd rfl hne
  | @cons x t xs ts hx hxs ih =>
    obtain ⟨n, rfl⟩ : ∃ m, n = m + 1 := ⟨n - 1, by simp at hn; omega⟩
    cases hxs with
    | nil =>
      rw [List.intercalate_singleton, elements_last hx]
      cases hf : f x <;> simp [hf]
    | @cons y u xs ts hy hxs =>
      have htail := ih (n := n) (by simp) (by simpa using hn)
      rw [List.intercalate_cons_cons, List.append_assoc, List.append_assoc, comma, List.cons_append,
        elements_more hx, List.cons_append, List.nil_append, elements_space hspace, ← comma, htail, mapM_cons_map f x]
      cases f x with
      | none => rfl
      | some j => simp

theorem name_string {key : List Char} {k : Units} (h : ∀ s, stringTail (key ++ s) = (stringTail s).map fun r => (k ++ r.1, r.2)) :
    name ('"' :: (key ++ '"' :: ':' :: s)) = some (k, s) := by
  change (stringTail (key ++ '"' :: ':' :: s)).bind _ = _
  rw [h]
  change some (k ++ [], s) = some (k, s)
  rw [List.append_nil]

theorem members_last {x : Option (Json N)} {k : Units} {key t : List Char} (hk : ∀ s, name (key ++ ':' :: s) = some (k, s))
    (hspace : ∀ s, value (' ' :: s) = value s) (h : Reads value x t) :
    members value (n + 1) (key ++ ':' :: ' ' :: (t ++ '}' :: rest)) = x.map fun j => ([(k, j)], rest) := by
  rw [members, hk, Option.bind_eq_bind, Option.bind_some]
  dsimp only
  rw [hspace, h _ (stops_cons (by decide))]
  cases x <;> rfl

theorem members_more {x : Option (Json N)} {k : Units} {key t : List Char} (hk : ∀ s, name (key ++ ':' :: s) = some (k, s))
    (hspace : ∀ s, value (' ' :: s) = value s) (h : Reads value x t) :
    members value (n + 1) (key ++ ':' :: ' ' :: (t ++ ',' :: s)) =
      x.bind fun j => (members value n s).map fun r => ((k, j) :: r.1, r.2) := by
  rw [members, hk, Option.bind_eq_bind, Option.bind_some]
  dsimp only
  rw [hspace, h _ (stops_cons (by decide))]
  cases x <;> rfl

theorem members_space : members value n (' ' :: s) = members value n s := by
  cases n <;> rfl

/-- The text is a member of this name, and read as this, if as anything. -/
def ReadsMember (value : List Char → Option (Json N × List Char)) (k : Units) (x : Option (Json N)) (t : List Char) :
    Prop :=
  ∃ key u, t = '"' :: key ++ ':' :: ' ' :: u ∧ (∀ s, name ('"' :: key ++ ':' :: s) = some (k, s)) ∧ Reads value x u

theorem members_join (hspace : ∀ s, value (' ' :: s) = value s)
    (h : List.Forall₂ (fun x t => ReadsMember value (g x) (f x) t) xs ts) (hne : xs ≠ []) (hn : xs.length ≤ n) :
    members value n (comma.intercalate ts ++ '}' :: rest) = (xs.mapM fun x => (f x).map (g x, ·)).map (·, rest) := by
  induction h generalizing n with
  | nil => exact absurd rfl hne
  | @cons x t xs ts hx hxs ih =>
    obtain ⟨n, rfl⟩ : ∃ m, n = m + 1 := ⟨n - 1, by simp at hn; omega⟩
    obtain ⟨key, u, rfl, hk, hu⟩ := hx
    cases hxs with
    | nil =>
      have htext : '"' :: key ++ ':' :: ' ' :: u ++ '}' :: rest = '"' :: key ++ ':' :: ' ' :: (u ++ '}' :: rest) := by
        simp
      rw [List.intercalate_singleton, htext, members_last hk hspace hu]
      cases hf : f x <;> simp [hf]
    | @cons y v xs ts hy hxs =>
      have htail := ih (n := n) (by simp) (by simpa using hn)
      have htext : '"' :: key ++ ':' :: ' ' :: u ++ comma ++ comma.intercalate (v :: ts) ++ '}' :: rest =
          '"' :: key ++ ':' :: ' ' :: (u ++ ',' :: ' ' :: (comma.intercalate (v :: ts) ++ '}' :: rest)) := by
        simp [comma]
      rw [List.intercalate_cons_cons, htext, members_more hk hspace hu, members_space, htail, mapM_cons_map _ x]
      cases f x with
      | none => rfl
      | some j => simp

end

section
variable {X : Type} {f : X → Option (Json N)} {g : X → Units} {xs : List X} {ts : List (List Char)}

/-- The text does not begin like the end of an array. -/
def Begins (t : List Char) : Prop := ∃ c u, t = c :: u ∧ isSpace c = false ∧ c ≠ ']'

theorem value_arr (h : List.Forall₂ (fun x t => Reads (value num n) (f x) t) xs ts) (hbegins : ∀ t ∈ ts, Begins t) :
    value num (n + 1) ('[' :: (comma.intercalate ts ++ ']' :: rest)) = (xs.mapM f).map fun js => (.arr js, rest) := by
  cases h with
  | nil => rfl
  | @cons x t xs ts hx hxs =>
    obtain ⟨c, u, rfl, hspace, hbracket⟩ := hbegins t List.mem_cons_self
    have hjoin : ∃ v, comma.intercalate ((c :: u) :: ts) = c :: v := by
      cases ts with
      | nil => exact ⟨u, List.intercalate_singleton⟩
      | cons t ts => exact ⟨_, List.intercalate_cons_cons⟩
    have hlength : (x :: xs).length ≤ (comma.intercalate ((c :: u) :: ts) ++ ']' :: rest).length := by
      have hle := length_le_join ((c :: u) :: ts)
      have hpairs := hxs.length_eq
      simp only [List.length_append, List.length_cons] at hle ⊢
      omega
    have helements : elements (value num n) _ (comma.intercalate ((c :: u) :: ts) ++ ']' :: rest) = _ :=
      elements_join (fun s => value_space) (.cons hx hxs) (List.cons_ne_nil x xs) hlength
    obtain ⟨v, hv⟩ := hjoin
    rw [hv, List.cons_append] at helements ⊢
    change (if (skip (c :: (v ++ ']' :: rest))).head? = some ']' then _ else _) = _
    rw [skip_cons hspace, if_neg (by simpa using hbracket), helements]
    cases (x :: xs).mapM f <;> rfl

theorem value_obj (h : List.Forall₂ (fun x t => ReadsMember (value num n) (g x) (f x) t) xs ts) :
    value num (n + 1) ('{' :: (comma.intercalate ts ++ '}' :: rest)) =
      (xs.mapM fun x => (f x).map (g x, ·)).map fun es => (.obj (collect es), rest) := by
  cases h with
  | nil => rfl
  | @cons x t xs ts hx hxs =>
    have hjoin : ∃ v, comma.intercalate (t :: ts) = '"' :: v := by
      obtain ⟨key, u, rfl, -⟩ := hx
      cases ts with
      | nil => exact ⟨_, List.intercalate_singleton⟩
      | cons t ts => exact ⟨_, List.intercalate_cons_cons⟩
    have hlength : (x :: xs).length ≤ (comma.intercalate (t :: ts) ++ '}' :: rest).length := by
      have hle := length_le_join (t :: ts)
      have hpairs := hxs.length_eq
      simp only [List.length_append, List.length_cons] at hle ⊢
      omega
    have hmembers : members (value num n) _ (comma.intercalate (t :: ts) ++ '}' :: rest) = _ :=
      members_join (fun s => value_space) (.cons hx hxs) (List.cons_ne_nil x xs) hlength
    obtain ⟨v, hv⟩ := hjoin
    rw [hv, List.cons_append] at hmembers ⊢
    change (members (value num n) _ _).map _ = _
    rw [hmembers]
    cases (x :: xs).mapM fun x => (f x).map (g x, ·) <;> rfl

end

end

end Json

end HtapStack.Js
