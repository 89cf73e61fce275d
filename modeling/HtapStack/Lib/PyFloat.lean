import HtapStack.Lib.Numeral
import HtapStack.Lib.Pieces
import HtapStack.Lib.PyNum
/-!
# Python's `float` of a text

`float_text`: every numeral is read right. `float_foreign`: nothing with a
bracket in it is read.
-/

namespace HtapStack.Py

/-- Digits with a single `_` between two of them at most. -/
def digitPart (U : Unicode) (s : List Char) : Option (List Nat) :=
  let parts := s.splitOn '_'
  if parts.any List.isEmpty then none else parts.flatten.mapM U.digit

def floatLiteral (U : Unicode) (s : List Char) : Option Literal :=
  let (negative, s) := Decimal.signed (strip s)
  let name := s.map Char.toLower
  if name = "inf".toList ∨ name = "infinity".toList then some (.infinite negative)
  else if name = "nan".toList then some .nan
  else (Decimal.read (digitPart U) s).map (.finite negative)

/-- `float(s)`. -/
def float {F : Type} (U : Unicode) (D : Doubles F) (s : List Char) : Except Exn F :=
  match floatLiteral U s with
  | some l => .ok (D.nearest l)
  | none => .error .value

theorem readsDigits (U : Unicode) : ReadsDigits (digitPart U) := by
  intro ds hds
  have hplain (d : Fin 10) : (digitChar d == '_') = false ∧ U.digit (digitChar d) = some d.val := by
    have hd : (digitChar d).isDigit = true ∧ (digitChar d).toNat - 48 = d.val ∧ (digitChar d == '_') = false := by
      revert d
      decide
    exact ⟨hd.2.2, by rw [U.digit_of_isDigit hd.1, hd.2.1]⟩
  have hone : (digitsText ds).splitOn '_' = [digitsText ds] := by
    rw [List.splitOn_eq_splitOnP]
    refine List.splitOnP_eq_singleton fun c hc => ?_
    obtain ⟨d, -, rfl⟩ := List.mem_map.1 hc
    exact (hplain d).1
  have hval : (digitsText ds).mapM U.digit = some (ds.map (·.val)) := by
    clear hds hone
    induction ds with
    | nil => rfl
    | cons d ds ih =>
      rw [digitsText, List.map_cons, List.mapM_cons, (hplain d).2]
      rw [digitsText] at ih
      rw [ih]
      rfl
  have hne : (digitsText ds).isEmpty = false := by simpa [digitsText] using hds
  simp only [digitPart, hone, List.any_cons, hne, List.any_nil, List.flatten_cons, List.flatten_nil,
    List.append_nil, hval]
  rfl

theorem numeralChars_plain : ∀ c ∈ numeralChars, isSpace c = false :=
  List.all_iff_forall_prop.1 (by decide)

theorem strip_text (n : Numeral) : strip n.text = n.text := by
  have hplain (o : Option Char) (h : ∀ c ∈ o, c ∈ n.text) : o.any isSpace = false := by
    cases o with
    | none => rfl
    | some c => exact numeralChars_plain c (Numeral.mem_text (h c rfl))
  exact strip_of_trimmed ⟨hplain _ fun c => List.mem_of_mem_head?, hplain _ fun c => List.mem_of_getLast?⟩

theorem floatLiteral_text (U : Unicode) (n : Numeral) : floatLiteral U n.text = some n.value := by
  obtain ⟨c, s, hc, hd⟩ := n.head_unsignedText
  have hplain : c.toLower ≠ 'i' ∧ c.toLower ≠ 'n' ∧ c ≠ '+' ∧ c ≠ '-' := by
    rcases hd with ⟨d, rfl⟩ | rfl
    · clear hc
      revert d
      decide
    · decide
  have hsign : Decimal.signed n.text = (decide (n.sign = some true), n.unsignedText) := by
    refine signed_text n.sign fun d hd => ?_
    rw [hc] at hd
    cases hd
    exact hplain.2.2
  have hname (i : Char) (m : List Char) (hi : m.head? = some i) (h : c.toLower ≠ i) :
      n.unsignedText.map Char.toLower ≠ m := by
    rintro rfl
    rw [hc] at hi
    exact h (Option.some.inj hi)
  have hinf := hname 'i' "inf".toList rfl hplain.1
  have hinfinity := hname 'i' "infinity".toList rfl hplain.1
  have hnan := hname 'n' "nan".toList rfl hplain.2.1
  rw [floatLiteral, strip_text, hsign]
  simp only
  rw [if_neg (not_or.2 ⟨hinf, hinfinity⟩), if_neg hnan, read_text (readsDigits U), Option.map_some, Numeral.value]

theorem float_text {F : Type} (U : Unicode) (D : Doubles F) (n : Numeral) :
    float U D n.text = .ok (D.nearest n.value) := by
  rw [float, floatLiteral_text]

/-- The letters of radixes other than ten. -/
def radixMarks : List Char := "xXoObB".toList

/-- With the brackets, no part of what `float` reads. -/
def foreign : List Char := '(' :: ')' :: radixMarks

theorem foreign_plain : ∀ c ∈ foreign, (c.toNat < 128 ∧ c.isDigit = false ∧ c ≠ '_') ∧ isSpace c = false ∧
    c ≠ '.' ∧ (c ≠ '+' ∧ c ≠ '-') ∧ Decimal.isExponentMark c = false ∧
    ∀ name ∈ ["inf".toList, "infinity".toList, "nan".toList], c.toLower ∉ name :=
  List.all_iff_forall_prop.1 (by decide)

theorem mapM_eq_none {α β : Type} {f : α → Option β} {x : α} {l : List α} (h : x ∈ l) (hx : f x = none) :
    l.mapM f = none := by
  induction l with
  | nil => cases h
  | cons y l ih =>
    rw [List.mapM_cons]
    rcases List.mem_cons.1 h with rfl | h
    · rw [hx]
      rfl
    · rw [ih h]
      exact Option.bind_fun_none _

theorem digitPart_foreign (U : Unicode) {c : Char} (hc : c ∈ foreign) {s : List Char} (h : c ∈ s) :
    digitPart U s = none := by
  obtain ⟨hascii, hnot, hsep⟩ := (foreign_plain c hc).1
  have hdigit : U.digit c = none := by
    rw [U.digit_ascii c hascii, hnot]
    rfl
  obtain ⟨w, hw, hcw⟩ := exists_mem_splitOn hsep h
  unfold digitPart
  simp only
  split
  · rfl
  · exact mapM_eq_none (List.mem_flatten.2 ⟨w, hw, hcw⟩) hdigit

theorem floatLiteral_foreign (U : Unicode) {c : Char} (hc : c ∈ foreign) {s : List Char} (h : c ∈ s) :
    floatLiteral U s = none := by
  obtain ⟨-, hspace, hpoint, hsign, hmark, hnames⟩ := foreign_plain c hc
  have hstrip : c ∈ strip s := by
    obtain ⟨a, b, hs, ha, hb⟩ := strip_spec s
    rw [hs, List.mem_append, List.mem_append] at h
    rcases h with h | h | h
    · simp [ha c h] at hspace
    · exact h
    · simp [hb c h] at hspace
  have hmem := mem_signed hsign hstrip
  have hname (m : List Char) (hm : m ∈ ["inf".toList, "infinity".toList, "nan".toList]) :
      (Decimal.signed (strip s)).2.map Char.toLower ≠ m := by
    rintro rfl
    exact hnames _ hm (List.mem_map_of_mem hmem)
  unfold floatLiteral
  simp only
  rw [if_neg (not_or.2 ⟨hname _ (by simp), hname _ (by simp)⟩), if_neg (hname _ (by simp)),
    read_eq_none (fun _ => digitPart_foreign U hc) hpoint hsign hmark hmem]
  rfl

theorem float_foreign {F : Type} (U : Unicode) (D : Doubles F) {c : Char} (hc : c ∈ foreign) {s : List Char}
    (h : c ∈ s) : float U D s = .error .value := by
  rw [float, floatLiteral_foreign U hc h]

end HtapStack.Py
