import HtapStack.Lib.Numeral
/-!
# Polygons as well-known text

The derivation trees of the POLYGON grammar, each with its text: letters of any
case, white space wherever it may stand, rings and polygons that are EMPTY, and
points of two coordinates or more.
-/

namespace HtapStack.Wkt

def blanks : List Char := [' ', '\t', '\n', '\r']

/-- White space, perhaps none. -/
structure Gap where
  text : List Char
  blank : ∀ c ∈ text, c ∈ blanks

/-- A word, in letters of any case. -/
structure Keyword (word : List Char) where
  text : List Char
  spells : text.map Char.toUpper = word

/-- One more coordinate, and the white space before it. -/
structure Coordinate where
  gap : Gap
  number : Numeral
  gap_ne_nil : gap.text ≠ []

structure Vertex where
  before : Gap
  x : Numeral
  y : Coordinate
  /-- A third coordinate, or a measure, or both. -/
  others : List Coordinate
  after : Gap

inductive Ring where
  | empty (word : Keyword "EMPTY".toList)
  | points (first : Vertex) (others : List Vertex)

/-- A ring and the white space about it. -/
structure Part where
  before : Gap
  ring : Ring
  after : Gap

inductive Body where
  | empty (word : Keyword "EMPTY".toList)
  | rings (exterior : Part) (interior : List Part)

structure Polygon where
  before : Gap
  word : Keyword "POLYGON".toList
  tagGap : Gap
  /-- Which coordinates a point has. -/
  tag : List Char
  tag_mem : tag.map Char.toUpper ∈ [[], ['Z'], ['M'], ['Z', 'M']]
  gap : Gap
  body : Body
  after : Gap

/-! ## Texts -/

def commas (texts : List (List Char)) : List Char := [','].intercalate texts

def Coordinate.text (c : Coordinate) : List Char := c.gap.text ++ c.number.text

/-- What follows the second coordinate. -/
def Vertex.tail (v : Vertex) : List Char := v.others.flatMap Coordinate.text ++ v.after.text

def Vertex.text (v : Vertex) : List Char := v.before.text ++ (v.x.text ++ (v.y.text ++ v.tail))

def verticesText (vs : List Vertex) : List Char := commas (vs.map Vertex.text)

namespace Ring

/-- The points in order. -/
def vertices : Ring → List Vertex
  | .empty _ => []
  | .points v vs => v :: vs

def text : Ring → List Char
  | .empty word => word.text
  | .points v vs => '(' :: (verticesText (v :: vs) ++ [')'])

end Ring

namespace Part

def text (p : Part) : List Char := p.before.text ++ (p.ring.text ++ p.after.text)

def vertices (p : Part) : List Vertex := p.ring.vertices

/-- The ring's bracket comes right after the polygon's, if this part is the first. -/
def opens (p : Part) : Bool := p.before.text.isEmpty && !p.vertices.isEmpty

/-- The polygon's bracket comes right after the ring's, if this part is the last. -/
def closes (p : Part) : Bool := p.after.text.isEmpty && !p.vertices.isEmpty

end Part

def partsText (ps : List Part) : List Char := commas (ps.map Part.text)

def Body.text : Body → List Char
  | .empty word => word.text
  | .rings exterior interior => '(' :: (partsText (exterior :: interior) ++ [')'])

namespace Polygon

/-- The text before the first bracket, if there is one. -/
def headText (p : Polygon) : List Char := p.word.text ++ (p.tagGap.text ++ (p.tag ++ p.gap.text))

/-- The text without the white space about it. -/
def coreText (p : Polygon) : List Char := p.headText ++ p.body.text

def text (p : Polygon) : List Char := p.before.text ++ (p.coreText ++ p.after.text)

/-- The vertices of the exterior ring. -/
def exterior (p : Polygon) : List Vertex :=
  match p.body with
  | .empty _ => []
  | .rings exterior _ => exterior.vertices

end Polygon

/-! ## The characters of a polygon -/

section
variable {c : Char}

theorem not_mem_commas {texts : List (List Char)} (hc : c ≠ ',') (h : ∀ t ∈ texts, c ∉ t) : c ∉ commas texts := by
  induction texts with
  | nil => simp [commas]
  | cons t ts ih =>
    obtain ⟨ht, hts⟩ := List.forall_mem_cons.1 h
    cases ts with
    | nil => simpa [commas] using ht
    | cons u ts =>
      rw [commas, List.intercalate_cons_cons, List.append_assoc]
      simp only [List.mem_append, List.mem_singleton, not_or]
      exact ⟨ht, hc, ih hts⟩

theorem Gap.plain (g : Gap) (hc : c ∉ blanks) : c ∉ g.text := fun h => hc (g.blank c h)

theorem Keyword.plain {word : List Char} (k : Keyword word) (hc : c.toUpper ∉ word) : c ∉ k.text := fun h =>
  hc (k.spells ▸ List.mem_map_of_mem h)

/-- The letters of a word that has ASCII letters only. -/
theorem Keyword.ascii {word : List Char} (k : Keyword word) (hw : word.all (·.toNat < 128) = true) :
    ∀ d ∈ k.text, d.toNat < 128 := by
  intro d hd
  have hmem : d.toUpper.toNat < 128 := by
    simpa using List.all_eq_true.1 hw _ (k.spells ▸ List.mem_map_of_mem hd)
  unfold Char.toUpper at hmem
  split at hmem
  · rename_i hc
    have hl : 97 ≤ d.toNat ∧ d.toNat ≤ 122 := hc
    omega
  · exact hmem

variable (hb : c ∉ blanks) (hn : c ∉ numeralChars)
include hb hn

theorem Coordinate.plain (x : Coordinate) : c ∉ x.text := by
  rw [Coordinate.text, List.mem_append, not_or]
  exact ⟨x.gap.plain hb, fun h => hn (Numeral.mem_text h)⟩

theorem Vertex.tail_plain (v : Vertex) : c ∉ v.tail := by
  rw [Vertex.tail, List.mem_append, List.mem_flatMap, not_or]
  exact ⟨fun ⟨x, _, hx⟩ => x.plain hb hn hx, v.after.plain hb⟩

theorem Vertex.plain (v : Vertex) : c ∉ v.text := by
  simp only [Vertex.text, List.mem_append, not_or]
  exact ⟨v.before.plain hb, fun h => hn (Numeral.mem_text h), v.y.plain hb hn, v.tail_plain hb hn⟩

theorem verticesText_plain (hc : c ≠ ',') (vs : List Vertex) : c ∉ verticesText vs := by
  refine not_mem_commas hc fun t ht => ?_
  obtain ⟨v, -, rfl⟩ := List.mem_map.1 ht
  exact v.plain hb hn

end

theorem Polygon.head_plain (p : Polygon) {c : Char} (hc : c ∈ ['(', ')']) : c ∉ p.headText := by
  have hplain : c ∉ blanks ∧ c.toUpper ∉ "POLYGON".toList ∧ ∀ t ∈ [[], ['Z'], ['M'], ['Z', 'M']], c.toUpper ∉ t := by
    rcases List.mem_pair.1 hc with rfl | rfl <;> decide
  simp only [Polygon.headText, List.mem_append, not_or]
  exact ⟨p.word.plain hplain.2.1, p.tagGap.plain hplain.1,
    fun h => hplain.2.2 _ p.tag_mem (List.mem_map_of_mem h), p.gap.plain hplain.1⟩

theorem Ring.count_bracket (r : Ring) {c : Char} (hc : c ∈ ['(', ')']) : r.text.count c ≤ 1 := by
  have hplain : c ∉ blanks ∧ c ∉ numeralChars ∧ c.toUpper ∉ "EMPTY".toList ∧ c ≠ ',' := by
    rcases List.mem_pair.1 hc with rfl | rfl <;> decide
  cases r with
  | empty word => simp [Ring.text, List.count_eq_zero_of_not_mem (word.plain hplain.2.2.1)]
  | points v vs =>
    have := List.count_eq_zero_of_not_mem (verticesText_plain hplain.1 hplain.2.1 hplain.2.2.2 (v :: vs))
    rcases List.mem_pair.1 hc with rfl | rfl <;> simp [Ring.text, this]

theorem Part.count_bracket (p : Part) {c : Char} (hc : c ∈ ['(', ')']) : p.text.count c ≤ 1 := by
  have hplain : c ∉ blanks := by
    rcases List.mem_pair.1 hc with rfl | rfl <;> decide
  simpa [Part.text, List.count_eq_zero_of_not_mem (p.before.plain hplain),
    List.count_eq_zero_of_not_mem (p.after.plain hplain)] using p.ring.count_bracket hc

/-! ## The characters of rings -/

/-- The characters of a polygon's rings. -/
def wktChars : List Char := blanks ++ (numeralChars ++ "(),EMPTYempty".toList)

theorem Keyword.mem_wktChars (k : Keyword "EMPTY".toList) {c : Char} (h : c ∈ k.text) : c ∈ wktChars := by
  have hascii : ∀ n : Fin 128, (Char.ofNat n).toUpper ∈ "EMPTY".toList → Char.ofNat n ∈ wktChars := by decide
  have hmem : c.toUpper ∈ "EMPTY".toList := k.spells ▸ List.mem_map_of_mem h
  have := hascii ⟨c.toNat, k.ascii (by decide) c h⟩
  simp only [Char.ofNat_toNat] at this
  exact this hmem

theorem Part.plain (p : Part) {c : Char} (h : c ∉ wktChars) : c ∉ p.text := by
  have hsigns : ∀ d ∈ [',', '(', ')'], d ∈ wktChars := List.all_iff_forall_prop.1 (by decide)
  have hne : ∀ d ∈ [',', '(', ')'], c ≠ d := fun d hd hcd => h (hcd ▸ hsigns d hd)
  have hb : c ∉ blanks := fun hc => h (List.mem_append_left _ hc)
  have hn : c ∉ numeralChars := fun hc => h (List.mem_append_right _ (List.mem_append_left _ hc))
  have hring : c ∉ p.ring.text := by
    cases p.ring with
    | empty word => exact fun hc => h (word.mem_wktChars hc)
    | points v vs =>
      have hopen : c ≠ '(' := hne _ (by simp)
      have hclose : c ≠ ')' := hne _ (by simp)
      have hvs := verticesText_plain hb hn (hne ',' (by simp)) (v :: vs)
      simp [Ring.text, hopen, hclose, hvs]
  simp only [Part.text, List.mem_append, not_or]
  exact ⟨p.before.plain hb, hring, p.after.plain hb⟩

theorem mem_wktChars {ps : List Part} {c : Char} (hc : c ∈ partsText ps) : c ∈ wktChars := by
  by_contra h
  refine not_mem_commas ?_ (fun t ht => ?_) hc
  · rintro rfl
    exact h (by decide)
  · obtain ⟨p, -, rfl⟩ := List.mem_map.1 ht
    exact p.plain h

end HtapStack.Wkt
