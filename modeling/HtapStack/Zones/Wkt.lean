import HtapStack.Lib.PyFloat
import HtapStack.Lib.Wkt
/-!
# Reading a zone's polygon

`parse_wkt_polygon` of the sink and of the backend, on every text of the grammar
of `Lib/Wkt.lean`. The parser takes what is between the first `((` and the last
`))` for one ring, drops what is no pair of numbers, and so merges the rings of a
polygon that has more than one (`ringOf_rings`).

`right_iff`: when what is read is the exterior ring or nothing.
-/

namespace HtapStack
open Py Wkt

section
variable {F : Type} (U : Unicode) (D : Doubles F)

namespace Wkt

/-- The vertex that a pair adds to the ring. -/
def vertex (pair : List Char) : Option (F × F) :=
  match split pair with
  | lon :: lat :: _ =>
    match float U D lon, float U D lat with
    | .ok lon, .ok lat => some (lon, lat)
    | _, _ => none
  | _ => none

/-- What is between the brackets. -/
def inner (text : List Char) : Option (List Char) :=
  if !"POLYGON".toList.isPrefixOf (text.flatMap U.upper) then none
  else do
    let start ← find ['(', '('] text
    let stop ← rfind [')', ')'] text
    some ((text.take stop).drop (start + 2))

def ringIn (inner : List Char) : List (F × F) := (inner.splitOn ',').filterMap (vertex U D)

/-- The part that the two have in common. -/
def ringOf (text : List Char) : List (F × F) := (inner U text).elim [] (ringIn U D)

end Wkt

/-- The sink's `parse_wkt_polygon`. -/
def Proximity.parseWktPolygon (wkt : Option (List Char)) : List (F × F) := ringOf U D (strip (wkt.getD []))

/-- The backend's `parse_wkt_polygon`. -/
def WhatIf.parseWktPolygon (wkt : Option (List Char)) : Except Exn (List (F × F)) :=
  match wkt with
  | some wkt => .ok (ringOf U D (strip wkt))
  | none => .error .attribute

end

namespace Wkt

/-! ## One pair -/

section
variable {F : Type} {U : Unicode} {D : Doubles F}

theorem blank_isSpace : ∀ c ∈ blanks, isSpace c = true := List.all_iff_forall_prop.1 (by decide)

theorem Gap.isSpace (g : Gap) : ∀ c ∈ g.text, Py.isSpace c = true := fun c hc => blank_isSpace c (g.blank c hc)

theorem number_word (n : Numeral) : (∀ c ∈ n.text, Py.isSpace c = false) ∧ n.text ≠ [] := by
  obtain ⟨c, s, hc, -⟩ := n.head_unsignedText
  refine ⟨fun c hc => numeralChars_plain c (Numeral.mem_text hc), ?_⟩
  simp [Numeral.text, hc]

/-- The vertex's coordinates, as doubles. -/
def Vertex.point (D : Doubles F) (v : Vertex) : F × F := (D.nearest v.x.value, D.nearest v.y.number.value)

theorem split_vertex (v : Vertex) (s : List Char) :
    split (v.before.text ++ (v.x.text ++ (v.y.text ++ s))) = v.x.text :: split (v.y.number.text ++ s) := by
  have hgap : (v.y.text ++ s).head?.all Py.isSpace = true := by
    obtain ⟨c, g, hg⟩ := List.exists_cons_of_ne_nil v.y.gap_ne_nil
    simpa [Coordinate.text, hg] using v.y.gap.isSpace c (by simp [hg])
  rw [split_spaces v.before.isSpace, split_word (number_word v.x).1 (number_word v.x).2 hgap, Coordinate.text,
    List.append_assoc, split_spaces v.y.gap.isSpace]

variable (U D) in
/-- A pair is a vertex where nothing but white space touches its second coordinate. -/
theorem vertex_eq (v : Vertex) {s : List Char} (hs : s.head?.all Py.isSpace = true) :
    vertex U D (v.before.text ++ (v.x.text ++ (v.y.text ++ s))) = some (v.point D) := by
  rw [vertex, split_vertex, split_word (number_word v.y.number).1 (number_word v.y.number).2 hs]
  simp only [float_text]
  rfl

variable (U D) in
theorem vertex_touched (v : Vertex) {g : List Char} (hg : ∀ c ∈ g, Py.isSpace c = true) :
    vertex U D (v.before.text ++ (v.x.text ++ (v.y.text ++ ')' :: g))) = none := by
  have hword : ∀ c ∈ v.y.number.text ++ [')'], Py.isSpace c = false := by
    intro c hc
    rcases List.mem_append.1 hc with hc | hc
    · exact (number_word v.y.number).1 c hc
    · exact List.mem_singleton.1 hc ▸ rfl
  have hsplit : split (v.y.number.text ++ ')' :: g) = [v.y.number.text ++ [')']] := by
    have := split_word hword (by simp) (s := g) (by cases g <;> simp_all)
    rw [List.append_assoc, List.singleton_append] at this
    rw [this, ← List.append_nil g, split_spaces hg]
    rfl
  have hlat : float U D (v.y.number.text ++ [')']) = .error .value :=
    float_foreign U D (c := ')') (by decide) (List.mem_append_right _ (List.mem_singleton_self _))
  rw [vertex, split_vertex, hsplit]
  simp only [hlat, float_text]

variable (U D) in
/-- What begins with a bracket is no vertex. -/
theorem vertex_open {g : List Char} (hg : ∀ c ∈ g, Py.isSpace c = true) (s : List Char) :
    vertex U D (g ++ '(' :: s) = none := by
  obtain ⟨w, ws, hw, -⟩ := runs_cons_pos (p := (!Py.isSpace ·)) (c := '(') (b := s) rfl
  rw [vertex, split_spaces hg, split, hw]
  cases ws with
  | nil => rfl
  | cons lat ws =>
    simp only
    rw [float_foreign U D (c := '(') (by decide) List.mem_cons_self]

variable (U D) in
/-- No more is a single word. -/
theorem vertex_word {g w h : List Char} (hg : ∀ c ∈ g, Py.isSpace c = true) (hw : ∀ c ∈ w, Py.isSpace c = false)
    (hh : ∀ c ∈ h, Py.isSpace c = true) : vertex U D (g ++ (w ++ h)) = none := by
  have hsplit : split h = [] := by
    rw [← List.append_nil h, split_spaces hh]
    rfl
  rw [vertex, split_spaces hg]
  by_cases hne : w = []
  · rw [hne, List.nil_append, hsplit]
  · rw [split_word hw hne (by cases h <;> simp_all), hsplit]

/-! ## One ring -/

/-- A bracket right after the vertex would touch its second coordinate. -/
def Vertex.touches (v : Vertex) : Bool := v.tail.isEmpty

/-- What is left of a ring's vertices when its bracket is read as part of the last. -/
def kept : List Vertex → List Vertex
  | [] => []
  | [v] => if v.touches then [] else [v]
  | v :: w :: vs => v :: kept (w :: vs)

theorem ringIn_comma (a b : List Char) : ringIn U D (a ++ ',' :: b) = ringIn U D a ++ ringIn U D b := by
  have hsplit : (a ++ ',' :: b).splitOn ',' = a.splitOn ',' ++ b.splitOn ',' := by
    simp only [List.splitOn_eq_splitOnP]
    exact List.splitOnP_append_cons _ _ rfl
  rw [ringIn, hsplit, List.filterMap_append]
  rfl

theorem ringIn_pair {pair : List Char} (h : ',' ∉ pair) : ringIn U D pair = (vertex U D pair).toList := by
  have hsplit : pair.splitOn ',' = [pair] := by
    rw [List.splitOn_eq_splitOnP]
    refine List.splitOnP_eq_singleton fun c hc => beq_false_of_ne ?_
    rintro rfl
    exact h hc
  rw [ringIn, hsplit]
  cases hv : vertex U D pair <;> simp [hv]

theorem Vertex.comma_free (v : Vertex) : ',' ∉ v.text := v.plain (by decide) (by decide)

theorem Gap.comma_free (g : Gap) : ',' ∉ g.text := g.plain (by decide)

theorem tail_head (v : Vertex) : v.tail.head?.all Py.isSpace = true := by
  unfold Vertex.tail
  cases v.others with
  | nil =>
    cases ha : v.after.text with
    | nil => simp
    | cons c g => simpa using v.after.isSpace c (by simp [ha])
  | cons x xs =>
    obtain ⟨c, g, hg⟩ := List.exists_cons_of_ne_nil x.gap_ne_nil
    simpa [Coordinate.text, hg] using x.gap.isSpace c (by simp [hg])

theorem ringIn_vertex (v : Vertex) : ringIn U D v.text = [v.point D] := by
  rw [ringIn_pair v.comma_free, Vertex.text, vertex_eq U D v (tail_head v)]
  rfl

/-- The last vertex of a ring, with the ring's bracket. -/
theorem ringIn_closed (v : Vertex) (g : Gap) :
    ringIn U D (v.text ++ ')' :: g.text) = if v.touches then [] else [v.point D] := by
  have hfree : ',' ∉ v.text ++ ')' :: g.text := by simp [v.comma_free, g.comma_free]
  rw [ringIn_pair hfree, Vertex.text]
  simp only [List.append_assoc]
  cases ht : v.tail with
  | nil =>
    rw [List.nil_append, vertex_touched U D v g.isSpace, if_pos (by simp [Vertex.touches, ht])]
    rfl
  | cons c t =>
    have hhead := tail_head v
    rw [ht] at hhead
    rw [vertex_eq U D v (by simpa using hhead), if_neg (by simp [Vertex.touches, ht])]
    rfl

@[simp] theorem verticesText_one (v : Vertex) : verticesText [v] = v.text := by
  simp [verticesText, commas]

theorem verticesText_cons (v w : Vertex) (vs : List Vertex) :
    verticesText (v :: w :: vs) = v.text ++ ',' :: verticesText (w :: vs) := by
  simp [verticesText, commas, List.intercalate_cons_cons]

theorem ringIn_vertices (v : Vertex) (vs : List Vertex) :
    ringIn U D (verticesText (v :: vs)) = (v :: vs).map (Vertex.point D) := by
  induction vs generalizing v with
  | nil => rw [verticesText_one, ringIn_vertex]; rfl
  | cons w vs ih => rw [verticesText_cons, ringIn_comma, ringIn_vertex, ih, List.map_cons]; rfl

/-- The vertices of a ring that others follow. -/
theorem ringIn_kept (v : Vertex) (vs : List Vertex) (g : Gap) :
    ringIn U D (verticesText (v :: vs) ++ ')' :: g.text) = (kept (v :: vs)).map (Vertex.point D) := by
  induction vs generalizing v with
  | nil =>
    rw [verticesText_one, ringIn_closed, kept]
    split <;> rfl
  | cons w vs ih =>
    rw [verticesText_cons, List.append_assoc, List.cons_append, ringIn_comma, ringIn_vertex, ih, kept]
    rfl

/-! ## Interior rings -/

theorem ringIn_open (g : Gap) {s : List Char} (hs : ',' ∉ s) : ringIn U D (g.text ++ '(' :: s) = [] := by
  have hfree : ',' ∉ g.text ++ '(' :: s := by simp [g.comma_free, hs]
  rw [ringIn_pair hfree, vertex_open U D g.isSpace]
  rfl

theorem Keyword.not_space {word : List Char} (k : Keyword word) (hw : word.all (!Py.isSpace ·) = true) :
    ∀ c ∈ k.text, Py.isSpace c = false := by
  intro c hc
  by_contra hs
  have hmem : c.toUpper ∈ word := k.spells ▸ List.mem_map_of_mem hc
  rw [toUpper_of_isSpace (by simpa using hs)] at hmem
  exact hs (by simpa using List.all_eq_true.1 hw c hmem)

theorem empty_not_space (k : Keyword "EMPTY".toList) : ∀ c ∈ k.text, Py.isSpace c = false :=
  k.not_space (by decide)

/-- The first vertex of an interior ring goes with the bracket before it. -/
theorem ringIn_interior (p : Part) : ringIn U D p.text = (kept p.vertices.tail).map (Vertex.point D) := by
  obtain ⟨before, ring, after⟩ := p
  cases ring with
  | empty word =>
    have hfree : ',' ∉ before.text ++ (word.text ++ after.text) := by
      simp [before.comma_free, after.comma_free, word.plain (c := ',') (by decide)]
    change ringIn U D (before.text ++ (word.text ++ after.text)) = []
    rw [ringIn_pair hfree, vertex_word U D before.isSpace (empty_not_space word) after.isSpace]
    rfl
  | points v vs =>
    cases vs with
    | nil =>
      have hfree : ',' ∉ v.text ++ ')' :: after.text := by simp [v.comma_free, after.comma_free]
      simpa [Part.text, Ring.text, Part.vertices, Ring.vertices, kept] using ringIn_open before hfree
    | cons w vs =>
      have htext : (Part.mk before (.points v (w :: vs)) after).text =
          (before.text ++ '(' :: v.text) ++ ',' :: (verticesText (w :: vs) ++ ')' :: after.text) := by
        simp [Part.text, Ring.text, verticesText_cons]
      rw [htext, ringIn_comma, ringIn_open before v.comma_free, ringIn_kept]
      rfl

/-- An interior ring without its last bracket. -/
def Part.unclosed (p : Part) : List Char := p.before.text ++ '(' :: verticesText p.vertices

theorem ringIn_unclosed (p : Part) : ringIn U D p.unclosed = p.vertices.tail.map (Vertex.point D) := by
  unfold Part.unclosed
  match p.vertices with
  | [] => exact ringIn_open p.before (by simp [verticesText, commas])
  | [v] => exact ringIn_open p.before (by simp [v.comma_free])
  | v :: w :: vs =>
    have htext : p.before.text ++ '(' :: verticesText (v :: w :: vs) =
        (p.before.text ++ '(' :: v.text) ++ ',' :: verticesText (w :: vs) := by
      simp [verticesText_cons]
    rw [htext, ringIn_comma, ringIn_open p.before v.comma_free, ringIn_vertices]
    rfl

/-- What is left of interior rings. -/
def leftover : List Part → List Vertex
  | [] => []
  | [p] => p.vertices.tail
  | p :: q :: ps => kept p.vertices.tail ++ leftover (q :: ps)

/-- The text of interior rings without the last bracket. -/
def bare : List Part → List Char
  | [] => []
  | [p] => p.unclosed
  | p :: q :: ps => p.text ++ ',' :: bare (q :: ps)

theorem ringIn_bare (p : Part) (ps : List Part) :
    ringIn U D (bare (p :: ps)) = (leftover (p :: ps)).map (Vertex.point D) := by
  induction ps generalizing p with
  | nil => exact ringIn_unclosed p
  | cons q ps ih => rw [bare, ringIn_comma, ringIn_interior, ih, leftover, List.map_append]

/-! ## The text of the polygon -/

theorem Part.text_closes {p : Part} (h : p.closes = true) : p.text = p.unclosed ++ [')'] := by
  obtain ⟨before, ring, after⟩ := p
  simp only [Part.closes, Part.vertices, Bool.and_eq_true, List.isEmpty_iff, Bool.not_eq_true',
    List.isEmpty_eq_false_iff] at h
  cases ring with
  | empty word => exact absurd rfl h.2
  | points v vs => simp [Part.text, Ring.text, Part.unclosed, Part.vertices, Ring.vertices, h.1]

theorem Part.text_opens {p : Part} (h : p.opens = true) :
    ∃ v vs, p.vertices = v :: vs ∧ p.text = '(' :: (verticesText (v :: vs) ++ ')' :: p.after.text) := by
  obtain ⟨before, ring, after⟩ := p
  simp only [Part.opens, Part.vertices, Bool.and_eq_true, List.isEmpty_iff, Bool.not_eq_true',
    List.isEmpty_eq_false_iff] at h
  cases ring with
  | empty word => exact absurd rfl h.2
  | points v vs => exact ⟨v, vs, rfl, by simp [Part.text, Ring.text, h.1]⟩

theorem partsText_cons (p q : Part) (ps : List Part) :
    partsText (p :: q :: ps) = p.text ++ ',' :: partsText (q :: ps) := by
  simp [partsText, commas, List.intercalate_cons_cons]

@[simp] theorem partsText_one (p : Part) : partsText [p] = p.text := by
  simp [partsText, commas]

theorem partsText_bare {p : Part} {ps : List Part} (h : (ps.getLastD p).closes = true) :
    partsText (p :: ps) = bare (p :: ps) ++ [')'] := by
  induction ps generalizing p with
  | nil =>
    rw [partsText_one, bare]
    exact Part.text_closes h
  | cons q ps ih =>
    rw [List.getLastD_cons] at h
    rw [partsText_cons, bare, ih h, List.append_assoc]
    rfl

/-- What the parser takes for a ring. -/
def innerText (exterior : Part) : List Part → List Char
  | [] => verticesText exterior.vertices
  | p :: ps => verticesText exterior.vertices ++ ')' :: (exterior.after.text ++ ',' :: bare (p :: ps))

theorem partsText_inner {exterior : Part} {interior : List Part} (ho : exterior.opens = true)
    (hc : (interior.getLastD exterior).closes = true) :
    partsText (exterior :: interior) = '(' :: (innerText exterior interior ++ [')']) := by
  obtain ⟨v, vs, hv, ht⟩ := Part.text_opens ho
  cases interior with
  | nil =>
    have ha : exterior.after.text = [] := by
      simp only [List.getLastD_nil, Part.closes, Bool.and_eq_true, List.isEmpty_iff] at hc
      exact hc.1
    rw [partsText_one, ht, innerText, hv, ha]
  | cons p ps =>
    rw [List.getLastD_cons] at hc
    rw [partsText_cons, partsText_bare hc, ht, innerText, hv]
    simp

theorem Keyword.length {word : List Char} (k : Keyword word) : k.text.length = word.length := by
  simpa using congrArg List.length k.spells

variable (U) in
theorem upper_word (k : Keyword "POLYGON".toList) : k.text.flatMap U.upper = "POLYGON".toList := by
  have hascii : ∀ c ∈ k.text, U.upper c = [c.toUpper] := fun c hc =>
    U.upper_ascii c (k.ascii (by decide) c hc)
  refine Eq.trans ?_ k.spells
  rw [List.map_eq_flatMap]
  exact List.flatMap_congr hascii

theorem Body.text_ends (b : Body) : ∃ s c, b.text = s ++ [c] ∧ Py.isSpace c = false := by
  cases b with
  | rings exterior interior => exact ⟨'(' :: partsText (exterior :: interior), ')', rfl, rfl⟩
  | empty word =>
    have hne : word.text ≠ [] := by
      rw [← List.length_pos_iff, word.length]
      decide
    exact ⟨_, _, (List.dropLast_append_getLast hne).symm, empty_not_space word _ (List.getLast_mem hne)⟩

theorem strip_polygon (p : Polygon) : strip p.text = p.coreText := by
  have hword : ∀ c ∈ p.word.text, Py.isSpace c = false := p.word.not_space (by decide)
  obtain ⟨c, w, hw⟩ : ∃ c w, p.word.text = c :: w := by
    refine List.exists_cons_of_length_pos ?_
    rw [p.word.length]
    decide
  obtain ⟨s, d, hs, hd⟩ := p.body.text_ends
  have hfirst : Py.isSpace c = false := hword c (by simp [hw])
  refine strip_append p.before.isSpace p.after.isSpace ⟨?_, ?_⟩ ?_
  · simp [Polygon.coreText, Polygon.headText, hw, hfirst]
  · rw [Polygon.coreText, hs, ← List.append_assoc, List.getLast?_concat]
    simpa using hd
  · simp [Polygon.coreText, hs]

variable (U) in
theorem inner_core (p : Polygon) : inner U p.coreText = (do
    let start ← find ['(', '('] p.coreText
    let stop ← rfind [')', ')'] p.coreText
    some ((p.coreText.take stop).drop (start + 2))) := by
  have hword : "POLYGON".toList.isPrefixOf (p.coreText.flatMap U.upper) = true := by
    rw [List.isPrefixOf_iff_prefix, Polygon.coreText, Polygon.headText, List.append_assoc, List.flatMap_append,
      upper_word]
    exact List.prefix_append _ _
  rw [inner, hword]
  rfl

variable (U) in
theorem inner_rings {p : Polygon} {exterior : Part} {interior : List Part}
    (hp : p.body = .rings exterior interior) (ho : exterior.opens = true)
    (hc : (interior.getLastD exterior).closes = true) :
    inner U p.coreText = some (innerText exterior interior) := by
  have hcore : p.coreText = p.headText ++ '(' :: '(' :: (innerText exterior interior ++ [')', ')']) := by
    rw [Polygon.coreText, hp, Body.text, partsText_inner ho hc]
    simp
  have hfind : find ['(', '('] p.coreText = some p.headText.length := by
    rw [hcore]
    exact find_first ['('] _ (p.head_plain (by simp))
  have hcut : p.coreText = (p.headText ++ ['(', '('] ++ innerText exterior interior) ++ [')', ')'] := by
    rw [hcore]
    simp
  have hrfind : rfind [')', ')'] p.coreText =
      some (p.headText ++ ['(', '('] ++ innerText exterior interior).length := by
    rw [hcut]
    exact rfind_last (by simp)
  rw [inner_core, hfind, hrfind]
  simp only [Option.bind_eq_bind, Option.bind_some, Option.some.injEq]
  rw [hcut, List.take_left, List.drop_left' (by simp)]

theorem blank_bracket : ∀ c ∈ blanks, c ≠ '(' ∧ c ≠ ')' := List.all_iff_forall_prop.1 (by decide)

theorem empty_bracket (k : Keyword "EMPTY".toList) : ∀ c ∈ k.text, c ≠ '(' ∧ c ≠ ')' := by
  intro c hc
  constructor <;> rintro rfl
  · exact k.plain (by decide) hc
  · exact k.plain (by decide) hc

theorem Part.text_first {p : Part} (h : p.opens = false) : ∃ c s, p.text = c :: s ∧ c ≠ '(' := by
  obtain ⟨before, ring, after⟩ := p
  cases hb : before.text with
  | cons c g => exact ⟨c, g ++ (ring.text ++ after.text), by simp [Part.text, hb], (blank_bracket c (before.blank c (by simp [hb]))).1⟩
  | nil =>
    cases ring with
    | points v vs => simp [Part.opens, hb, Part.vertices, Ring.vertices] at h
    | empty word =>
      obtain ⟨c, w, hw⟩ : ∃ c w, word.text = c :: w := by
        refine List.exists_cons_of_length_pos ?_
        rw [word.length]
        decide
      exact ⟨c, w ++ after.text, by simp [Part.text, Ring.text, hb, hw], (empty_bracket word c (by simp [hw])).1⟩

theorem Part.text_last {p : Part} (h : p.closes = false) : ∃ s c, p.text = s ++ [c] ∧ c ≠ ')' := by
  obtain ⟨before, ring, after⟩ := p
  cases List.eq_nil_or_concat after.text with
  | inr ha =>
    obtain ⟨g, c, ha⟩ := ha
    exact ⟨before.text ++ (ring.text ++ g), c, by simp [Part.text, ha],
      (blank_bracket c (after.blank c (by simp [ha]))).2⟩
  | inl ha =>
    cases ring with
    | points v vs => simp [Part.closes, ha, Part.vertices, Ring.vertices] at h
    | empty word =>
      obtain ⟨s, c, hs, -⟩ := (Body.empty word).text_ends
      exact ⟨before.text ++ s, c, by simp [Part.text, Ring.text, ha, ← hs, Body.text],
        (empty_bracket word c (by simp [← Body.text.eq_1, hs])).2⟩

/-- No two brackets of a kind are side by side but at the two ends. -/
theorem not_twice_parts (ps : List Part) {c : Char} (hc : c ∈ ['(', ')']) : ¬ [c, c] <:+: partsText ps := by
  have hcomma : ',' ≠ c := by
    rcases List.mem_pair.1 hc with rfl | rfl <;> decide
  refine not_twice_join hcomma fun t ht => ?_
  obtain ⟨p, -, rfl⟩ := List.mem_map.1 ht
  exact not_twice (p.count_bracket hc)

theorem partsText_last (p : Part) (ps : List Part) : ∃ s, partsText (p :: ps) = s ++ (ps.getLastD p).text := by
  induction ps generalizing p with
  | nil => exact ⟨[], by simp⟩
  | cons q ps ih =>
    obtain ⟨s, hs⟩ := ih q
    exact ⟨p.text ++ ',' :: s, by rw [partsText_cons, hs, List.getLastD_cons]; simp⟩

theorem partsText_first (p : Part) (ps : List Part) : ∃ s, partsText (p :: ps) = p.text ++ s := by
  cases ps with
  | nil => exact ⟨[], by simp⟩
  | cons q ps => exact ⟨_, partsText_cons p q ps⟩

theorem head_count (p : Polygon) {c : Char} (hc : c ∈ ['(', ')']) : p.headText.count c = 0 :=
  List.count_eq_zero_of_not_mem (p.head_plain hc)

section
variable {p : Polygon} {exterior : Part} {interior : List Part} (hp : p.body = .rings exterior interior)
include hp

theorem find_none (h : exterior.opens = false) : find ['(', '('] p.coreText = none := by
  obtain ⟨d, s, hs, hd⟩ := Part.text_first h
  obtain ⟨t, ht⟩ := partsText_first exterior interior
  have hcore : p.coreText = (p.headText ++ ['(']) ++ d :: (s ++ t ++ ')' :: []) := by
    rw [Polygon.coreText, hp, Body.text, ht, hs]
    simp
  have hst : ¬ ['(', '('] <:+: s ++ t := by
    intro hin
    refine not_twice_parts (exterior :: interior) (c := '(') (by simp) ?_
    rw [ht, hs]
    exact List.infix_cons_iff.2 (.inr hin)
  rw [find_eq_none (by simp), hcore]
  intro hin
  rcases twice_append hd hin with hin | hin
  · exact not_twice (by simp [head_count]) hin
  · rcases twice_append (by decide) hin with hin | hin
    · exact hst hin
    · simp at hin

theorem rfind_none (h : (interior.getLastD exterior).closes = false) : rfind [')', ')'] p.coreText = none := by
  obtain ⟨s, d, hs, hd⟩ := Part.text_last h
  obtain ⟨t, ht⟩ := partsText_last exterior interior
  have hcore : p.coreText = p.headText ++ '(' :: (t ++ s ++ d :: [')']) := by
    rw [Polygon.coreText, hp, Body.text, ht, hs]
    simp
  have hts : ¬ [')', ')'] <:+: t ++ s := by
    intro hin
    refine not_twice_parts (exterior :: interior) (c := ')') (by simp) ?_
    rw [ht, hs, ← List.append_assoc]
    exact hin.trans (List.prefix_append _ _).isInfix
  rw [rfind_eq_none (by simp), hcore]
  intro hin
  rcases twice_append (by decide) hin with hin | hin
  · exact not_twice (by simp [head_count]) hin
  · rcases twice_append hd hin with hin | hin
    · exact hts hin
    · exact not_twice (by simp) hin

end

variable (U) in
theorem inner_none {p : Polygon} (h : ∀ exterior interior, p.body = .rings exterior interior →
    exterior.opens = false ∨ (interior.getLastD exterior).closes = false) : inner U p.coreText = none := by
  rw [inner_core]
  cases hp : p.body with
  | empty word =>
    have hword : '(' ∉ word.text := word.plain (by decide)
    have hfind : find ['(', '('] p.coreText = none := by
      rw [find_eq_none (by simp)]
      refine not_twice ?_
      simp [Polygon.coreText, hp, Body.text, head_count, List.count_eq_zero_of_not_mem hword]
    rw [hfind]
    rfl
  | rings exterior interior =>
    rcases h exterior interior hp with h | h
    · rw [find_none hp h]
      rfl
    · rw [rfind_none hp h]
      cases find ['(', '('] p.coreText <;> rfl

/-! ## What is read -/

variable (U D) in
theorem ringOf_simple {p : Polygon} {exterior : Part} (hp : p.body = .rings exterior [])
    (ho : exterior.opens = true) (hc : exterior.closes = true) :
    ringOf U D p.coreText = exterior.vertices.map (Vertex.point D) := by
  obtain ⟨v, vs, hv, -⟩ := Part.text_opens ho
  rw [ringOf, inner_rings U hp ho hc, Option.elim_some, innerText, hv, ringIn_vertices]

variable (U D) in
/-- With interior rings, the vertices that are no part of a bracket. -/
theorem ringOf_rings {p : Polygon} {exterior q : Part} {qs : List Part} (hp : p.body = .rings exterior (q :: qs))
    (ho : exterior.opens = true) (hc : (qs.getLastD q).closes = true) :
    ringOf U D p.coreText = (kept exterior.vertices ++ leftover (q :: qs)).map (Vertex.point D) := by
  obtain ⟨v, vs, hv, -⟩ := Part.text_opens ho
  have happend : verticesText (v :: vs) ++ ')' :: (exterior.after.text ++ ',' :: bare (q :: qs)) =
      (verticesText (v :: vs) ++ ')' :: exterior.after.text) ++ ',' :: bare (q :: qs) := by simp
  rw [ringOf, inner_rings U hp ho (by rwa [List.getLastD_cons]), Option.elim_some, innerText, hv, happend,
    ringIn_comma, ringIn_kept, ringIn_bare, List.map_append]

theorem kept_concat (vs : List Vertex) (v : Vertex) : kept (vs ++ [v]) = vs ++ if v.touches then [] else [v] := by
  induction vs with
  | nil => rfl
  | cons w vs ih =>
    cases vs with
    | nil => rw [List.cons_append, List.nil_append, kept, kept]; rfl
    | cons x vs => rw [List.cons_append, List.cons_append, kept, ← List.cons_append, ih]; rfl

/-! ## When it is right -/

variable (D) in
/-- The exterior ring, or nothing. -/
def RightOrNothing (p : Polygon) (ring : List (F × F)) : Prop :=
  ring = p.exterior.map (Vertex.point D) ∨ ring = []

variable (D) in
/-- When there are interior rings, and no space between the brackets at the ends:
the interior rings leave no vertex, and the exterior one all of them, or its only
one is lost; or what they leave makes up for the last that it loses. -/
def Polygon.Safe (p : Polygon) : Prop :=
  ∀ exterior q qs, p.body = .rings exterior (q :: qs) → exterior.opens = true → (qs.getLastD q).closes = true →
    ∃ vs v, exterior.vertices = vs ++ [v] ∧
      (leftover (q :: qs) = [] ∧ (v.touches = true → vs = []) ∨
        v.touches = true ∧ (leftover (q :: qs)).map (Vertex.point D) = [v.point D])

variable (D) in
theorem kept_right {vs left : List Vertex} {v : Vertex} :
    (kept (vs ++ [v]) ++ left).map (Vertex.point D) = (vs ++ [v]).map (Vertex.point D) ∨
        (kept (vs ++ [v]) ++ left).map (Vertex.point D) = [] ↔
      left = [] ∧ (v.touches = true → vs = []) ∨ v.touches = true ∧ left.map (Vertex.point D) = [v.point D] := by
  rw [kept_concat]
  cases v.touches
  · simp
  · simp only [if_true, List.append_nil, List.map_append, List.append_cancel_left_eq, List.map_cons, List.map_nil,
      List.append_eq_nil_iff, List.map_eq_nil_iff, true_imp_iff, true_and]
    tauto

theorem ringOf_none {p : Polygon} (h : ∀ exterior interior, p.body = .rings exterior interior →
    exterior.opens = false ∨ (interior.getLastD exterior).closes = false) : ringOf U D p.coreText = [] := by
  rw [ringOf, inner_none U h]
  rfl

theorem ringOf_right (p : Polygon) : RightOrNothing D p (ringOf U D p.coreText) ↔ p.Safe D := by
  by_cases h : ∃ exterior interior, p.body = .rings exterior interior ∧ exterior.opens = true ∧
      (interior.getLastD exterior).closes = true
  · obtain ⟨exterior, interior, hp, ho, hc⟩ := h
    have hext : p.exterior = exterior.vertices := by rw [Polygon.exterior, hp]
    cases interior with
    | nil =>
      refine iff_of_true (.inl ?_) fun _ _ _ h' => by simp [hp] at h'
      rw [ringOf_simple U D hp ho hc, hext]
    | cons q qs =>
      rw [List.getLastD_cons] at hc
      obtain ⟨v, vs, hv, -⟩ := Part.text_opens ho
      obtain ⟨init, last, hlast⟩ := List.eq_nil_or_concat (v :: vs) |>.resolve_left (List.cons_ne_nil v vs)
      rw [List.concat_eq_append] at hlast
      rw [RightOrNothing, ringOf_rings U D hp ho hc, hext, hv, hlast, kept_right]
      constructor
      · intro hr exterior' q' qs' hp' _ _
        rw [hp] at hp'
        cases hp'
        exact ⟨init, last, hv.trans hlast, hr⟩
      · intro hs
        obtain ⟨init', last', heq, hr⟩ := hs exterior q qs hp ho hc
        rw [hv, hlast] at heq
        obtain ⟨rfl, hlast'⟩ := List.append_inj' heq rfl
        cases hlast'
        exact hr
  · refine iff_of_true (.inr (ringOf_none fun exterior interior hp => ?_)) fun exterior q qs hp ho hc => ?_
    · by_contra hn
      rw [not_or, Bool.not_eq_false, Bool.not_eq_false] at hn
      exact h ⟨exterior, interior, hp, hn⟩
    · exact absurd ⟨exterior, q :: qs, hp, ho, by rwa [List.getLastD_cons]⟩ h

variable (U D) in
/-- Of the sink's parser and the backend's. -/
theorem right_iff (p : Polygon) :
    (RightOrNothing D p (Proximity.parseWktPolygon U D (some p.text)) ∧
      ∃ ring, WhatIf.parseWktPolygon U D (some p.text) = .ok ring ∧ RightOrNothing D p ring) ↔ p.Safe D := by
  have hsink : Proximity.parseWktPolygon U D (some p.text) = ringOf U D p.coreText := by
    rw [Proximity.parseWktPolygon, Option.getD_some, strip_polygon]
  have hbackend : WhatIf.parseWktPolygon U D (some p.text) = .ok (ringOf U D p.coreText) := by
    rw [WhatIf.parseWktPolygon, strip_polygon]
  rw [hsink, hbackend, ringOf_right]
  constructor
  · exact And.left
  · exact fun h => ⟨h, _, rfl, (ringOf_right p).2 h⟩

end

/-! ## A polygon with a hole -/

def gapNone : Gap := ⟨[], fun _ h => absurd h List.not_mem_nil⟩

theorem space_blank : ∀ c ∈ [' '], c ∈ blanks := List.all_iff_forall_prop.1 (by decide)

def digitNumeral (d : Fin 10) : Numeral := ⟨none, [d], none, none, .inl (List.cons_ne_nil d [])⟩

def corner (x y : Fin 10) : Vertex where
  before := gapNone
  x := digitNumeral x
  y := ⟨⟨[' '], space_blank⟩, digitNumeral y, List.cons_ne_nil _ _⟩
  others := []
  after := gapNone

theorem polygon_spells : "POLYGON".toList.map Char.toUpper = "POLYGON".toList := by decide

theorem tag_none : [].map Char.toUpper ∈ [[], ['Z'], ['M'], ['Z', 'M']] := List.mem_cons_self

def square : Part :=
  ⟨gapNone, .points (corner 0 0) [corner 4 0, corner 4 4, corner 0 4, corner 0 0], gapNone⟩

def hole : Part := ⟨gapNone, .points (corner 1 1) [corner 2 1, corner 2 2, corner 1 1], gapNone⟩

def holed : Polygon where
  before := gapNone
  word := ⟨"POLYGON".toList, polygon_spells⟩
  tagGap := gapNone
  tag := []
  tag_mem := tag_none
  gap := gapNone
  body := .rings square [hole]
  after := gapNone

theorem holed_merged :
    holed.text = "POLYGON((0 0,4 0,4 4,0 4,0 0),(1 1,2 1,2 2,1 1))".toList ∧
      ¬ RightOrNothing Doubles.literal holed
        (Proximity.parseWktPolygon Unicode.ascii Doubles.literal (some holed.text)) := by
  have hring : Proximity.parseWktPolygon Unicode.ascii Doubles.literal (some holed.text) =
      [corner 0 0, corner 4 0, corner 4 4, corner 0 4, corner 2 1, corner 2 2, corner 1 1].map
        (Vertex.point Doubles.literal) := by
    rw [Proximity.parseWktPolygon, Option.getD_some, strip_polygon]
    have hbody : holed.body = .rings square [hole] := rfl
    exact ringOf_rings Unicode.ascii Doubles.literal hbody rfl rfl
  refine ⟨by decide, ?_⟩
  rw [hring]
  rintro (h | h)
  · exact absurd (congrArg List.length h) (by decide)
  · cases h

end Wkt

end HtapStack
