import HtapStack.Lib.JsText
import HtapStack.Zones.Wkt
/-!
# The polygon that the map draws

`parseWktPolygon` of `frontend/src/pages/Map.tsx` beside the sink's parser.

`samePolygon`: on what both read alike they find the same ring, and a text of the
grammar for which they do is read alike. What they do not read alike: a ring with
a line break in it, and pairs that `float` takes and `Number` does not, or only
some of whose numbers are finite.
-/

namespace HtapStack
open Py Wkt

namespace MapPage
variable {F : Type} (D : Doubles F)

/-- What a pair adds to the polygon, in the order of the map. -/
def latLng (pair : List Char) : Option (F × F) :=
  let coords := (Js.splitSpaces (Js.trim pair)).map (Js.number D)
  if 2 ≤ coords.length ∧ coords.all D.isFinite then
    match coords with
    | lon :: lat :: _ => some (lat, lon)
    | _ => none
  else none

def parseWktPolygon (wkt : List Char) : List (F × F) :=
  match Js.bracketed wkt with
  | some ring => (ring.splitOn ',').filterMap (latLng D)
  | none => []

end MapPage

namespace Wkt

section
variable {F : Type} (U : Unicode) (D : Doubles F)

/-- Python and the map have the same white space in a pair, and both or neither take
it for a vertex. -/
structure ReadAlike (pair : List Char) : Prop where
  spaces : ∀ c ∈ pair, Py.isSpace c = Js.isSpace c
  numbers : 2 ≤ (split pair).length →
    ((∀ w ∈ (split pair).take 2, (floatLiteral U w).isSome = true) ↔
      ∀ w ∈ split pair, D.isFinite (Js.number D w) = true)

/-- What Python takes for the ring is on one line, no `))` is in it past its first
character, and its pairs are read alike. -/
structure OnMap (wkt : List Char) : Prop where
  line : ∀ s, inner U (strip wkt) = some s → ∀ c ∈ s, Js.isLineEnd c = false
  brackets : ∀ s, inner U (strip wkt) = some s → ¬ [')', ')'] <:+: s.tail ++ [')']
  pairs : ∀ s, inner U (strip wkt) = some s → ∀ pair ∈ s.splitOn ',', ReadAlike U D pair

/-- The backend finds the sink's ring, and the map draws it. -/
def SamePolygon (wkt : List Char) : Prop :=
  WhatIf.parseWktPolygon U D (some wkt) = .ok (Proximity.parseWktPolygon U D (some wkt)) ∧
    MapPage.parseWktPolygon D wkt = (Proximity.parseWktPolygon U D (some wkt)).map Prod.swap

end

/-! ## One pair -/

section
variable {F : Type} {U : Unicode} {D : Doubles F} {pair : List Char}

theorem vertex_pair {lon lat : List Char} {rest : List (List Char)} (h : split pair = lon :: lat :: rest) :
    vertex U D pair = (floatLiteral U lon).bind fun x => (floatLiteral U lat).map fun y => (D.nearest x, D.nearest y) := by
  rw [vertex, h]
  simp only [float]
  cases floatLiteral U lon <;> cases floatLiteral U lat <;> rfl

theorem vertex_short (h : (split pair).length < 2) : vertex U D pair = none := by
  unfold vertex
  split
  · rename_i hs
    rw [hs, List.length_cons, List.length_cons] at h
    omega
  · rfl

variable (hs : ∀ c ∈ pair, Py.isSpace c = Js.isSpace c)
include hs

theorem latLng_pair {lon lat : List Char} {rest : List (List Char)} (h : split pair = lon :: lat :: rest) :
    MapPage.latLng D pair = if ∀ w ∈ split pair, D.isFinite (Js.number D w) = true
      then some (Js.number D lat, Js.number D lon) else none := by
  rw [MapPage.latLng, Js.splitSpaces_trim hs, h]
  simp

theorem latLng_short (h : (split pair).length < 2) : MapPage.latLng D pair = none := by
  rw [MapPage.latLng, Js.splitSpaces_trim hs]
  split
  · simp
  · simp only [List.length_map]
    rw [if_neg (by omega)]

theorem pair_plain {w : List Char} (hw : w ∈ split pair) :
    ∀ c ∈ w, Py.isSpace c = false ∧ Js.isSpace c = false := by
  intro c hc
  obtain ⟨hm, hp⟩ := (mem_of_mem_split hw).2 c hc
  exact ⟨hp, (hs c hm).symm.trans hp⟩

/-- Where both read a vertex they read the same one. -/
theorem latLng_vertex {v q : F × F} (hv : vertex U D pair = some v) (hq : MapPage.latLng D pair = some q) :
    q = v.swap := by
  match h : split pair with
  | [] | [_] =>
    rw [vertex_short (by simp [h])] at hv
    cases hv
  | lon :: lat :: rest =>
    rw [vertex_pair h] at hv
    rw [latLng_pair hs h] at hq
    obtain ⟨x, hx, hv⟩ := Option.bind_eq_some_iff.1 hv
    obtain ⟨y, hy, rfl⟩ := Option.map_eq_some_iff.1 hv
    split at hq
    · rename_i hf
      have hnum {w : List Char} {l : Literal} (hw : w ∈ split pair) (hl : floatLiteral U w = some l) :
          Js.number D w = D.nearest l := by
        rw [Js.number, Js.number_float (pair_plain hs hw) hl (hf w hw)]
      cases hq
      rw [hnum (by simp [h]) hx, hnum (by simp [h]) hy]
      rfl
    · cases hq

theorem readAlike_iff :
    ReadAlike U D pair ↔ ((vertex U D pair).isSome = true ↔ (MapPage.latLng D pair).isSome = true) := by
  match h : split pair with
  | [] | [_] =>
    have hlen : (split pair).length < 2 := by simp [h]
    rw [vertex_short hlen, latLng_short hs hlen]
    exact iff_of_true ⟨hs, fun hn => absurd hn (by omega)⟩ Iff.rfl
  | lon :: lat :: rest =>
    have hv : (vertex U D pair).isSome = true ↔ ∀ w ∈ (split pair).take 2, (floatLiteral U w).isSome = true := by
      rw [vertex_pair h, h]
      cases hx : floatLiteral U lon <;> cases hy : floatLiteral U lat <;> simp [hx, hy]
    have hq : (MapPage.latLng D pair).isSome = true ↔ ∀ w ∈ split pair, D.isFinite (Js.number D w) = true := by
      rw [latLng_pair hs h]
      split <;> simp_all
    rw [hv, hq]
    exact ⟨fun ha => ha.numbers (by simp [h]), fun hn => ⟨hs, fun _ => hn⟩⟩

omit hs in
theorem ReadAlike.latLng (ha : ReadAlike U D pair) :
    MapPage.latLng D pair = (vertex U D pair).map Prod.swap := by
  have hiff := (readAlike_iff ha.spaces).1 ha
  cases hv : vertex U D pair with
  | none =>
    rw [hv] at hiff
    simpa using hiff
  | some v =>
    rw [hv] at hiff
    obtain ⟨q, hq⟩ := Option.isSome_iff_exists.1 (hiff.1 rfl)
    rw [hq, latLng_vertex ha.spaces hv hq]
    rfl

end

/-! ## What is between the brackets -/

section
variable {F : Type} {U : Unicode} {D : Doubles F} {wkt s : List Char}

theorem inner_spec {text : List Char} (h : inner U text = some s) (hne : s ≠ []) :
    ∃ n rest, find ['(', '('] text = some n ∧ text.drop (n + 2) = s ++ ')' :: ')' :: rest := by
  unfold inner at h
  split at h
  · cases h
  · simp only [Option.bind_eq_bind, Option.bind_eq_some_iff, Option.some.injEq] at h
    obtain ⟨n, hn, stop, hstop, rfl⟩ := h
    obtain ⟨rest, hrest⟩ := rfind_spec hstop
    have hle : n + 2 ≤ (text.take stop).length := by
      by_contra hlt
      exact hne (List.drop_eq_nil_of_le (by omega))
    refine ⟨n, rest, hn, ?_⟩
    conv_lhs => rw [← List.take_append_drop stop text, List.drop_append_of_le_length hle, ← hrest]
    rfl

/-- The map looks where Python's ring begins first. -/
theorem bracketed_inner (h : inner U (strip wkt) = some s) (hne : s ≠ []) :
    ∃ rest later, Js.bracketed wkt = (Js.upToOne (s ++ ')' :: ')' :: rest)).or later := by
  obtain ⟨n, rest, hn, hdrop⟩ := inner_spec h hne
  obtain ⟨a, b, hw, ha, -⟩ := strip_spec wkt
  have hfree : '(' ∉ a := fun hin => absurd (ha _ hin) (by decide)
  obtain ⟨u, hu, hb⟩ := Js.bracketed_find (t := b) hn
  have hus : u = s ++ ')' :: ')' :: rest := by
    rw [← hdrop, ← List.drop_drop, hu]
    rfl
  refine ⟨rest ++ b, Js.bracketed ('(' :: (u ++ b)), ?_⟩
  rw [hw, Js.bracketed_append hfree, hb, hus]
  simp

theorem onMap_bracketed (h : OnMap U D wkt) (hi : inner U (strip wkt) = some s) (hne : s ≠ []) :
    Js.bracketed wkt = some s := by
  obtain ⟨rest, later, hb⟩ := bracketed_inner hi hne
  have hline : s.any Js.isLineEnd = false := by
    rw [List.any_eq_false]
    exact fun c hc => by simp [h.line s hi c hc]
  rw [hb, Js.upToOne_append hne (h.brackets s hi), hline]
  rfl

theorem ringOf_ne_nil {text : List Char} (h : ringOf U D text ≠ []) : ∃ s, inner U text = some s ∧ s ≠ [] := by
  cases hi : inner U text with
  | none => simp [ringOf, hi] at h
  | some s =>
    refine ⟨s, rfl, ?_⟩
    rintro rfl
    rw [ringOf, hi] at h
    exact h rfl

theorem onMap_ring (h : OnMap U D wkt) (hne : ringOf U D (strip wkt) ≠ []) :
    MapPage.parseWktPolygon D wkt = (ringOf U D (strip wkt)).map Prod.swap := by
  obtain ⟨s, hi, hs⟩ := ringOf_ne_nil hne
  rw [MapPage.parseWktPolygon, onMap_bracketed h hi hs, ringOf, hi, Option.elim_some, ringIn, List.map_filterMap]
  exact List.filterMap_congr fun pair hp => (h.pairs s hi pair hp).latLng

end

/-! ## Texts of the grammar -/

theorem wktChars_alike : ∀ c ∈ wktChars, Py.isSpace c = Js.isSpace c ∧ c ∉ radixMarks :=
  List.all_iff_forall_prop.1 (by decide)

/-- Where two readers take elements of a list, and the one no more than the other, then
if they take as many they take the same. -/
theorem isSome_of_filterMap {α β : Type} {f g : α → Option β} {l : List α}
    (hsub : ∀ x ∈ l, (g x).isSome = true → (f x).isSome = true)
    (hlen : (l.filterMap f).length ≤ (l.filterMap g).length) :
    ∀ x ∈ l, ((f x).isSome = true ↔ (g x).isSome = true) := by
  simp only [List.length_filterMap_eq_countP] at hlen
  induction l with
  | nil => simp
  | cons x l ih =>
    obtain ⟨hx, hl⟩ := List.forall_mem_cons.1 hsub
    have hle := List.countP_mono_left hl
    simp only [List.countP_cons] at hlen
    have hhead : (f x).isSome = true → (g x).isSome = true := by
      intro hf
      by_contra hg
      rw [if_pos hf, if_neg hg] at hlen
      omega
    refine List.forall_mem_cons.2 ⟨⟨hhead, hx⟩, ih hl ?_⟩
    by_cases hf : (f x).isSome = true
    · rw [if_pos hf, if_pos (hhead hf)] at hlen
      omega
    · rw [if_neg hf, if_neg (mt hx hf)] at hlen
      omega

section
variable {F : Type} {U : Unicode} {D : Doubles F}

/-- Of the pairs of the grammar, the map takes no more than Python does. -/
theorem vertex_of_latLng {pair : List Char} (hc : ∀ c ∈ pair, c ∈ wktChars)
    (h : (MapPage.latLng D pair).isSome = true) : (vertex U D pair).isSome = true := by
  have hs : ∀ c ∈ pair, Py.isSpace c = Js.isSpace c := fun c hp => (wktChars_alike c (hc c hp)).1
  match ht : split pair with
  | [] | [_] =>
    rw [latLng_short hs (by simp [ht])] at h
    cases h
  | lon :: lat :: rest =>
    rw [latLng_pair hs ht] at h
    split at h
    · rename_i hf
      have hread : ∀ w ∈ split pair, floatLiteral U w = some (Js.numberLiteral w) := by
        intro w hw
        refine Js.floatLiteral_of_number U D (mem_of_mem_split hw).1 (pair_plain hs hw) (fun c hcw => ?_) (hf w hw)
        exact (wktChars_alike c (hc c ((mem_of_mem_split hw).2 c hcw).1)).2
      rw [vertex_pair ht, hread lon (by simp [ht]), hread lat (by simp [ht])]
      rfl
    · cases h

theorem mem_of_mem_splitOn {sep c : Char} {s w : List Char} (hw : w ∈ s.splitOn sep) (hc : c ∈ w) : c ∈ s := by
  rw [List.splitOn_eq_splitOnP] at hw
  induction s generalizing w with
  | nil =>
    rw [List.splitOnP_nil, List.mem_singleton] at hw
    subst hw
    cases hc
  | cons d s ih =>
    rw [List.splitOnP_cons_eq_if_modifyHead] at hw
    obtain ⟨v, vs, hvs⟩ := List.exists_cons_of_ne_nil (List.splitOnP_ne_nil (· == sep) s)
    have hlater {w : List Char} (hw : w ∈ v :: vs) (hc : c ∈ w) : c ∈ d :: s :=
      List.mem_cons_of_mem d (ih (hvs ▸ hw) hc)
    rw [hvs] at hw
    split at hw
    · rcases List.mem_cons.1 hw with rfl | hw
      · cases hc
      · exact hlater hw hc
    · rw [List.modifyHead_cons] at hw
      rcases List.mem_cons.1 hw with rfl | hw
      · rcases List.mem_cons.1 hc with rfl | hc
        · exact List.mem_cons_self
        · exact hlater List.mem_cons_self hc
      · exact hlater (List.mem_cons_of_mem v hw) hc

section
variable {p : Polygon} {exterior : Part} {interior : List Part} (hp : p.body = .rings exterior interior)
  (ho : exterior.opens = true) (hc : (interior.getLastD exterior).closes = true)
include hp ho hc

omit hp in
theorem inner_brackets (hne : innerText exterior interior ≠ []) :
    ¬ [')', ')'] <:+: (innerText exterior interior).tail ++ [')'] := by
  intro hin
  refine not_twice_parts (exterior :: interior) (c := ')') (by simp) (hin.trans ?_)
  obtain ⟨c, t, ht⟩ := List.exists_cons_of_ne_nil hne
  rw [partsText_inner ho hc, ht, List.tail_cons]
  exact List.IsSuffix.isInfix ⟨['(', c], rfl⟩

theorem bracketed_polygon (hne : innerText exterior interior ≠ []) : Js.bracketed p.text =
    if (innerText exterior interior).any Js.isLineEnd then none else some (innerText exterior interior) := by
  have hparts := partsText_inner ho hc
  have hopen : Js.bracketed ('(' :: (innerText exterior interior ++ ')' :: ')' :: p.after.text)) = none := by
    refine Js.bracketed_eq_none fun hin => ?_
    have hcut : '(' :: (innerText exterior interior ++ ')' :: ')' :: p.after.text) =
        partsText (exterior :: interior) ++ ')' :: p.after.text := by
      rw [hparts]
      simp
    rw [hcut] at hin
    rcases twice_append (by decide) hin with hin | hin
    · exact not_twice_parts _ (by simp) hin
    · exact not_twice (by simp [List.count_eq_zero_of_not_mem (p.after.plain (c := '(') (by decide))]) hin
  have htext : p.text = (p.before.text ++ p.headText) ++
      '(' :: '(' :: (innerText exterior interior ++ ')' :: ')' :: p.after.text) := by
    rw [Polygon.text, Polygon.coreText, hp, Body.text, hparts]
    simp
  have hfree : '(' ∉ p.before.text ++ p.headText := by
    simp [p.head_plain (c := '(') (by simp), p.before.plain (c := '(') (by decide)]
  rw [htext, Js.bracketed_append hfree, Js.bracketed_here, Js.upToOne_append hne (inner_brackets ho hc hne), hopen, Option.or_none]

theorem onMap_polygon (hne : innerText exterior interior ≠ []) (hring : ringOf U D p.coreText ≠ [])
    (h : MapPage.parseWktPolygon D p.text = (ringOf U D p.coreText).map Prod.swap) : OnMap U D p.text := by
  have hi : inner U (strip p.text) = some (innerText exterior interior) := by
    rw [strip_polygon, inner_rings U hp ho hc]
  have hinner {s : List Char} (hs : inner U (strip p.text) = some s) : s = innerText exterior interior :=
    Option.some.inj (hs.symm.trans hi)
  have hparts := partsText_inner ho hc
  have hline : (innerText exterior interior).any Js.isLineEnd = false := by
    by_contra hl
    rw [Bool.not_eq_false] at hl
    rw [MapPage.parseWktPolygon, bracketed_polygon hp ho hc hne, hl] at h
    exact hring (List.map_eq_nil_iff.1 h.symm)
  rw [MapPage.parseWktPolygon, bracketed_polygon hp ho hc hne, hline, ringOf, inner_rings U hp ho hc,
    Option.elim_some, ringIn] at h
  have hchars : ∀ pair ∈ (innerText exterior interior).splitOn ',', ∀ c ∈ pair, c ∈ wktChars := by
    intro pair hpair c hcp
    have hin : c ∈ partsText (exterior :: interior) := by
      rw [hparts]
      exact List.mem_cons_of_mem _ (List.mem_append_left _ (mem_of_mem_splitOn hpair hcp))
    exact mem_wktChars hin
  have halike := isSome_of_filterMap (f := vertex U D) (g := MapPage.latLng D)
    (fun pair hpair => vertex_of_latLng (hchars pair hpair)) (by
      have := congrArg List.length h
      rw [List.length_map] at this
      exact this.ge)
  constructor
  case line =>
    intro s hs
    rw [hinner hs]
    simpa using hline
  case brackets =>
    intro s hs
    rw [hinner hs]
    exact inner_brackets ho hc hne
  case pairs =>
    intro s hs pair hpair
    rw [hinner hs] at hpair
    exact (readAlike_iff fun c hcp => (wktChars_alike c (hchars pair hpair c hcp)).1).2 (halike pair hpair)

end

variable (U D) in
/-- Of any text, and both ways of one of the grammar. -/
theorem samePolygon (wkt : List Char) (hring : 3 ≤ (Proximity.parseWktPolygon U D (some wkt)).length) :
    (OnMap U D wkt → SamePolygon U D wkt) ∧ ∀ p : Polygon, wkt = p.text → (SamePolygon U D wkt ↔ OnMap U D wkt) := by
  have hne : ringOf U D (strip wkt) ≠ [] := by
    intro h
    rw [Proximity.parseWktPolygon, Option.getD_some, h] at hring
    simp at hring
  have hsame (h : OnMap U D wkt) : SamePolygon U D wkt := ⟨rfl, onMap_ring h hne⟩
  refine ⟨hsame, ?_⟩
  rintro p rfl
  refine ⟨fun h => ?_, hsame⟩
  rw [strip_polygon] at hne
  obtain ⟨exterior, interior, hp, ho, hc⟩ : ∃ exterior interior, p.body = .rings exterior interior ∧
      exterior.opens = true ∧ (interior.getLastD exterior).closes = true := by
    by_contra hn
    refine hne (ringOf_none fun exterior interior hp => ?_)
    by_contra hn'
    rw [not_or, Bool.not_eq_false, Bool.not_eq_false] at hn'
    exact hn ⟨exterior, interior, hp, hn'⟩
  obtain ⟨s, hi, hs⟩ := ringOf_ne_nil hne
  rw [inner_rings U hp ho hc] at hi
  cases hi
  refine onMap_polygon hp ho hc hs hne (h.2.trans ?_)
  rw [Proximity.parseWktPolygon, Option.getD_some, strip_polygon]

end

/-- A square on one line. -/
theorem samePolygon_square :
    SamePolygon Unicode.ascii Doubles.literal "POLYGON((0 0,4 0,4 4,0 4,0 0))".toList := by
  have hinner : inner Unicode.ascii (strip "POLYGON((0 0,4 0,4 4,0 4,0 0))".toList) =
      some "0 0,4 0,4 4,0 4,0 0".toList := by decide +kernel
  have hpairs : "0 0,4 0,4 4,0 4,0 0".toList.splitOn ',' =
      ["0 0".toList, "4 0".toList, "4 4".toList, "0 4".toList, "0 0".toList] := by decide +kernel
  refine (samePolygon Unicode.ascii Doubles.literal _ (by decide +kernel)).1 ⟨?_, ?_, ?_⟩ <;> rw [hinner] <;>
    rintro s h <;> cases h
  · exact List.all_iff_forall_prop.1 (by decide +kernel)
  · decide +kernel
  · rw [hpairs]
    intro pair hp
    simp only [List.mem_cons, List.not_mem_nil, or_false] at hp
    rcases hp with rfl | rfl | rfl | rfl | rfl <;>
      exact ⟨List.all_iff_forall_prop.1 (by decide +kernel), by decide +kernel⟩

/-- With a line break in the ring alerting has a zone that the map does not draw. -/
theorem broken_not_drawn :
    3 ≤ (Proximity.parseWktPolygon Unicode.ascii Doubles.literal
      (some "POLYGON((0 0,\n4 0,4 4,0 4,0 0))".toList)).length ∧
    ¬ SamePolygon Unicode.ascii Doubles.literal "POLYGON((0 0,\n4 0,4 4,0 4,0 0))".toList := by
  have hring : 3 ≤ (Proximity.parseWktPolygon Unicode.ascii Doubles.literal
      (some "POLYGON((0 0,\n4 0,4 4,0 4,0 0))".toList)).length := by decide +kernel
  have hmap : Js.bracketed "POLYGON((0 0,\n4 0,4 4,0 4,0 0))".toList = none := by decide +kernel
  refine ⟨hring, fun h => ?_⟩
  have hlen := congrArg List.length h.2
  rw [MapPage.parseWktPolygon, hmap, List.length_map] at hlen
  rw [← hlen] at hring
  exact absurd hring (by decide)

end Wkt

end HtapStack
