import HtapStack.Compare.NdJson
import HtapStack.Lib.Lines
/-!
# The lines of a comparison, read

`postNdjson` of `frontend/src/lib/api.ts` reads the reply in chunks, holds over what
follows the last newline, and calls `onLine` with what each line parses to. The
`TextDecoder` is a parameter: text is decoded alike however the bytes are divided,
and ASCII is decoded as it is.

`postNdjson_lines`: of standard values encoded by `_ndjson`, `onLine` gets each once
and in order, with numbers as doubles. `large_int_rounded` is one that no double holds.
-/

namespace HtapStack.PostNdjson
open Py NdJson
open Js (Json Units)

/-- `decoder.decode(bytes, { stream })`. -/
structure TextDecoder (S : Type) where
  start : S
  decode : S → List UInt8 → Bool → List Char × S

structure Response (N : Type) where
  ok : Bool
  status : Nat
  statusText : Units
  /-- What `response.json()` would parse to. -/
  payload : Option (Json N)
  body : Option (List (List UInt8))

inductive Failure where
  | error (message : Units)
  | syntaxError

/-- What `onLine` has been called with, and what was thrown. -/
structure Outcome (N : Type) where
  calls : List (Json N)
  thrown : Option Failure

variable {N S F : Type}

def Outcome.andThen (r next : Outcome N) : Outcome N :=
  if r.thrown.isSome then r else ⟨r.calls ++ next.calls, next.thrown⟩

/-- `if (line.trim()) onLine(JSON.parse(line))`, for each line. -/
def eachLine (num : Literal → N) : List (List Char) → Outcome N
  | [] => ⟨[], none⟩
  | line :: lines =>
    if (Js.trim line).isEmpty then eachLine num lines
    else
      match Json.parse num line with
      | some x => Outcome.andThen ⟨[x], none⟩ (eachLine num lines)
      | none => ⟨[], some .syntaxError⟩

/-- The loop over the chunks that are still to be read. -/
def readChunks (d : TextDecoder S) (num : Literal → N) (s : S) (held : List Char) : List (List UInt8) → Outcome N
  | [] =>
    let lines := (held ++ (d.decode s [] false).1).splitOn '\n'
    (eachLine num lines.dropLast).andThen (eachLine num [lines.getLast?.getD []])
  | value :: chunks =>
    let lines := (held ++ (d.decode s value true).1).splitOn '\n'
    (eachLine num lines.dropLast).andThen
      (readChunks d num (d.decode s value true).2 (lines.getLast?.getD []) chunks)

def detailOf (stringify : Json N → Units) : Json N → Option Units
  | .obj es =>
    match es.lookup (Json.units "detail".toList) with
    | some (.str detail) => some detail
    | some (.arr (first :: _)) => some (stringify first)
    | _ => none
  | _ => none

def postNdjson (d : TextDecoder S) (num : Literal → N) (stringify : Json N → Units) (response : Response N) :
    Outcome N :=
  if response.ok then
    match response.body with
    | some chunks => readChunks d num d.start [] chunks
    | none => ⟨[], some (.error (Json.units "The browser gave no response body to read".toList))⟩
  else
    let status := Json.units (Nat.repr response.status ++ " ").toList ++ response.statusText
    ⟨[], some (.error ((response.payload.bind (detailOf stringify)).getD status))⟩

/-! ## The decoder -/

/-- What the decoder gives for each chunk, and at the end. -/
def TextDecoder.outputs (d : TextDecoder S) (s : S) : List (List UInt8) → List (List Char)
  | [] => [(d.decode s [] false).1]
  | chunk :: chunks => (d.decode s chunk true).1 :: d.outputs (d.decode s chunk true).2 chunks

structure TextDecoder.Lawful (d : TextDecoder S) : Prop where
  chunked : ∀ chunks, (d.outputs d.start chunks).flatten = (d.decode d.start chunks.flatten false).1
  ascii : ∀ s, (∀ c ∈ s, c.toNat < 0x80) → (d.decode d.start (encode s) false).1 = s

/-! ## What is called -/

section
variable {num : Literal → N}

theorem Outcome.andThen_assoc (a b c : Outcome N) : (a.andThen b).andThen c = a.andThen (b.andThen c) := by
  obtain ⟨calls, thrown⟩ := a
  cases thrown with
  | some e => rfl
  | none =>
    obtain ⟨calls', thrown'⟩ := b
    cases thrown' <;> simp [Outcome.andThen]

theorem eachLine_append (xs ys : List (List Char)) :
    eachLine num (xs ++ ys) = (eachLine num xs).andThen (eachLine num ys) := by
  induction xs with
  | nil => simp [eachLine, Outcome.andThen]
  | cons x xs ih =>
    rw [List.cons_append, eachLine, eachLine]
    split
    · exact ih
    · cases Json.parse num x with
      | none => rfl
      | some j => rw [ih, Outcome.andThen_assoc]

theorem readChunks_eq (d : TextDecoder S) (s : S) (held : List Char) (chunks : List (List UInt8)) :
    readChunks d num s held chunks = eachLine num (Lines.parts '\n' held (d.outputs s chunks)) := by
  induction chunks generalizing s held with
  | nil => exact (eachLine_append ..).symm
  | cons chunk chunks ih =>
    rw [readChunks, TextDecoder.outputs, Lines.parts, eachLine_append, ← ih]
    rfl

/-- The lines are those of the whole text. -/
theorem readChunks_text {d : TextDecoder S} (hd : d.Lawful) {chunks : List (List UInt8)} {t : List Char}
    (ht : ∀ c ∈ t, c.toNat < 0x80) (h : chunks.flatten = encode t) :
    readChunks d num d.start [] chunks = eachLine num (t.splitOn '\n') := by
  rw [readChunks_eq, Lines.parts_eq, hd.chunked, h, hd.ascii t ht]

theorem Outcome.andThen_nothing (r : Outcome N) : r.andThen ⟨[], none⟩ = r := by
  obtain ⟨calls, thrown⟩ := r
  cases thrown <;> simp [Outcome.andThen]

/-- A final newline makes no difference. -/
theorem eachLine_final (t : List Char) : eachLine num ((t ++ ['\n']).splitOn '\n') = eachLine num (t.splitOn '\n') := by
  rw [List.splitOn_append_cons_self, List.splitOn_nil, eachLine_append]
  exact Outcome.andThen_nothing _

end

/-! ## What is written -/

/-- The text of the lines. -/
def text (ts : List (List Char)) : List Char := ts.flatMap (· ++ ['\n'])

section
variable {D : FloatReprs F} {n : Nat} {v : Obj F} {vs : List (Obj F)} {t : List Char} {ts : List (List Char)}

theorem trim_ne_nil {s : List Char} {c : Char} (h : c ∈ s) (hc : Js.isSpace c = false) : Js.trim s ≠ [] := by
  intro hnil
  have hall := List.rdropWhile_eq_nil_iff.1 hnil
  obtain hdrop | hmem : c ∈ s.takeWhile Js.isSpace ∨ c ∈ s.dropWhile Js.isSpace := by
    rw [← List.mem_append, List.takeWhile_append_dropWhile]
    exact h
  · simp [List.mem_takeWhile_imp hdrop] at hc
  · simp [hall c hmem] at hc

theorem isSpace_of_printable {c : Char} (h : 0x20 < c.toNat ∧ c.toNat < 0x7f) : Js.isSpace c = false := by
  simp only [Js.isSpace]
  grind

theorem trim_dumps {o : Options} (h : dumps D o n v = .ok t) : Js.trim t ≠ [] := by
  obtain ⟨c, u, rfl, hspace, -⟩ := (value_dumps id h).1
  have hprintable := printable_dumps h c List.mem_cons_self
  have hne : c.toNat ≠ 0x20 := by
    intro hc
    obtain rfl : c = ' ' := Char.ext (UInt32.toNat_inj.1 hc)
    cases hspace
  exact trim_ne_nil List.mem_cons_self (isSpace_of_printable (by omega))

/-- A line of a standard value is a call with that value. -/
theorem eachLine_dumps (hv : v.Standard D) (h : dumps D ⟨true, true⟩ n v = .ok t) (lines : List (List Char)) :
    eachLine D.nearest (t :: lines) = Outcome.andThen ⟨[v.toJson D], none⟩ (eachLine D.nearest lines) := by
  have hparse : Json.parse D.nearest t = some (v.toJson D) := by
    rw [parse_dumps h]
    exact jsonOf_standard hv ((isSome_jsonOf D.nearest (dumps_length h le_rfl)).2 fun x hx => hv.finite hx)
  have htrim : ¬ (Js.trim t).isEmpty = true := by simpa using trim_dumps h
  rw [eachLine, if_neg htrim, hparse]

theorem eachLine_text (hvs : ∀ v ∈ vs, v.Standard D)
    (h : List.Forall₂ (fun v t => dumps D ⟨true, true⟩ n v = .ok t) vs ts) :
    eachLine D.nearest ((text ts).splitOn '\n') = ⟨vs.map (·.toJson D), none⟩ := by
  induction h with
  | nil => rfl
  | @cons v t vs ts ht _ ih =>
    obtain ⟨hv, hvs⟩ := List.forall_mem_cons.1 hvs
    have htext : text (t :: ts) = t ++ '\n' :: text ts := by simp [text]
    rw [htext, List.splitOn_append_cons_self_of_not_mem (newline_not_mem ht), eachLine_dumps hv ht, ih hvs]
    rfl

theorem text_ascii (h : List.Forall₂ (fun v t => dumps D ⟨true, true⟩ n v = .ok t) vs ts) :
    ∀ c ∈ text ts, c.toNat < 0x80 := by
  intro c hc
  obtain ⟨t, ht, hc⟩ := List.mem_flatMap.1 hc
  obtain ⟨v, -, hv⟩ := mem_of_forall₂ h ht
  rcases List.mem_append.1 hc with hc | hc
  · exact (printable_dumps hv c hc).2.trans (by decide)
  · obtain rfl := List.mem_singleton.1 hc
    decide

theorem text_final (h : ts ≠ []) : ∃ t, text ts = t ++ ['\n'] := by
  have htext := List.dropLast_concat_getLast h
  refine ⟨text ts.dropLast ++ ts.getLast h, ?_⟩
  conv_lhs => rw [← htext]
  simp [text]

/-- The lines of values are the text of what they are dumped to. -/
theorem lines_text {ls : List (List UInt8)} (h : vs.mapM (ndjson D n) = .ok ls) :
    ∃ ts, List.Forall₂ (fun v t => dumps D ⟨true, true⟩ n v = .ok t) vs ts ∧ ls.flatten = encode (text ts) := by
  have hlines := mapM_forall₂ h
  clear h
  induction hlines with
  | nil => exact ⟨[], .nil, rfl⟩
  | @cons v line vs ls hv _ ih =>
    obtain ⟨ts, hts, htext⟩ := ih
    obtain ⟨t, ht, rfl⟩ := ndjson_eq_ok.1 hv
    refine ⟨t :: ts, .cons ht hts, ?_⟩
    rw [List.flatten_cons, htext]
    simp [text, encode]

end

/-- However the bytes are divided, and with or without the last newline, `onLine` gets each value once and in order. -/
theorem postNdjson_lines {d : TextDecoder S} (hd : d.Lawful) (D : FloatReprs F) (n : Nat) (stringify : Json F → Units)
    {vs : List (Obj F)} (hvs : ∀ v ∈ vs, v.Standard D) {ls : List (List UInt8)} (hls : vs.mapM (ndjson D n) = .ok ls)
    {chunks : List (List UInt8)} (h : chunks.flatten = ls.flatten ∨ chunks.flatten ++ encode ['\n'] = ls.flatten)
    {response : Response F} (hok : response.ok = true) (hbody : response.body = some chunks) :
    postNdjson d D.nearest stringify response = ⟨vs.map (·.toJson D), none⟩ := by
  obtain ⟨ts, hts, htext⟩ := lines_text hls
  have hascii := text_ascii hts
  have hcalls := eachLine_text hvs hts
  rw [postNdjson, if_pos hok, hbody]
  rw [htext] at h
  rcases h with h | h
  · exact (readChunks_text hd hascii h).trans hcalls
  · obtain ⟨t, ht⟩ : ∃ t, text ts = t ++ ['\n'] := by
      refine text_final fun hnil => ?_
      rw [hnil] at h
      exact absurd (List.append_eq_nil_iff.1 h).2 (by decide)
    rw [ht] at h hascii hcalls
    have hbytes : chunks.flatten = encode t := by
      refine (List.append_left_inj (encode ['\n'])).1 (h.trans ?_)
      simp [encode]
    rw [eachLine_final] at hcalls
    exact (readChunks_text hd (fun c hc => hascii c (List.mem_append_left _ hc)) hbytes).trans hcalls

/-! ## Reading ASCII -/

/-- What the decoder is on ASCII; other bytes stand for the replacement character here. -/
def asciiDecoder : TextDecoder Unit where
  start := ()
  decode _ bytes _ := (bytes.map fun b => if b < 0x80 then Char.ofNat b.toNat else '\ufffd', ())

theorem asciiDecoder_encode {c : Char} (h : c.toNat < 0x80) :
    (String.utf8EncodeChar c).map (fun b => if b < 0x80 then Char.ofNat b.toNat else '\ufffd') = [c] := by
  have hbyte : (UInt8.ofNat c.toNat).toNat = c.toNat := UInt8.toNat_ofNat_of_lt' (h.trans (by decide))
  have hsmall : UInt8.ofNat c.toNat < 0x80 := by
    rw [UInt8.lt_iff_toNat_lt, hbyte]
    exact h
  have hbytes : String.utf8EncodeChar c = [UInt8.ofNat c.toNat] := by
    have hle : c.val.toNat ≤ 0x7f := Nat.le_of_lt_succ h
    simp only [String.utf8EncodeChar, if_pos hle]
    rfl
  rw [hbytes, List.map_singleton, if_pos hsmall, hbyte, Char.ofNat_toNat]

theorem asciiDecoder_lawful : asciiDecoder.Lawful where
  chunked chunks := by
    change _ = chunks.flatten.map _
    induction chunks with
    | nil => rfl
    | cons chunk chunks ih =>
      rw [TextDecoder.outputs, List.flatten_cons, ih, List.flatten_cons, List.map_append]
      rfl
  ascii s hs := by
    change (encode s).map _ = s
    induction s with
    | nil => rfl
    | cons c s ih =>
      obtain ⟨hc, hs⟩ := List.forall_mem_cons.1 hs
      rw [encode, List.flatMap_cons, List.map_append, asciiDecoder_encode hc]
      exact congrArg (c :: ·) (ih hs)

def received (chunks : List (List UInt8)) : Outcome Binary64 :=
  postNdjson asciiDecoder binary64.nearest (fun _ => []) ⟨true, 200, [], none, some chunks⟩

def twoValues : List (Obj Binary64) := [.dict [(.str ['a'], .str ['\n'])], .dict []]

/-- Two lines, cut within the first and before the newline that ends it. -/
theorem postNdjson_two :
    received [encode "\x7b\"a".toList, encode "\": \"\\n\"\x7d".toList, encode "\n\x7b\x7d".toList] =
      ⟨twoValues.map (·.toJson binary64), none⟩ := by
  have hstandard : ∀ v ∈ twoValues, v.Standard binary64 := by
    intro v hv
    simp only [twoValues, List.mem_cons, List.not_mem_nil, or_false] at hv
    rcases hv with rfl | rfl
    · refine @Obj.Standard.dict _ _ [(['a'], .str ['\n'])] (by decide) fun e he => ?_
      obtain rfl := List.mem_singleton.1 he
      exact .str _
    · exact @Obj.Standard.dict _ _ [] (by decide) fun e he => nomatch he
  have hlines : twoValues.mapM (ndjson binary64 3) =
      .ok [encode "\x7b\"a\": \"\\n\"\x7d\n".toList, encode "\x7b\x7d\n".toList] := rfl
  exact postNdjson_lines asciiDecoder_lawful binary64 3 (fun _ => []) hstandard hlines (.inr rfl) rfl rfl

/-! ## An integer that no double holds -/

def intValue (i : Int) : Obj Binary64 := .dict [(.str ['a'], .int i)]

theorem rounded_large : (binary64.nearest (.finite false (2 ^ 53 + 1))).val = .finite false (2 ^ 53) := by
  decide +kernel

theorem intValue_written : Returns (dumps binary64 ⟨true, true⟩ 2 (intValue (2 ^ 53 + 1))) := by
  have hint : Returns (intText (2 ^ 53 + 1)) := returns_intText (by decide)
  simpa [intValue] using hint

theorem intValue_standard (i : Int) : ∀ v ∈ [intValue i], v.Standard binary64 := by
  intro v hv
  obtain rfl := List.mem_singleton.1 hv
  refine @Obj.Standard.dict _ _ [(['a'], .int i)] (List.nodup_singleton _) fun e he => ?_
  obtain rfl := List.mem_singleton.1 he
  exact .int _

/-- Of 2 ^ 53 + 1 the page is given 2 ^ 53. -/
theorem large_int_rounded : ¬ ∀ (i : Int) (ls : List (List UInt8)), [intValue i].mapM (ndjson binary64 2) = .ok ls →
    ∃ x : Binary64, x.val = .finite (decide (i < 0)) i.natAbs ∧
      received ls = ⟨[.obj [(Json.units ['a'], .num x)]], none⟩ := by
  intro h
  obtain ⟨t, ht⟩ := intValue_written
  have hline : ndjson binary64 2 (intValue (2 ^ 53 + 1)) = .ok (encode (t ++ ['\n'])) := ndjson_eq_ok.2 ⟨t, ht, rfl⟩
  obtain ⟨x, hx, hreceived⟩ := h (2 ^ 53 + 1) [encode (t ++ ['\n'])] (by rw [List.mapM_cons, hline]; rfl)
  have hts : List.Forall₂ (fun v t => dumps binary64 ⟨true, true⟩ 2 v = .ok t) [intValue (2 ^ 53 + 1)] [t] :=
    .cons ht .nil
  have hcalls : received [encode (t ++ ['\n'])] = ⟨[(intValue (2 ^ 53 + 1)).toJson binary64], none⟩ :=
    (readChunks_text asciiDecoder_lawful (text_ascii hts) (by simp [text])).trans (eachLine_text (intValue_standard _) hts)
  rw [hreceived, intValue, Obj.toJson] at hcalls
  simp only [Outcome.mk.injEq, List.cons.injEq, List.map_cons, List.map_nil, Json.obj.injEq, Prod.mk.injEq, Obj.toJson,
    Json.num.injEq, and_true] at hcalls
  obtain ⟨-, rfl⟩ := hcalls
  have hliteral : Literal.finite (decide ((2 ^ 53 + 1 : Int) < 0)) ((2 ^ 53 + 1 : Int).natAbs : ℚ) =
      .finite false (2 ^ 53 + 1) := by norm_num
  rw [hliteral, rounded_large] at hx
  norm_num at hx

end HtapStack.PostNdjson
