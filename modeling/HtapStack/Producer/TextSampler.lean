import HtapStack.Lib.Pieces
import HtapStack.Lib.Utf8
/-!
# The text sampler

`TextSampler` of `ingress/producer/producer.py`, which cuts a few sentences out of a
mapped file of any bytes, around a place that a seed gives.

`sampled_sentences`: what is cut out begins after the last boundary that is near
enough before the place, and ends with the last sentence asked for, or as far as is
read ahead. The text has the sentences that the bytes have, is a part of the file's
text up to white space, and has single blanks only.
-/

namespace HtapStack.TextSampler
open Py Utf8

/-- The mapped file, and how far it is scanned back and ahead. -/
structure Sampler where
  mm : List UInt8
  back : Nat := 2048
  fwd : Nat := 4096

/-- `.`, `?` or `!`. -/
def isTerminator (b : UInt8) : Bool := b == 46 || b == 63 || b == 33

/-- One of these or a line's end. -/
def isBoundary (b : UInt8) : Bool := isTerminator b || b == 10

/-- `self._mm[lo:hi]`. -/
def slice (mm : List UInt8) (lo hi : Nat) : List UInt8 := (mm.take hi).drop lo

/-- The loop of `_find_sentence_start`, which goes down from `i`. -/
def lastBoundary (window : List UInt8) : Nat → Option Nat
  | 0 => none
  | i + 1 => if window[i]?.any isBoundary then some i else lastBoundary window i

def findSentenceStart (s : Sampler) (pos : Nat) : Nat :=
  let start := pos - s.back
  let window := slice s.mm start pos
  match lastBoundary window window.length with
  | some i => start + i + 1
  | none => start

/-- The loop of `_take_sentences`, from `i` on, with `found` terminators. -/
def cutAt (nSent i found : Nat) : List UInt8 → Option Nat
  | [] => none
  | c :: window =>
    if isTerminator c then
      if nSent ≤ found + 1 then some (i + 1) else cutAt nSent (i + 1) (found + 1) window
    else cutAt nSent (i + 1) found window

/-- The bytes that `_take_sentences` decodes. -/
def snippet (s : Sampler) (pos nSent : Nat) : List UInt8 :=
  let window := slice s.mm pos (min s.mm.length (pos + s.fwd))
  window.take ((cutAt nSent 0 0 window).getD window.length)

def takeSentences (s : Sampler) (pos nSent : Nat) : List Char := strip (decode (snippet s pos nSent))

/-- `_extract_stable`. -/
def extractStable (s : Sampler) (pos nSent : Nat) : List Char :=
  join [' '] (split (takeSentences s (findSentenceStart s pos) nSent))

/-- What the generator of a seed yields: `integers(1, 4)` and `integers(0, size)`. -/
structure Draw (size : Nat) where
  nSent : Nat
  pos : Nat
  nSent_mem : 1 ≤ nSent ∧ nSent < 4
  pos_lt : pos < size

def sampleStable (s : Sampler) (draw : 32 ≤ s.mm.length → Nat → Draw s.mm.length) (seed : Nat) : List Char :=
  if h : 32 ≤ s.mm.length then extractStable s (draw h seed).pos (draw h seed).nSent else []

/-! ## The scans -/

variable {s : Sampler} {mm window : List UInt8} {i n pos nSent found : Nat}

theorem lastBoundary_eq (h : i ≤ window.length) :
    (lastBoundary window i).elim 0 (· + 1) = ((window.take i).rdropWhile (!isBoundary ·)).length := by
  induction i with
  | zero => rfl
  | succ i ih =>
    have hi : i < window.length := h
    rw [lastBoundary, List.getElem?_eq_getElem hi, Option.any_some, List.take_succ_eq_append_getElem hi,
      List.rdropWhile_concat]
    cases hb : isBoundary window[i] with
    | true => simpa using (Nat.min_eq_left h).symm
    | false => simpa using ih hi.le

/-- The start is after the last boundary of the bytes that are scanned back. -/
theorem findSentenceStart_eq (s : Sampler) (pos : Nat) : findSentenceStart s pos =
    pos - s.back + ((slice s.mm (pos - s.back) pos).rdropWhile (!isBoundary ·)).length := by
  have hlast := lastBoundary_eq (Nat.le_refl (slice s.mm (pos - s.back) pos).length)
  rw [List.take_length] at hlast
  rw [← hlast]
  unfold findSentenceStart
  dsimp only
  split
  · rename_i i hi
    rw [hi]
    exact Nat.add_assoc _ _ _
  · rename_i hnone
    rw [hnone]
    rfl

/-- So many terminators. -/
def endings (bs : List UInt8) : Nat := bs.countP isTerminator

/-- What is cut off: up to the last sentence asked for, or everything. -/
structure Cut (nSent : Nat) (window part : List UInt8) : Prop where
  initial : part <+: window
  sentences : endings part = nSent ∧ part.getLast?.any isTerminator = true ∨ endings part < nSent ∧ part = window

/-- With one more byte before it, which ends a sentence or does not. -/
theorem Cut.cons {c : UInt8} {part : List UInt8} (h : Cut n window part) :
    Cut (n + (if isTerminator c then 1 else 0)) (c :: window) (c :: part) := by
  obtain ⟨hinitial, hsentences⟩ := h
  have hendings : endings (c :: part) = endings part + if isTerminator c then 1 else 0 := List.countP_cons
  refine ⟨List.cons_prefix_cons.2 ⟨rfl, hinitial⟩, ?_⟩
  rw [hendings]
  rcases hsentences with ⟨hcount, hlast⟩ | ⟨hcount, rfl⟩
  · have hne : part ≠ [] := by
      rintro rfl
      cases hlast
    refine .inl ⟨by rw [hcount], ?_⟩
    rw [List.getLast?_cons, List.getLast?_eq_some_getLast hne]
    rwa [List.getLast?_eq_some_getLast hne] at hlast
  · exact .inr ⟨by omega, rfl⟩

theorem cutAt_spec (i : Nat) (window : List UInt8) (h : found < nSent) :
    ∃ k, (cutAt nSent i found window).getD (i + window.length) = i + k ∧ Cut (nSent - found) window (window.take k) := by
  induction window generalizing i found with
  | nil => exact ⟨0, rfl, List.prefix_rfl, .inr ⟨by simp [endings]; omega, rfl⟩⟩
  | cons c window ih =>
    have hlength : i + (c :: window).length = i + 1 + window.length := by
      rw [List.length_cons]
      omega
    rw [cutAt, hlength]
    split
    · rename_i hc
      split
      · -- The last sentence asked for ends here.
        have hone : nSent - found = 1 := by omega
        refine ⟨1, rfl, ⟨window, rfl⟩, .inl ⟨?_, hc⟩⟩
        rw [hone]
        exact List.countP_singleton.trans (if_pos hc)
      · obtain ⟨k, hk, hcut⟩ := ih (i + 1) (show found + 1 < nSent by omega)
        have hcons := hcut.cons (c := c)
        rw [if_pos hc, show nSent - (found + 1) + 1 = nSent - found by omega] at hcons
        exact ⟨k + 1, by rw [hk]; omega, hcons⟩
    · rename_i hc
      obtain ⟨k, hk, hcut⟩ := ih (i + 1) h
      have hcons := hcut.cons (c := c)
      rw [if_neg hc] at hcons
      exact ⟨k + 1, by rw [hk]; omega, hcons⟩

/-! ## What is cut out -/

/-- How the file is cut up for a place: nothing ends before it after the start, which is
near enough, and the sentences asked for are taken, or what is read ahead. -/
structure Sampled (s : Sampler) (pos nSent : Nat) (before part after : List UInt8) : Prop where
  cut : s.mm = before ++ (part ++ after)
  near : before.length ≤ pos ∧ pos ≤ before.length + s.back
  begins : before.length = pos - s.back ∨ before.getLast?.any isBoundary = true
  unbroken : ∀ b ∈ slice s.mm before.length pos, isBoundary b = false
  short : part.length ≤ s.fwd
  ends : endings part = nSent ∧ part.getLast?.any isTerminator = true ∨
    endings part < nSent ∧ (after = [] ∨ part.length = s.fwd)

theorem take_append_slice (mm : List UInt8) {lo hi : Nat} (h : lo ≤ hi) : mm.take lo ++ slice mm lo hi = mm.take hi := by
  have htake : mm.take lo = (mm.take hi).take lo := by rw [List.take_take, Nat.min_eq_left h]
  rw [htake, slice, List.take_append_drop]

/-- The bytes before the start, and those from there to the place. -/
theorem start_spec (s : Sampler) (hpos : pos ≤ s.mm.length) :
    s.mm.take (findSentenceStart s pos) =
        s.mm.take (pos - s.back) ++ (slice s.mm (pos - s.back) pos).rdropWhile (!isBoundary ·) ∧
      slice s.mm (findSentenceStart s pos) pos = (slice s.mm (pos - s.back) pos).rtakeWhile (!isBoundary ·) := by
  have hwhole := take_append_slice s.mm (Nat.sub_le pos s.back)
  rw [← List.rdropWhile_append_rtakeWhile (p := (!isBoundary ·)) (l := slice s.mm (pos - s.back) pos),
    ← List.append_assoc] at hwhole
  have hlength : (s.mm.take (pos - s.back) ++
      (slice s.mm (pos - s.back) pos).rdropWhile (!isBoundary ·)).length = findSentenceStart s pos := by
    rw [findSentenceStart_eq, List.length_append, List.length_take, Nat.min_eq_left (by omega)]
  have hle : findSentenceStart s pos ≤ pos := by
    have hlen := congrArg List.length hwhole
    rw [List.length_append, hlength, List.length_take] at hlen
    omega
  constructor
  · rw [← Nat.min_eq_left hle, ← List.take_take, ← hwhole, ← hlength, List.take_left']
    rfl
  · rw [slice, ← hwhole, ← hlength, List.drop_left']
    rfl

theorem findSentenceStart_le (s : Sampler) (hpos : pos ≤ s.mm.length) :
    findSentenceStart s pos ≤ pos ∧ pos ≤ findSentenceStart s pos + s.back := by
  have hlower := findSentenceStart_eq s pos
  have hslice : (slice s.mm (pos - s.back) pos).length = pos - (pos - s.back) := by
    rw [slice, List.length_drop, List.length_take, Nat.min_eq_left hpos]
  have hle := (List.rdropWhile_prefix (!isBoundary ·) (slice s.mm (pos - s.back) pos)).length_le
  omega

theorem sampled (s : Sampler) (hpos : pos ≤ s.mm.length) (hn : 0 < nSent) : ∃ after,
    Sampled s pos nSent (s.mm.take (findSentenceStart s pos)) (snippet s (findSentenceStart s pos) nSent) after := by
  obtain ⟨hbefore, hbetween⟩ := start_spec s hpos
  obtain ⟨hle, hnear⟩ := findSentenceStart_le s hpos
  have hlength : (s.mm.take (findSentenceStart s pos)).length = findSentenceStart s pos := by
    rw [List.length_take]
    omega
  set start := findSentenceStart s pos with hstart
  set window := slice s.mm start (min s.mm.length (start + s.fwd)) with hwindow
  obtain ⟨k, hk, hcut⟩ := cutAt_spec 0 window hn
  have hpart : snippet s start nSent = window.take k := by
    rw [snippet, ← hwindow, ← Nat.zero_add window.length, hk, Nat.zero_add]
  have hwindowLength : window.length = min s.mm.length (start + s.fwd) - start := by
    rw [hwindow, slice, List.length_drop, List.length_take]
    omega
  have hwhole : s.mm.take start ++ window = s.mm.take (min s.mm.length (start + s.fwd)) :=
    take_append_slice s.mm (by omega)
  rw [Nat.sub_zero] at hcut
  rw [hpart]
  refine ⟨window.drop k ++ s.mm.drop (min s.mm.length (start + s.fwd)), ?_, ?_, ?_, ?_, ?_, ?_⟩
  · rw [← List.append_assoc (window.take k), List.take_append_drop, ← List.append_assoc, hwhole,
      List.take_append_drop]
  · rw [hlength]
    exact ⟨hle, hnear⟩
  · rw [hlength]
    by_cases hnone : (slice s.mm (pos - s.back) pos).rdropWhile (!isBoundary ·) = []
    · left
      rw [hstart, findSentenceStart_eq, hnone]
      rfl
    · right
      have hlast := List.rdropWhile_last_not (!isBoundary ·) _ hnone
      rw [hbefore, List.getLast?_append_of_ne_nil _ hnone, List.getLast?_eq_some_getLast hnone]
      simpa using hlast
  · rw [hlength, hbetween]
    intro b hb
    simpa using List.mem_rtakeWhile_imp hb
  · rw [List.length_take, hwindowLength]
    omega
  · rcases hcut.sentences with h | ⟨hcount, hall⟩
    · exact .inl h
    · refine .inr ⟨hcount, ?_⟩
      rw [hall, hwindowLength]
      rcases Nat.le_total s.mm.length (start + s.fwd) with h | h
      · left
        have hk' : window.drop k = [] := by
          rw [List.drop_eq_nil_iff]
          exact List.take_eq_self_iff window |>.1 hall
        rw [hk', List.nil_append, List.drop_eq_nil_iff]
        omega
      · right
        omega

/-! ## The text -/

def isEnding (c : Char) : Bool := c == '.' || c == '?' || c == '!'

theorem isEnding_ascii {c : Char} (h : isEnding c = true) : c.toNat < 0x80 ∧ isSpace c = false := by
  unfold isEnding at h
  rw [Bool.or_eq_true, Bool.or_eq_true, beq_iff_eq, beq_iff_eq, beq_iff_eq] at h
  rcases h with (rfl | rfl) | rfl <;> decide

theorem isEnding_byte {b : UInt8} (h : b.toNat < 0x80) : isEnding (Char.ofNat b.toNat) = isTerminator b := by
  have hall : ∀ n < 0x80, isEnding (Char.ofNat n) = isTerminator (UInt8.ofNat n) := by decide
  rw [hall b.toNat h, UInt8.ofNat_toNat]

/-- The ends of sentences in a decoded text are those of the bytes. -/
theorem endings_decode (bs : List UInt8) : (decode bs).countP isEnding = endings bs := by
  have hascii {c : Char} (h : isEnding c = true) : decide (c.toNat < 0x80) = true := decide_eq_true (isEnding_ascii h).1
  have hbyte {b : UInt8} (h : isTerminator b = true) : b.toNat < 0x80 := by
    unfold isTerminator at h
    rw [Bool.or_eq_true, Bool.or_eq_true, beq_iff_eq, beq_iff_eq, beq_iff_eq] at h
    rcases h with (rfl | rfl) | rfl <;> decide
  calc (decode bs).countP isEnding
      = ((decode bs).filter (·.toNat < 0x80)).countP isEnding := by
        rw [List.countP_filter]
        refine List.countP_congr fun c _ => ?_
        rw [Bool.and_eq_true, and_iff_left_of_imp hascii]
    _ = ((bs.filter (·.toNat < 0x80)).map fun b => Char.ofNat b.toNat).countP isEnding := by rw [ascii_decode]
    _ = (bs.filter (·.toNat < 0x80)).countP isTerminator := by
        rw [List.countP_map]
        refine List.countP_congr fun b hb => ?_
        have hb : b.toNat < 0x80 := by simpa using (List.mem_filter.1 hb).2
        rw [Function.comp_apply, isEnding_byte hb]
    _ = endings bs := by
        rw [List.countP_filter]
        refine List.countP_congr fun b _ => ?_
        rw [Bool.and_eq_true, and_iff_left_of_imp fun h => decide_eq_true (hbyte h)]

/-- What is said of a text that some bytes make: it is what they decode to with single blanks for the white
space between the words, it has the sentences of the bytes, and what they decode to is a part of the file's
text if that is one. -/
structure Says (mm part : List UInt8) (text : List Char) : Prop where
  blanks : text = join [' '] (split (decode part))
  words : (∀ w ∈ split (decode part), w ≠ [] ∧ ∀ c ∈ w, isSpace c = false) ∧
    (split (decode part)).flatten = (decode part).filter (!isSpace ·)
  sentences : text.countP isEnding = endings part
  passage : ∀ t, mm = encode t → decode part <:+: t

theorem says_of_cut {before part after : List UInt8} (h : mm = before ++ (part ++ after)) :
    Says mm part (join [' '] (split (strip (decode part)))) := by
  rw [split_strip]
  refine ⟨rfl, ⟨?_, flatten_runs _⟩, ?_, ?_⟩
  · intro w hw
    obtain ⟨hne, hw⟩ := mem_of_mem_split hw
    exact ⟨hne, fun c hc => (hw c hc).2⟩
  · have hflat : (split (decode part)).flatten.countP isEnding = (decode part).countP isEnding := by
      rw [split, flatten_runs, List.countP_filter]
      refine List.countP_congr fun c _ => ?_
      rw [Bool.and_eq_true, and_iff_left_of_imp fun h => by rw [(isEnding_ascii h).2]; rfl]
    rw [countP_join _ (by decide), hflat, endings_decode]
  · rintro t rfl
    exact decode_infix h.symm

/-- For every file, place and number of sentences drawn for a seed, the sample is of whole sentences from a
boundary on, as many as were drawn if they end soon enough. Of a file that is too short there is none. -/
theorem sampled_sentences (s : Sampler) (draw : 32 ≤ s.mm.length → Nat → Draw s.mm.length) (seed : Nat) :
    if h : 32 ≤ s.mm.length then ∃ before part after, Sampled s (draw h seed).pos (draw h seed).nSent before part after ∧
      Says s.mm part (sampleStable s draw seed) ∧ endings part ≤ (draw h seed).nSent
    else sampleStable s draw seed = [] := by
  split
  · rename_i h
    obtain ⟨hone, -⟩ := (draw h seed).nSent_mem
    obtain ⟨after, hsampled⟩ := sampled s (draw h seed).pos_lt.le hone
    refine ⟨_, _, after, hsampled, ?_, ?_⟩
    · rw [sampleStable, dif_pos h]
      exact says_of_cut hsampled.cut
    · rcases hsampled.ends with ⟨hends, -⟩ | ⟨hends, -⟩
      · exact hends.le
      · exact hends.le
  · exact dif_neg ‹_›

end HtapStack.TextSampler
