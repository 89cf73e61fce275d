import HtapStack.Lib.PyJson
import Mathlib.Data.List.Infix
import Mathlib.Order.Basic
import Mathlib.Tactic.SplitIfs
/-!
# Decoding UTF-8, with what is no UTF-8 ignored

`bytes.decode("utf-8", errors="ignore")`: the longest beginning of a character that
cannot go on is dropped, and decoding goes on at the byte that broke it off.

`decode_encode`: a text comes back. `decode_infix`: from bytes cut anywhere out of a
text's, what is decoded is a part of the text. `ascii_decode`: every ASCII byte is
decoded, and nothing else is to such a character.
-/

namespace HtapStack.Utf8
open Py (encode)

/-- The beginning of a character: how many bytes are owed, the bits so far, and the
range of the next byte. -/
structure Pending where
  owed : Nat
  bits : Nat
  low : Nat
  high : Nat

/-- A byte between characters. -/
def first (b : Nat) : Option Pending × List Char :=
  if b < 0x80 then (none, [Char.ofNat b])
  else if 0xC2 ≤ b ∧ b ≤ 0xDF then (some ⟨1, b - 0xC0, 0x80, 0xBF⟩, [])
  else if 0xE0 ≤ b ∧ b ≤ 0xEF then
    (some ⟨2, b - 0xE0, if b = 0xE0 then 0xA0 else 0x80, if b = 0xED then 0x9F else 0xBF⟩, [])
  else if 0xF0 ≤ b ∧ b ≤ 0xF4 then
    (some ⟨3, b - 0xF0, if b = 0xF0 then 0x90 else 0x80, if b = 0xF4 then 0x8F else 0xBF⟩, [])
  else (none, [])

def feed (p : Option Pending) (b : Nat) : Option Pending × List Char :=
  match p with
  | none => first b
  | some p =>
    if p.low ≤ b ∧ b ≤ p.high then
      let bits := p.bits * 64 + (b - 0x80)
      if p.owed = 1 then (none, [Char.ofNat bits]) else (some ⟨p.owed - 1, bits, 0x80, 0xBF⟩, [])
    else first b

def decodeFrom : Option Pending → List UInt8 → List Char
  | _, [] => []
  | p, b :: bs => (feed p b.toNat).2 ++ decodeFrom (feed p b.toNat).1 bs

/-- `decode("utf-8", errors="ignore")`. -/
def decode (bs : List UInt8) : List Char := decodeFrom none bs

variable {p : Option Pending} {b : UInt8} {bs cs xs ys : List UInt8} {c : Char} {s : List Char}

theorem decodeFrom_cons : decodeFrom p (b :: bs) = (feed p b.toNat).2 ++ decodeFrom (feed p b.toNat).1 bs := rfl

theorem toNat_ofNat {n : Nat} (h : n < 256) : (UInt8.ofNat n).toNat = n := by
  rw [UInt8.toNat_ofNat', Nat.mod_eq_of_lt h]

/-! ## What was encoded -/

/-- A byte that only goes on with a character. -/
def Continues (b : UInt8) : Prop := 0x80 ≤ b.toNat ∧ b.toNat ≤ 0xBF

theorem first_continues (h : Continues b) : first b.toNat = (none, []) := by
  obtain ⟨hlo, hhi⟩ := h
  unfold first
  rw [if_neg (by omega), if_neg (by omega), if_neg (by omega), if_neg (by omega)]

/-- Between characters such bytes are ignored. -/
theorem decode_continues (cs : List UInt8) (h : ∀ b ∈ bs, Continues b) : decode (bs ++ cs) = decode cs := by
  induction bs with
  | nil => rfl
  | cons b bs ih =>
    obtain ⟨hb, hbs⟩ := List.forall_mem_cons.1 h
    rw [List.cons_append, decode, decodeFrom_cons, feed, first_continues hb]
    exact ih hbs

/-- The bytes that a begun character is waiting for. -/
inductive Completes (c : Char) : Pending → List UInt8 → Prop
  | last {p : Pending} {b : UInt8} (hb : Continues b) (h : feed (some p) b.toNat = (none, [c])) : Completes c p [b]
  | more {p q : Pending} {b : UInt8} {bs : List UInt8} (hb : Continues b)
      (h : feed (some p) b.toNat = (some q, [])) (hrest : Completes c q bs) : Completes c p (b :: bs)

/-- The bytes of a character. -/
inductive Spells (c : Char) : List UInt8 → Prop
  | one {b : UInt8} (h : first b.toNat = (none, [c])) : Spells c [b]
  | many {b : UInt8} {p : Pending} {bs : List UInt8} (h : first b.toNat = (some p, [])) (hrest : Completes c p bs) :
      Spells c (b :: bs)

theorem feed_last {b bits low high : Nat} (hb : low ≤ b ∧ b ≤ high) (hbits : bits * 64 + (b - 0x80) = c.toNat) :
    feed (some ⟨1, bits, low, high⟩) b = (none, [c]) := by
  have hchar : Char.ofNat (bits * 64 + (b - 0x80)) = c := by rw [hbits, Char.ofNat_toNat]
  simp only [feed, if_pos hb, if_true, hchar]

theorem feed_more {b owed bits bits' low high : Nat} (hb : low ≤ b ∧ b ≤ high) (hbits : bits * 64 + (b - 0x80) = bits') :
    feed (some ⟨owed + 2, bits, low, high⟩) b = (some ⟨owed + 1, bits', 0x80, 0xBF⟩, []) := by
  simp only [feed, if_pos hb, hbits]
  rfl

/-- A byte in the middle of a character, from its six bits. -/
theorem continues_ofNat (n : Nat) : (UInt8.ofNat (n % 0x40 + 0x80)).toNat = n % 0x40 + 0x80 ∧
    Continues (UInt8.ofNat (n % 0x40 + 0x80)) := by
  have hbyte : (UInt8.ofNat (n % 0x40 + 0x80)).toNat = n % 0x40 + 0x80 := toNat_ofNat (by omega)
  refine ⟨hbyte, ?_⟩
  rw [Continues, hbyte]
  omega

/-- The bytes, by the number of the character. -/
theorem encodeChar_eq (c : Char) : String.utf8EncodeChar c =
    if c.toNat ≤ 0x7F then [UInt8.ofNat c.toNat]
    else if c.toNat ≤ 0x7FF then
      [UInt8.ofNat (c.toNat / 64 % 0x20 + 0xC0), UInt8.ofNat (c.toNat % 0x40 + 0x80)]
    else if c.toNat ≤ 0xFFFF then
      [UInt8.ofNat (c.toNat / 4096 % 0x10 + 0xE0), UInt8.ofNat (c.toNat / 64 % 0x40 + 0x80),
        UInt8.ofNat (c.toNat % 0x40 + 0x80)]
    else [UInt8.ofNat (c.toNat / 262144 % 0x08 + 0xF0), UInt8.ofNat (c.toNat / 4096 % 0x40 + 0x80),
      UInt8.ofNat (c.toNat / 64 % 0x40 + 0x80), UInt8.ofNat (c.toNat % 0x40 + 0x80)] := rfl

theorem spells_char (c : Char) : Spells c (String.utf8EncodeChar c) := by
  have hvalid : c.toNat < 0xD800 ∨ 0xDFFF < c.toNat ∧ c.toNat < 0x110000 := c.valid
  obtain ⟨h0, hc0⟩ := continues_ofNat c.toNat
  obtain ⟨h1, hc1⟩ := continues_ofNat (c.toNat / 64)
  obtain ⟨h2, hc2⟩ := continues_ofNat (c.toNat / 4096)
  rw [encodeChar_eq]
  split
  · refine .one ?_
    rw [toNat_ofNat (by omega), first, if_pos (by omega), Char.ofNat_toNat]
  · split
    · refine .many (p := ⟨1, c.toNat / 64, 0x80, 0xBF⟩) ?_ (.last hc0 ?_)
      · rw [toNat_ofNat (by omega), first, if_neg (by omega), if_pos (by omega)]
        simp only [Prod.mk.injEq, Option.some.injEq, Pending.mk.injEq, and_true, true_and]
        omega
      · rw [h0]
        exact feed_last (by omega) (by omega)
    · split
      · refine .many (p := ⟨2, c.toNat / 4096, if c.toNat / 4096 = 0 then 0xA0 else 0x80,
          if c.toNat / 4096 = 0xD then 0x9F else 0xBF⟩) ?_ (.more (q := ⟨1, c.toNat / 64, 0x80, 0xBF⟩) hc1 ?_ (.last hc0 ?_))
        · rw [toNat_ofNat (by omega), first, if_neg (by omega), if_neg (by omega), if_pos (by omega)]
          simp only [Prod.mk.injEq, Option.some.injEq, Pending.mk.injEq, and_true, true_and]
          refine ⟨by omega, ?_, ?_⟩ <;> split <;> split <;> omega
        · rw [h1]
          refine feed_more ?_ (by omega)
          split <;> split <;> omega
        · rw [h0]
          exact feed_last (by omega) (by omega)
      · refine .many (p := ⟨3, c.toNat / 262144, if c.toNat / 262144 = 0 then 0x90 else 0x80,
          if c.toNat / 262144 = 4 then 0x8F else 0xBF⟩) ?_ (.more (q := ⟨2, c.toNat / 4096, 0x80, 0xBF⟩) hc2 ?_
            (.more (q := ⟨1, c.toNat / 64, 0x80, 0xBF⟩) hc1 ?_ (.last hc0 ?_)))
        · rw [toNat_ofNat (by omega), first, if_neg (by omega), if_neg (by omega), if_neg (by omega), if_pos (by omega)]
          simp only [Prod.mk.injEq, Option.some.injEq, Pending.mk.injEq, and_true, true_and]
          refine ⟨by omega, ?_, ?_⟩ <;> split <;> split <;> omega
        · rw [h2]
          refine feed_more ?_ (by omega)
          split <;> split <;> omega
        · rw [h1]
          exact feed_more (by omega) (by omega)
        · rw [h0]
          exact feed_last (by omega) (by omega)

/-! ## Text that comes back -/

theorem decodeFrom_completes {p : Pending} (h : Completes c p bs) (rest : List UInt8) :
    decodeFrom (some p) (bs ++ rest) = c :: decode rest := by
  induction h with
  | last hb h =>
    rw [List.cons_append, decodeFrom_cons, h]
    rfl
  | more hb h hrest ih =>
    rw [List.cons_append, decodeFrom_cons, h]
    exact ih

/-- Nothing is decoded before the last byte. -/
theorem decodeFrom_before {p : Pending} (h : Completes c p bs) (hys : ys ≠ []) (hxs : xs ++ ys = bs) :
    decodeFrom (some p) xs = [] := by
  induction h generalizing xs with
  | last hb h =>
    cases xs with
    | nil => rfl
    | cons x xs =>
      obtain ⟨-, hnil⟩ := List.cons_eq_cons.1 hxs
      exact absurd (List.append_eq_nil_iff.1 hnil).2 hys
  | more hb h hrest ih =>
    cases xs with
    | nil => rfl
    | cons x xs =>
      obtain ⟨rfl, htail⟩ := List.cons_eq_cons.1 hxs
      rw [decodeFrom_cons, h]
      exact ih htail

theorem continues_of_completes {p : Pending} (h : Completes c p bs) : ∀ b ∈ bs, Continues b := by
  induction h with
  | last hb h => simpa using hb
  | more hb h hrest ih => exact List.forall_mem_cons.2 ⟨hb, ih⟩

theorem decode_spells (h : Spells c bs) (rest : List UInt8) : decode (bs ++ rest) = c :: decode rest := by
  cases h with
  | one h =>
    rw [List.singleton_append, decode, decodeFrom_cons, feed, h]
    rfl
  | many h hrest =>
    rw [List.cons_append, decode, decodeFrom_cons, feed, h]
    exact decodeFrom_completes hrest rest

theorem decode_before (h : Spells c bs) (hys : ys ≠ []) (hxs : xs ++ ys = bs) : decode xs = [] := by
  cases xs with
  | nil => rfl
  | cons x xs =>
    cases h with
    | one h =>
      obtain ⟨-, hnil⟩ := List.cons_eq_cons.1 hxs
      exact absurd (List.append_eq_nil_iff.1 hnil).2 hys
    | many h hrest =>
      obtain ⟨rfl, htail⟩ := List.cons_eq_cons.1 hxs
      rw [decode, decodeFrom_cons, feed, h]
      exact decodeFrom_before hrest hys htail

theorem encode_cons (c : Char) (s : List Char) : encode (c :: s) = String.utf8EncodeChar c ++ encode s :=
  List.flatMap_cons

/-- A text comes back. -/
theorem decode_encode (s : List Char) : decode (encode s) = s := by
  induction s with
  | nil => rfl
  | cons c s ih =>
    rw [encode_cons, decode_spells (spells_char c), ih]

/-! ## Bytes cut out of a text's -/

theorem continues_of_spells (h : Spells c bs) (hxs : xs ≠ []) (hys : xs ++ ys = bs) : ∀ b ∈ ys, Continues b := by
  cases xs with
  | nil => exact absurd rfl hxs
  | cons x xs =>
    intro b hb
    cases h with
    | one h =>
      obtain ⟨-, hnil⟩ := List.cons_eq_cons.1 hys
      rw [(List.append_eq_nil_iff.1 hnil).2] at hb
      cases hb
    | many h hrest =>
      obtain ⟨-, rfl⟩ := List.cons_eq_cons.1 hys
      exact continues_of_completes hrest b (List.mem_append_right _ hb)

/-- The bytes from anywhere on: the rest of a character, and then characters. -/
theorem suffix_encode (h : xs ++ ys = encode s) :
    ∃ t rest, t <:+ s ∧ ys = rest ++ encode t ∧ ∀ b ∈ rest, Continues b := by
  induction s generalizing xs with
  | nil =>
    obtain ⟨rfl, rfl⟩ := List.append_eq_nil_iff.1 h
    exact ⟨[], [], List.nil_suffix, rfl, nofun⟩
  | cons c s ih =>
    rw [encode_cons] at h
    rcases List.append_eq_append_iff.1 h with ⟨rest, hchar, rfl⟩ | ⟨zs, rfl, hs⟩
    · by_cases hxs : xs = []
      · subst hxs
        exact ⟨c :: s, [], List.suffix_rfl, by rw [encode_cons, hchar]; rfl, nofun⟩
      · exact ⟨s, rest, List.suffix_cons c s, rfl, continues_of_spells (spells_char c) hxs hchar.symm⟩
    · obtain ⟨t, rest, ht, hys, hrest⟩ := ih hs.symm
      exact ⟨t, rest, ht.trans (List.suffix_cons c s), hys, hrest⟩

/-- The bytes up to anywhere: a character that is broken off is dropped. -/
theorem decode_isPrefix (h : xs ++ ys = encode s) : decode xs <+: s := by
  induction s generalizing xs with
  | nil =>
    obtain ⟨rfl, rfl⟩ := List.append_eq_nil_iff.1 h
    exact List.nil_prefix
  | cons c s ih =>
    rw [encode_cons] at h
    rcases List.append_eq_append_iff.1 h with ⟨rest, hchar, rfl⟩ | ⟨zs, rfl, hs⟩
    · by_cases hrest : rest = []
      · subst hrest
        have hone := decode_spells (spells_char c) []
        rw [List.append_nil] at hone hchar
        rw [← hchar, hone]
        exact (List.prefix_append [c] s)
      · rw [decode_before (spells_char c) hrest hchar.symm]
        exact List.nil_prefix
    · rw [decode_spells (spells_char c)]
      exact List.prefix_cons_iff.2 (.inr ⟨_, rfl, ih hs.symm⟩)

theorem decode_infix (h : bs ++ (xs ++ ys) = encode s) : decode xs <:+: s := by
  obtain ⟨t, rest, ht, hrest, hcontinues⟩ := suffix_encode h
  rcases List.append_eq_append_iff.1 hrest with ⟨more, rfl, -⟩ | ⟨zs, rfl, hzs⟩
  · have hnone := decode_continues [] fun b hb => hcontinues b (List.mem_append_left more hb)
    rw [List.append_nil] at hnone
    rw [hnone]
    exact List.nil_infix
  · rw [decode_continues _ hcontinues]
    exact (decode_isPrefix hzs.symm).isInfix.trans ht.isInfix

/-! ## ASCII -/

/-- How many characters a byte leaves open, with so many more to come. -/
def scale : Nat → Nat
  | 1 => 1
  | 2 => 64
  | 3 => 4096
  | _ => 0

/-- Whatever bytes are to come, they make a character, and none of ASCII. -/
structure Pending.Sound (p : Pending) : Prop where
  low : 0x80 ≤ p.low
  le : p.low ≤ p.high
  high : p.high ≤ 0xBF
  ascii : 0x80 ≤ (p.bits * 64 + (p.low - 0x80)) * scale p.owed
  valid : (p.bits * 64 + (p.high - 0x80) + 1) * scale p.owed ≤ 0xD800 ∨
    0xDFFF < (p.bits * 64 + (p.low - 0x80)) * scale p.owed ∧
      (p.bits * 64 + (p.high - 0x80) + 1) * scale p.owed ≤ 0x110000

/-- What a byte leaves to come and decodes: nothing of ASCII, unless it is itself. -/
def Fed (b : Nat) (r : Option Pending × List Char) : Prop :=
  (∀ q ∈ r.1, q.Sound) ∧ r.2.filter (·.toNat < 0x80) = if b < 0x80 then [Char.ofNat b] else []

theorem toNat_charOfNat {n : Nat} (h : n < 0xD800 ∨ 0xDFFF < n ∧ n < 0x110000) : (Char.ofNat n).toNat = n := by
  rw [Char.ofNat, dif_pos h]
  rfl

theorem sound_two {b : Nat} (h : 0xC2 ≤ b ∧ b ≤ 0xDF) : Pending.Sound ⟨1, b - 0xC0, 0x80, 0xBF⟩ := by
  constructor <;> simp only [scale] <;> omega

theorem sound_three {b : Nat} (h : 0xE0 ≤ b ∧ b ≤ 0xEF) :
    Pending.Sound ⟨2, b - 0xE0, if b = 0xE0 then 0xA0 else 0x80, if b = 0xED then 0x9F else 0xBF⟩ := by
  constructor <;> simp only [scale] <;> split_ifs <;> omega

theorem sound_four {b : Nat} (h : 0xF0 ≤ b ∧ b ≤ 0xF4) :
    Pending.Sound ⟨3, b - 0xF0, if b = 0xF0 then 0x90 else 0x80, if b = 0xF4 then 0x8F else 0xBF⟩ := by
  constructor <;> simp only [scale] <;> split_ifs <;> omega

theorem filter_char {n : Nat} (h : n < 0xD800 ∨ 0xDFFF < n ∧ n < 0x110000) :
    [Char.ofNat n].filter (·.toNat < 0x80) = if n < 0x80 then [Char.ofNat n] else [] := by
  have hn := toNat_charOfNat h
  split
  · rw [List.filter_cons_of_pos (by simpa [hn] using ‹n < 0x80›), List.filter_nil]
  · rw [List.filter_cons_of_neg (by simpa [hn] using ‹¬ n < 0x80›), List.filter_nil]

theorem first_fed (b : Nat) : Fed b (first b) := by
  unfold Fed first
  split
  · rename_i hb
    refine ⟨nofun, ?_⟩
    exact (filter_char (by omega)).trans (if_pos hb)
  · split
    · refine ⟨fun q hq => ?_, rfl⟩
      cases hq
      exact sound_two ‹_›
    · split
      · refine ⟨fun q hq => ?_, rfl⟩
        cases hq
        exact sound_three ‹_›
      · split
        · refine ⟨fun q hq => ?_, rfl⟩
          cases hq
          exact sound_four ‹_›
        · exact ⟨nofun, rfl⟩

theorem owed_of_scale {k n : Nat} (h : 0x80 ≤ n * scale k) : k = 1 ∨ k = 2 ∨ k = 3 := by
  unfold scale at h
  split at h
  · exact .inl rfl
  · exact .inr (.inl rfl)
  · exact .inr (.inr rfl)
  · omega

/-- The last byte of a character. -/
theorem last_fed {bits low high b : Nat} (hp : Pending.Sound ⟨1, bits, low, high⟩) (hb : low ≤ b ∧ b ≤ high) :
    Fed b (none, [Char.ofNat (bits * 64 + (b - 0x80))]) := by
  have hlow : 0x80 ≤ low := hp.low
  have hascii : 0x80 ≤ (bits * 64 + (low - 0x80)) * 1 := hp.ascii
  have hvalid : (bits * 64 + (high - 0x80) + 1) * 1 ≤ 0xD800 ∨ 0xDFFF < (bits * 64 + (low - 0x80)) * 1 ∧
    (bits * 64 + (high - 0x80) + 1) * 1 ≤ 0x110000 := hp.valid
  refine ⟨nofun, ?_⟩
  rw [if_neg (by omega)]
  exact (filter_char (by omega)).trans (if_neg (by omega))

/-- One before it: what it leaves open was open before. -/
theorem more_sound {owed bits low high b : Nat} (hscale : scale (owed + 1) = 64 * scale owed)
    (hp : Pending.Sound ⟨owed + 1, bits, low, high⟩) (hb : low ≤ b ∧ b ≤ high) :
    Pending.Sound ⟨owed, bits * 64 + (b - 0x80), 0x80, 0xBF⟩ := by
  obtain ⟨hlow, -, hhigh, hascii, hvalid⟩ := hp
  dsimp only at hlow hhigh hascii hvalid
  rw [hscale, ← Nat.mul_assoc] at hascii hvalid
  rw [← Nat.mul_assoc] at hvalid
  have hlo : (bits * 64 + (low - 0x80)) * 64 * scale owed ≤
      ((bits * 64 + (b - 0x80)) * 64 + (0x80 - 0x80)) * scale owed := Nat.mul_le_mul_right _ (by omega)
  have hhi : ((bits * 64 + (b - 0x80)) * 64 + (0xBF - 0x80) + 1) * scale owed ≤
      (bits * 64 + (high - 0x80) + 1) * 64 * scale owed := Nat.mul_le_mul_right _ (by omega)
  constructor <;> dsimp only
  · exact le_rfl
  · decide
  · exact le_rfl
  · exact Nat.le_trans hascii hlo
  · rcases hvalid with h | ⟨h, h'⟩
    · exact .inl (Nat.le_trans hhi h)
    · exact .inr ⟨Nat.lt_of_lt_of_le h hlo, Nat.le_trans hhi h'⟩

theorem feed_fed {p : Option Pending} (hp : ∀ q ∈ p, q.Sound) (b : Nat) : Fed b (feed p b) := by
  cases p with
  | none => exact first_fed b
  | some p =>
    have hsound := hp p rfl
    obtain ⟨owed, bits, low, high⟩ := p
    by_cases hb : low ≤ b ∧ b ≤ high
    · have hmore (owed : Nat) (hscale : scale (owed + 1) = 64 * scale owed)
          (hp : Pending.Sound ⟨owed + 1, bits, low, high⟩) :
          Fed b (some ⟨owed, bits * 64 + (b - 0x80), 0x80, 0xBF⟩, []) := by
        refine ⟨fun q hq => ?_, ?_⟩
        · cases hq
          exact more_sound hscale hp hb
        · have hlow : 0x80 ≤ low := hp.low
          rw [if_neg (by omega)]
          rfl
      simp only [feed, if_pos hb]
      rcases owed_of_scale hsound.ascii with howed | howed | howed <;> dsimp only at howed <;> subst howed
      · exact last_fed hsound hb
      · exact hmore 1 rfl hsound
      · exact hmore 2 rfl hsound
    · simp only [feed, if_neg hb]
      exact first_fed b

theorem ascii_decodeFrom {p : Option Pending} (hp : ∀ q ∈ p, q.Sound) (bs : List UInt8) :
    (decodeFrom p bs).filter (·.toNat < 0x80) = (bs.filter (·.toNat < 0x80)).map fun b => Char.ofNat b.toNat := by
  induction bs generalizing p with
  | nil => rfl
  | cons b bs ih =>
    obtain ⟨hsound, hfilter⟩ := feed_fed hp b.toNat
    rw [decodeFrom_cons, List.filter_append, hfilter, ih hsound]
    by_cases hb : b.toNat < 0x80
    · rw [if_pos hb, List.filter_cons_of_pos (by simpa using hb)]
      rfl
    · rw [if_neg hb, List.filter_cons_of_neg (by simpa using hb)]
      rfl

/-- The ASCII characters of a decoded text are the ASCII bytes, in their order. -/
theorem ascii_decode (bs : List UInt8) :
    (decode bs).filter (·.toNat < 0x80) = (bs.filter (·.toNat < 0x80)).map fun b => Char.ofNat b.toNat :=
  ascii_decodeFrom (fun _ h => absurd h (Option.not_mem_none _)) bs

end HtapStack.Utf8
