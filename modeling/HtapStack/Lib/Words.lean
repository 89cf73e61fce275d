import HtapStack.Lib.Regex
import Mathlib.Data.List.Chain
/-!
# Words

A text as its words, the maximal runs of word characters, and the other
characters between them. A text can be cut wherever two word characters do not
meet (`tokens_append`), which a `\b` sees to, and a word is what a `\b…\b` finds
(`mem_tokens_iff`).
-/

namespace HtapStack.Py

inductive Token where
  | word (w : List Char)
  | sign (c : Char)
  deriving DecidableEq, Repr

def Token.text : Token → List Char
  | .word w => w
  | .sign c => [c]

def Token.isWord : Token → Bool
  | .word _ => true
  | .sign _ => false

/-- A word character before the tokens. -/
def glue (c : Char) : List Token → List Token
  | .word w :: ts => .word (c :: w) :: ts
  | ts => .word [c] :: ts

variable (isWord : Char → Bool)

def tokens : List Char → List Token
  | [] => []
  | c :: s => if isWord c then glue c (tokens s) else .sign c :: tokens s

/-- No word goes on from `prev` into the text. -/
def Apart (prev : Option Char) (s : List Char) : Prop :=
  prev.any isWord = false ∨ s.head?.any isWord = false

instance (prev : Option Char) (s : List Char) : Decidable (Apart isWord prev s) := inferInstanceAs (Decidable (_ ∨ _))

variable {isWord : Char → Bool} {a b s : List Char} {c : Char}

theorem tokens_cons :
    tokens isWord (c :: s) = if isWord c then glue c (tokens isWord s) else .sign c :: tokens isWord s := rfl

theorem text_glue (c : Char) (ts : List Token) :
    (glue c ts).flatMap Token.text = c :: ts.flatMap Token.text := by
  unfold glue
  split <;> simp [Token.text]

theorem text_tokens (isWord : Char → Bool) (s : List Char) : (tokens isWord s).flatMap Token.text = s := by
  induction s with
  | nil => rfl
  | cons c s ih =>
    rw [tokens_cons]
    split
    · rw [text_glue, ih]
    · rw [List.flatMap_cons, ih]; rfl

theorem glue_append {ts us : List Token} (h : ts ≠ []) : glue c (ts ++ us) = glue c ts ++ us := by
  cases ts with
  | nil => exact absurd rfl h
  | cons t ts => cases t <;> rfl

theorem tokens_ne_nil (h : s ≠ []) : tokens isWord s ≠ [] := by
  intro ht
  refine h ?_
  rw [← text_tokens isWord s, ht]
  rfl

/-- The first token of a text that begins with no word character is a sign. -/
theorem glue_tokens (h : s.head?.any isWord = false) : glue c (tokens isWord s) = .word [c] :: tokens isWord s := by
  cases s with
  | nil => rfl
  | cons d s =>
    have hd : isWord d = false := h
    simp only [tokens, hd]
    rfl

theorem tokens_append (h : Apart isWord (last none a) b) :
    tokens isWord (a ++ b) = tokens isWord a ++ tokens isWord b := by
  induction a with
  | nil => rfl
  | cons c a ih =>
    cases a with
    | nil =>
      show tokens isWord (c :: b) = tokens isWord [c] ++ tokens isWord b
      rw [tokens_cons, tokens_cons]
      split
      · rename_i hc
        rcases h with h | h
        · rw [last_cons, last_nil, Option.any_some, hc] at h
          cases h
        · exact glue_tokens h
      · rfl
    | cons d a =>
      rw [List.cons_append, tokens_cons, tokens_cons, ih h]
      split
      · exact glue_append (tokens_ne_nil nofun)
      · rfl

theorem tokens_of_word {w : List Char} (hne : w ≠ []) (hw : ∀ c ∈ w, isWord c = true) :
    tokens isWord w = [.word w] := by
  induction w with
  | nil => exact absurd rfl hne
  | cons c w ih =>
    obtain ⟨hc, hw⟩ := List.forall_mem_cons.1 hw
    rw [tokens, if_pos hc]
    cases w with
    | nil => rfl
    | cons d w => rw [ih nofun hw]; rfl

theorem tokens_of_signs (h : ∀ c ∈ s, isWord c = false) : tokens isWord s = s.map .sign := by
  induction s with
  | nil => rfl
  | cons c s ih =>
    obtain ⟨hc, hs⟩ := List.forall_mem_cons.1 h
    rw [tokens, hc, ih hs]
    rfl

theorem last_any (prev : Option Char) (s : List Char) (h : (last prev s).any isWord = false) :
    (last none s).any isWord = false := by
  cases s with
  | nil => rfl
  | cons c s => exact h

/-- A `\b` before a word character begins a word. -/
theorem begins_of_boundary {prev : Option Char} (h : Re.isBoundary isWord prev s = true)
    (hs : s.head?.any isWord = true) : prev.any isWord = false := by
  unfold Re.isBoundary at h
  simpa [hs] using h

/-- A `\b` after a word character ends a word. -/
theorem ends_of_boundary {prev : Option Char} (h : Re.isBoundary isWord prev s = true)
    (hp : prev.any isWord = true) : s.head?.any isWord = false := by
  unfold Re.isBoundary at h
  simpa [hp] using h

theorem last_of_word {w : List Char} (prev : Option Char) (hne : w ≠ []) (hw : ∀ c ∈ w, isWord c = true) :
    (last prev w).any isWord = true := by
  induction w generalizing prev with
  | nil => exact absurd rfl hne
  | cons c w ih =>
    obtain ⟨hc, hw⟩ := List.forall_mem_cons.1 hw
    cases w with
    | nil => exact hc
    | cons d w => exact ih none nofun hw

theorem head_of_word {w : List Char} (hne : w ≠ []) (hw : ∀ c ∈ w, isWord c = true) (b : List Char) :
    (w ++ b).head?.any isWord = true := by
  cases w with
  | nil => exact absurd rfl hne
  | cons c w => exact hw c List.mem_cons_self

/-! ## The tokens of a text -/

/-- A token of a text: a word is not empty and of word characters, a sign is none. -/
def Token.Ok (isWord : Char → Bool) : Token → Prop
  | .word w => w ≠ [] ∧ ∀ c ∈ w, isWord c = true
  | .sign c => isWord c = false

theorem glue_ok {ts : List Token} (hc : isWord c = true) (h : ∀ t ∈ ts, t.Ok isWord) :
    ∀ t ∈ glue c ts, t.Ok isWord := by
  unfold glue
  split
  · rename_i w ts
    obtain ⟨hw, hts⟩ := List.forall_mem_cons.1 h
    exact List.forall_mem_cons.2 ⟨⟨nofun, List.forall_mem_cons.2 ⟨hc, hw.2⟩⟩, hts⟩
  · exact List.forall_mem_cons.2 ⟨⟨nofun, by simpa using hc⟩, h⟩

theorem tokens_ok (isWord : Char → Bool) (s : List Char) : ∀ t ∈ tokens isWord s, t.Ok isWord := by
  induction s with
  | nil => nofun
  | cons c s ih =>
    rw [tokens_cons]
    split
    · rename_i hc
      exact glue_ok hc ih
    · rename_i hc
      exact List.forall_mem_cons.2 ⟨by simpa [Token.Ok] using hc, ih⟩

/-- Words do not meet. -/
theorem tokens_chain (isWord : Char → Bool) (s : List Char) :
    (tokens isWord s).IsChain fun t u => t.isWord = false ∨ u.isWord = false := by
  induction s with
  | nil => exact .nil
  | cons c s ih =>
    rw [tokens_cons]
    split
    · generalize tokens isWord s = ts at ih
      cases ts with
      | nil => exact .singleton _
      | cons t ts =>
        -- A word takes the character in, and still meets what it met.
        cases t with
        | word w => cases ts with
          | nil => exact .singleton _
          | cons u ts => exact .cons_cons (by simpa [Token.isWord] using ih.rel) ih.tail
        | sign d => exact .cons_cons (.inr rfl) ih
    · generalize tokens isWord s = ts at ih
      cases ts with
      | nil => exact .singleton _
      | cons u ts => exact .cons_cons (.inl rfl) ih

theorem last_text {ts : List Token} (h : ∀ t ∈ ts, t.Ok isWord) :
    (last none (ts.flatMap Token.text)).any isWord = ts.getLast?.any Token.isWord := by
  induction ts using List.reverseRecOn with
  | nil => rfl
  | append_singleton ts t ih =>
    have ht := h t (by simp)
    simp only [List.flatMap_append, List.flatMap_cons, List.flatMap_nil, List.append_nil, last_append,
      List.getLast?_append_of_ne_nil, ne_eq, List.cons_ne_self, not_false_eq_true, List.getLast?_singleton]
    cases t with
    | word w => simp [Token.text, last_of_word _ ht.1 ht.2, Token.isWord]
    | sign c => simpa [Token.text, Token.isWord, Token.Ok] using ht

theorem head_text {ts : List Token} (h : ∀ t ∈ ts, t.Ok isWord) :
    (ts.flatMap Token.text).head?.any isWord = ts.head?.any Token.isWord := by
  cases ts with
  | nil => rfl
  | cons t ts =>
    have ht := h t List.mem_cons_self
    rw [List.flatMap_cons]
    cases t with
    | word w => exact head_of_word ht.1 ht.2 _
    | sign c => exact ht

/-- The words of a text: what stands between two places where no word goes on. -/
theorem mem_tokens_iff {w : List Char} : .word w ∈ tokens isWord s ↔
    ∃ a b, s = a ++ (w ++ b) ∧ w ≠ [] ∧ (∀ c ∈ w, isWord c = true) ∧
      (last none a).any isWord = false ∧ b.head?.any isWord = false := by
  constructor
  · intro h
    obtain ⟨xs, ys, hxy⟩ := List.append_of_mem h
    have hok := tokens_ok isWord s
    have hchain := tokens_chain isWord s
    have htext := text_tokens isWord s
    rw [hxy] at hok hchain htext
    obtain ⟨hxs, hwys⟩ := List.forall_mem_append.1 hok
    obtain ⟨hw, hys⟩ := List.forall_mem_cons.1 hwys
    obtain ⟨-, hys', hmeet⟩ := List.isChain_append.1 hchain
    refine ⟨xs.flatMap Token.text, ys.flatMap Token.text, ?_, hw.1, hw.2, ?_, ?_⟩
    · rw [← htext, List.flatMap_append, List.flatMap_cons]
      rfl
    · rw [last_text hxs]
      cases hl : xs.getLast? with
      | none => rfl
      | some t => exact (hmeet t hl (.word w) rfl).resolve_right nofun
    · rw [head_text hys]
      cases ys with
      | nil => rfl
      | cons t ys => exact hys'.rel.resolve_left nofun
  · rintro ⟨a, b, rfl, hne, hw, ha, hb⟩
    rw [tokens_append (.inl ha), tokens_append (.inr hb), tokens_of_word hne hw]
    simp

/-! ## Words of a part, and of a text that was edited -/

theorem last_of_signs (h : ∀ c ∈ a, isWord c = false) : (last none a).any isWord = false := by
  induction a using List.reverseRecOn with
  | nil => rfl
  | append_singleton a c _ =>
    rw [last_append]
    exact h c (by simp)

theorem head_of_signs (h : ∀ c ∈ b, isWord c = false) : b.head?.any isWord = false := by
  cases b with
  | nil => rfl
  | cons c b => exact h c List.mem_cons_self

theorem tokens_between (ha : ∀ c ∈ a, isWord c = false) (hb : ∀ c ∈ b, isWord c = false) :
    tokens isWord (a ++ (s ++ b)) = a.map .sign ++ (tokens isWord s ++ b.map .sign) := by
  rw [tokens_append (.inl (last_of_signs ha)), tokens_append (.inr (head_of_signs hb)), tokens_of_signs ha,
    tokens_of_signs hb]

/-- Stripping takes no word away. -/
theorem word_mem_strip (hspace : ∀ c, isSpace c = true → isWord c = false) {w : List Char} :
    .word w ∈ tokens isWord (strip s) ↔ .word w ∈ tokens isWord s := by
  obtain ⟨a, b, hs, ha, hb⟩ := strip_spec s
  conv_rhs => rw [hs]
  rw [tokens_between (fun c hc => hspace c (ha c hc)) (fun c hc => hspace c (hb c hc))]
  simp

/-- The words of what is left when a sign replaces each match. -/
theorem word_mem_sub {r : Re} (hc : isWord c = false) {w : List Char} :
    .word w ∈ tokens isWord (r.sub isWord (fun _ => [c]) s) ↔ ∃ p ∈ r.split isWord s, .word w ∈ tokens isWord p := by
  unfold Re.sub Re.split
  refine Re.cuts_induction (motive := fun _ _ cut =>
    .word w ∈ tokens isWord (cut.1.flatMap (fun x => x.1 ++ [c]) ++ cut.2) ↔
      ∃ p ∈ cut.1.map (·.1) ++ [cut.2], .word w ∈ tokens isWord p) ?_ ?_ _ none s
  · simp
  · intro _ p m cut _ ih
    have hsplit : tokens isWord ((p ++ [c]) ++ (cut.1.flatMap (fun x => x.1 ++ [c]) ++ cut.2)) =
        tokens isWord p ++ .sign c :: tokens isWord (cut.1.flatMap (fun x => x.1 ++ [c]) ++ cut.2) := by
      have hap : ∀ t, Apart isWord (last none p) (c :: t) := fun _ => .inr hc
      rw [List.append_assoc, List.singleton_append, tokens_append (hap _), tokens_cons, hc]
      rfl
    simp only [List.flatMap_cons, List.append_assoc (p ++ [c]), hsplit, List.mem_append, List.mem_cons, reduceCtorEq,
      false_or, ih, List.map_cons, exists_eq_or_imp, List.cons_append]

theorem mem_split {r : Re} {p : List Char} (h : p ∈ r.split isWord s) : ∃ x y, s = x ++ (p ++ y) := by
  unfold Re.split at h
  revert h
  refine Re.cuts_induction (motive := fun _ s cut =>
    p ∈ cut.1.map (·.1) ++ [cut.2] → ∃ x y, s = x ++ (p ++ y)) ?_ ?_ _ none s
  · intro _ s h
    obtain rfl : p = s := by simpa using h
    exact ⟨[], [], by simp⟩
  · intro _ p' m cut _ ih h
    rcases List.mem_cons.1 h with rfl | h
    · exact ⟨[], _, rfl⟩
    · obtain ⟨x, y, hrest⟩ := ih h
      exact ⟨p' ++ (m.text ++ x), y, by rw [hrest]; simp⟩

theorem last_none (s : List Char) : last none s = s.getLast? := by
  induction s using List.reverseRecOn with
  | nil => rfl
  | append_singleton s c _ => simp [last_append]

theorem takeWhile_eq_nil (h : s.head?.any isWord = false) : s.takeWhile isWord = [] := by
  cases s with
  | nil => rfl
  | cons c s => exact List.takeWhile_cons_of_neg (by simpa using h)

/-- A word of a part is a word of the whole unless it touches an end of the part. -/
theorem word_of_part {x p y w : List Char} (h : .word w ∈ tokens isWord p) :
    .word w ∈ tokens isWord (x ++ (p ++ y)) ∨ w = p.takeWhile isWord ∨ w = p.rtakeWhile isWord := by
  obtain ⟨a, b, rfl, hne, hw, ha, hb⟩ := mem_tokens_iff.1 h
  cases b with
  | nil =>
    -- It touches the end of the part, and so it is all that `rtakeWhile` takes.
    refine .inr (.inr ?_)
    rw [last_none] at ha
    rw [List.append_nil, List.rtakeWhile, List.reverse_append,
      List.takeWhile_append_of_pos fun c hc => hw c (List.mem_reverse.1 hc), takeWhile_eq_nil, List.append_nil,
      List.reverse_reverse]
    rwa [List.head?_reverse]
  | cons d b =>
    cases a with
    | nil =>
      refine .inr (.inl ?_)
      rw [List.nil_append, List.takeWhile_append_of_pos hw, takeWhile_eq_nil hb, List.append_nil]
    | cons c a =>
      exact .inl (mem_tokens_iff.2 ⟨x ++ c :: a, d :: (b ++ y), by simp, hne, hw, by rwa [last_append], hb⟩)

theorem word_takeWhile {p : List Char} (h : p.takeWhile isWord ≠ []) : .word (p.takeWhile isWord) ∈ tokens isWord p :=
  mem_tokens_iff.2 ⟨[], p.dropWhile isWord, List.takeWhile_append_dropWhile.symm, h,
    fun _ hc => List.mem_takeWhile_imp hc, rfl, head_dropWhile isWord p⟩

theorem word_rtakeWhile {p : List Char} (h : p.rtakeWhile isWord ≠ []) :
    .word (p.rtakeWhile isWord) ∈ tokens isWord p := by
  refine mem_tokens_iff.2 ⟨p.rdropWhile isWord, [], ?_, h, fun _ hc => List.mem_rtakeWhile_imp hc, ?_, rfl⟩
  · rw [List.append_nil, List.rdropWhile_append_rtakeWhile]
  · rw [last_none]
    exact last_rdropWhile isWord p

end HtapStack.Py
