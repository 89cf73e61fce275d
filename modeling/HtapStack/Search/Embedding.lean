import HtapStack.Lib.FeatureHash
import HtapStack.Lib.PyReal
import Mathlib.Analysis.InnerProductSpace.PiL2
/-!
# The local embedding

`local_embedding` of `backend/app/routes/vector.py`, which embeds a text where no
endpoint does: each token of the lower-cased text is hashed to a dimension and a sign.

`localEmbedding_eq`: on real numbers it is feature hashing of the bag of the text's
longer tokens. `embedding_is_bag`: so there always is a vector, it has length 1, and
neither the tokens' order nor a repetition of the text changes it.
-/

namespace HtapStack.Embedding
open Py

/-- A `str` by its code points, lone surrogates included. -/
abbrev Text := List Nat

/-! ## Lower case -/

/-- `str.lower` of one character, and what decides whether a sigma is final. -/
structure Lowercase where
  lower : Nat → Text
  cased : Nat → Bool
  caseIgnorable : Nat → Bool
  lower_ascii : ∀ c < 128, lower c = [if 65 ≤ c ∧ c ≤ 90 then c + 32 else c]

section
variable (L : Lowercase)

/-- After a cased character and not before one. What comes before is given backwards. -/
def finalSigma (before after : Text) : Bool :=
  (before.dropWhile L.caseIgnorable).head?.any L.cased && !(after.dropWhile L.caseIgnorable).head?.any L.cased

def lowerAfter (before : Text) : Text → Text
  | [] => []
  | c :: s =>
    (if c = 0x3a3 then [if finalSigma L before s then 0x3c2 else 0x3c3] else L.lower c) ++ lowerAfter (c :: before) s

/-- `s.lower()`. -/
def lower (s : Text) : Text := lowerAfter L [] s

/-! ## Tokens -/

/-- The `[a-z0-9]` of `_TOKEN_RE`. -/
def isTokenChar (c : Nat) : Bool := (97 ≤ c && c ≤ 122) || (48 ≤ c && c ≤ 57)

/-- `_TOKEN_RE.findall(s)`: what is not empty between the other characters. -/
def findall (s : Text) : List Text := (s.splitOnP (!isTokenChar ·)).filter (!·.isEmpty)

def tokens (text : Text) : List Text := findall (lower L text)

/-! ## The vector -/

def embeddingDims : Nat := 1536

/-- `hashlib.blake2b(token.encode("utf-8"), digest_size=8).digest()`. -/
abbrev Digest := Vector UInt8 8

/-- `int.from_bytes(digest[:4], "big") % EMBEDDING_DIMS`. -/
def index (digest : Digest) : Nat := (digest.toList.take 4).foldl (fun n b => 256 * n + b.toNat) 0 % embeddingDims

variable {F : Type} (A : Floats F) (digest : Text → Digest)

def sign (digest : Digest) : F := if digest[4] &&& 1 ≠ 0 then A.lit 1 else A.lit (-1)

/-- One token, of which the short ones are skipped. -/
def accumulate (vector : List F) (token : Text) : List F :=
  if token.length < 3 then vector
  else vector.modify (index (digest token)) (A.add · (sign A (digest token)))

def localEmbedding (text : Text) : Except Exn (List F) := do
  let vector := (tokens L text).foldl (accumulate A digest) (List.replicate embeddingDims (A.lit 0))
  let norm ← A.sqrt (vector.foldl (fun sum v => A.add sum (A.mul v v)) (A.lit 0))
  if A.eq norm (A.lit 0) then return vector.set 0 (A.lit 1)
  else vector.mapM (A.div · norm)

/-- The tokens that count, in no order. -/
def bag (text : Text) : Multiset Text := (tokens L text).filter fun t => 3 ≤ t.length

end

/-! ## What the tokens are -/

section
variable {a b : Text} {c : Nat}

theorem findall_append (a b : Text) (h : isTokenChar c = false) : findall (a ++ c :: b) = findall a ++ findall b := by
  rw [findall, List.splitOnP_append_cons _ _ (by rw [h]; rfl), List.filter_append]
  rfl

theorem findall_word {t : Text} (ht : ∀ c ∈ t, isTokenChar c = true) (hne : t ≠ []) : findall t = [t] := by
  have hsplit : t.splitOnP (!isTokenChar ·) = [t] :=
    List.splitOnP_eq_singleton fun c hc => by rw [ht c hc]; rfl
  rw [findall, hsplit, List.filter_cons_of_pos]
  · rfl
  · rw [List.isEmpty_eq_false_iff.2 hne]
    rfl

theorem mem_splitOnP {p : Nat → Bool} {w : Text} (hw : w ∈ a.splitOnP p) : ∀ c ∈ w, p c = false := by
  induction a generalizing w with
  | nil =>
    rw [List.splitOnP_nil, List.mem_singleton] at hw
    simp [hw]
  | cons d a ih =>
    rw [List.splitOnP_cons_eq_if_modifyHead] at hw
    obtain ⟨v, vs, hvs⟩ := List.exists_cons_of_ne_nil (List.splitOnP_ne_nil p a)
    rw [hvs] at hw ih
    split at hw
    · rcases List.mem_cons.1 hw with rfl | hw
      · simp
      · exact ih hw
    · rename_i hd
      rcases List.mem_cons.1 hw with rfl | hw
      · exact List.forall_mem_cons.2 ⟨Bool.eq_false_iff.2 hd, ih List.mem_cons_self⟩
      · exact ih (List.mem_cons_of_mem v hw)

variable (L : Lowercase)

/-- A character in lower case wherever it stands, with one sigma for the two. -/
def plain (c : Nat) : Text := if c = 0x3a3 then [0x3c3] else L.lower c

/-- Which sigma it is makes no difference: neither is of a token. -/
theorem findall_lowerAfter (pre before s : Text) :
    findall (pre ++ lowerAfter L before s) = findall (pre ++ s.flatMap (plain L)) := by
  induction s generalizing pre before with
  | nil => rfl
  | cons c s ih =>
    rw [lowerAfter, List.flatMap_cons, plain]
    by_cases hc : c = 0x3a3
    · -- Whichever it is, what is before it and what is after it are taken apart.
      rw [if_pos hc, if_pos hc, List.singleton_append, List.singleton_append,
        findall_append pre (s.flatMap (plain L)) (by decide), findall_append pre]
      · exact congrArg (findall pre ++ ·) (ih [] (c :: before))
      · split <;> decide
    · rw [if_neg hc, if_neg hc, ← List.append_assoc, ← List.append_assoc]
      exact ih (pre ++ L.lower c) (c :: before)

theorem tokens_eq (text : Text) : tokens L text = findall (text.flatMap (plain L)) :=
  findall_lowerAfter L [] [] text

theorem plain_space : plain L 32 = [32] := by
  rw [plain, if_neg (by decide), L.lower_ascii 32 (by decide)]
  rfl

theorem plain_tokenChar (h : isTokenChar c = true) : plain L c = [c] := by
  have hc : c < 128 ∧ ¬ (65 ≤ c ∧ c ≤ 90) ∧ c ≠ 0x3a3 := by
    simp only [isTokenChar, Bool.or_eq_true, Bool.and_eq_true, decide_eq_true_eq] at h
    omega
  rw [plain, if_neg hc.2.2, L.lower_ascii c hc.1, if_neg hc.2.1]

theorem tokens_append (a b : Text) : tokens L (a ++ 32 :: b) = tokens L a ++ tokens L b := by
  simp only [tokens_eq, List.flatMap_append, List.flatMap_cons, plain_space, List.singleton_append]
  exact findall_append _ _ (by decide)

theorem tokens_spaces (n : Nat) (b : Text) : tokens L (List.replicate n 32 ++ b) = tokens L b := by
  induction n with
  | zero => rfl
  | succ n ih =>
    rw [List.replicate_succ, List.cons_append, ← List.nil_append (32 :: _), tokens_append, ih]
    rfl

theorem tokens_word {t : Text} (ht : ∀ c ∈ t, isTokenChar c = true) (hne : t ≠ []) : tokens L t = [t] := by
  have hplain : t.flatMap (plain L) = t := by
    rw [List.flatMap_congr fun c hc => plain_tokenChar L (ht c hc), List.flatMap_singleton']
  rw [tokens_eq, hplain, findall_word ht hne]

theorem mem_tokens {text t : Text} (ht : t ∈ tokens L text) : t ≠ [] ∧ ∀ c ∈ t, isTokenChar c = true := by
  obtain ⟨hsplit, hne⟩ := List.mem_filter.1 ht
  exact ⟨by simpa using hne, fun c hc => by simpa using mem_splitOnP hsplit c hc⟩

/-- Tokens with a space between them are the tokens again. -/
theorem tokens_joined {ts : List Text} (h : ∀ t ∈ ts, t ≠ [] ∧ ∀ c ∈ t, isTokenChar c = true) :
    tokens L ([32].intercalate ts) = ts := by
  induction ts with
  | nil => rfl
  | cons t ts ih =>
    obtain ⟨⟨hne, ht⟩, hts⟩ := List.forall_mem_cons.1 h
    cases ts with
    | nil => simpa using tokens_word L ht hne
    | cons u ts =>
      rw [List.intercalate_cons_cons, List.append_assoc, List.singleton_append, tokens_append, tokens_word L ht hne,
        ih hts]
      rfl

/-- No case beyond ASCII. -/
def asciiOnly : Lowercase where
  lower c := [if 65 ≤ c ∧ c ≤ 90 then c + 32 else c]
  cased _ := false
  caseIgnorable _ := false
  lower_ascii _ _ := rfl

example : tokens asciiOnly ("DJI-M30 at R2".toList.map Char.toNat) =
    ["dji", "m30", "at", "r2"].map fun s => s.toList.map Char.toNat := by decide

/-- A text as often again as there are gaps, each of some spaces. -/
def repeated (text : Text) (gaps : List Nat) : Text :=
  text ++ gaps.flatMap fun g => List.replicate (g + 1) 32 ++ text

theorem bag_append (a b : Text) : bag L (a ++ 32 :: b) = bag L a + bag L b := by
  rw [bag, tokens_append, List.filter_append, ← Multiset.coe_add, bag, bag]

theorem repeated_cons (text : Text) (g : Nat) (gaps : List Nat) :
    repeated text (g :: gaps) = text ++ 32 :: (List.replicate g 32 ++ repeated text gaps) := by
  simp only [repeated, List.flatMap_cons, List.replicate_succ, List.cons_append, List.append_assoc]

theorem bag_repeated (text : Text) (gaps : List Nat) : bag L (repeated text gaps) = (gaps.length + 1) • bag L text := by
  induction gaps with
  | nil => rw [repeated, List.flatMap_nil, List.append_nil, List.length_nil, Nat.zero_add, one_nsmul]
  | cons g gaps ih =>
    have hspaces : bag L (List.replicate g 32 ++ repeated text gaps) = bag L (repeated text gaps) := by
      rw [bag, tokens_spaces, bag]
    rw [repeated_cons, bag_append, hspaces, ih, List.length_cons, succ_nsmul' (bag L text) (gaps.length + 1)]

end

/-! ## Real numbers -/

section
variable (L : Lowercase) (digest : Text → Digest)

abbrev Space := EuclideanSpace ℝ (Fin embeddingDims)

def coords (v : Space) : List ℝ := List.ofFn v.ofLp

theorem index_lt (d : Digest) : index d < embeddingDims := Nat.mod_lt _ (by decide)

/-- What a token adds. -/
noncomputable def feature (t : Text) : Space :=
  EuclideanSpace.single ⟨index (digest t), index_lt (digest t)⟩ (sign reals (digest t))

/-- Where the norm is 0. -/
noncomputable def fallback : Space := EuclideanSpace.single ⟨0, by decide⟩ 1

theorem length_coords (v : Space) : (coords v).length = embeddingDims := List.length_ofFn

theorem coords_zero : coords 0 = List.replicate embeddingDims 0 := by
  rw [coords]
  exact List.ofFn_const embeddingDims 0

theorem coords_modify (v : Space) (i : Fin embeddingDims) (x : ℝ) :
    (coords v).modify i (· + x) = coords (EuclideanSpace.single i x + v) := by
  apply List.ext_getElem
  · rw [List.length_modify, length_coords, length_coords]
  intro j hj hj'
  rw [List.getElem_modify]
  simp only [coords, List.getElem_ofFn, PiLp.add_apply, PiLp.single_apply, Fin.ext_iff]
  by_cases hij : i.val = j
  · rw [if_pos hij, if_pos hij.symm, add_comm]
  · rw [if_neg hij, if_neg (Ne.symm hij), zero_add]

theorem accumulate_long {t : Text} (ht : 3 ≤ t.length) (v : Space) :
    accumulate reals digest (coords v) t = coords (feature digest t + v) := by
  rw [accumulate, if_neg (by omega)]
  exact coords_modify v ⟨_, index_lt (digest t)⟩ (sign reals (digest t))

theorem foldl_accumulate (ts : List Text) (v : Space) : ts.foldl (accumulate reals digest) (coords v) =
    coords (FeatureHash.bag (feature digest) (ts.filter fun t => 3 ≤ t.length : List Text) + v) := by
  induction ts generalizing v with
  | nil => rw [List.foldl_nil, List.filter_nil, Multiset.coe_nil, FeatureHash.bag_zero, zero_add]
  | cons t ts ih =>
    rw [List.foldl_cons]
    by_cases ht : 3 ≤ t.length
    · rw [accumulate_long digest ht, ih, List.filter_cons_of_pos (by simpa using ht), ← Multiset.cons_coe,
        FeatureHash.bag_cons, add_left_comm, add_assoc]
    · rw [accumulate, if_pos (by omega), ih, List.filter_cons_of_neg (by simpa using ht)]

theorem sum_squares (v : Space) : ((coords v).map (· ^ 2)).sum = ‖v‖ ^ 2 := by
  rw [coords, List.map_ofFn, List.sum_ofFn, EuclideanSpace.real_norm_sq_eq]
  rfl

/-- The norm as the loop computes it. -/
theorem sqrt_squares (v : Space) :
    reals.sqrt ((coords v).foldl (fun sum x => reals.add sum (reals.mul x x)) (reals.lit 0)) = .ok ‖v‖ := by
  have hfold : (coords v).foldl (fun sum x => reals.add sum (reals.mul x x)) (reals.lit 0) = ‖v‖ ^ 2 := by
    rw [← sum_squares, List.sum_eq_foldl, List.foldl_map]
    simp only [reals_add, reals_mul, reals_lit, Rat.cast_zero, sq]
  rw [hfold, reals_sqrt, if_neg (not_lt.2 (sq_nonneg ‖v‖)), Real.sqrt_sq (norm_nonneg v)]

theorem coords_set : (coords 0).set 0 (reals.lit 1) = coords fallback := by
  apply List.ext_getElem
  · rw [List.length_set, length_coords, length_coords]
  intro j hj hj'
  rw [List.getElem_set]
  simp only [coords, List.getElem_ofFn, fallback, PiLp.single_apply, Fin.ext_iff]
  by_cases hj0 : 0 = j
  · rw [if_pos hj0, if_pos hj0.symm, reals_lit, Rat.cast_one]
  · rw [if_neg hj0, if_neg (Ne.symm hj0)]
    rfl

theorem mapM_div (v : Space) {r : ℝ} (hr : r ≠ 0) : (coords v).mapM (reals.div · r) = .ok (coords (r⁻¹ • v)) := by
  have hdiv : (reals.div · r) = fun x => (pure (r⁻¹ * x) : Except Exn ℝ) := by
    funext x
    rw [reals_div x hr, div_eq_inv_mul]
    rfl
  rw [hdiv, List.mapM_pure, coords, List.map_ofFn]
  rfl

/-- What the code computes is feature hashing of the bag. -/
theorem localEmbedding_eq (text : Text) : localEmbedding L reals digest text =
    .ok (coords (FeatureHash.embed fallback (feature digest) (bag L text))) := by
  have hvector : (tokens L text).foldl (accumulate reals digest) (List.replicate embeddingDims (reals.lit 0)) =
      coords (FeatureHash.bag (feature digest) (bag L text)) := by
    rw [reals_lit, Rat.cast_zero, ← coords_zero, foldl_accumulate, add_zero, bag]
  unfold localEmbedding FeatureHash.embed
  rw [hvector]
  generalize FeatureHash.bag (feature digest) (bag L text) = v
  dsimp only
  rw [sqrt_squares, ok_bind, reals_eq, reals_lit, Rat.cast_zero]
  by_cases hv : v = 0
  · -- The features cancel each other, or there are none.
    rw [hv, norm_zero, FeatureHash.direction_zero, decide_eq_true rfl, if_pos rfl, coords_set]
    rfl
  · have hnorm : ‖v‖ ≠ 0 := norm_ne_zero_iff.2 hv
    rw [decide_eq_false hnorm, if_neg Bool.false_ne_true, mapM_div v hnorm, FeatureHash.direction_of_ne_zero _ hv]
    rfl

theorem norm_fallback : ‖fallback‖ = 1 := by
  rw [fallback, PiLp.norm_single, norm_one]

/-! ## A unit vector of the bag -/

theorem embedding_is_bag (text : Text) : ∃ vector, localEmbedding L reals digest text = .ok vector ∧
    vector.length = embeddingDims ∧ √((vector.map (· ^ 2)).sum) = 1 ∧
    (∀ text', bag L text' = bag L text → localEmbedding L reals digest text' = .ok vector) ∧
    (∀ ts, ts.Perm (tokens L text) → localEmbedding L reals digest ([32].intercalate ts) = .ok vector) ∧
    ∀ gaps, localEmbedding L reals digest (repeated text gaps) = .ok vector := by
  have hbag : ∀ text', bag L text' = bag L text → localEmbedding L reals digest text' =
      .ok (coords (FeatureHash.embed fallback (feature digest) (bag L text))) := by
    intro text' h
    rw [localEmbedding_eq, h]
  refine ⟨_, hbag text rfl, length_coords _, ?_, hbag, ?_, ?_⟩
  · rw [sum_squares, FeatureHash.norm_embed norm_fallback, one_pow, Real.sqrt_one]
  · intro ts hts
    apply hbag
    rw [bag, tokens_joined L fun t ht => mem_tokens L (hts.subset ht), bag]
    exact Multiset.coe_eq_coe.2 (hts.filter _)
  · intro gaps
    -- More of the same bag has the same direction.
    rw [localEmbedding_eq, bag_repeated, FeatureHash.embed_nsmul _ _ _ (Nat.succ_ne_zero _)]

end

end HtapStack.Embedding
