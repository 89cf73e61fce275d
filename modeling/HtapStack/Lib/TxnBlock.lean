import Mathlib.Tactic.Common
/-!
# Transaction blocks

What the statements of a PostgreSQL session do to its transaction block. A message
holds one statement or several and is run until one of them fails: outside a
transaction block its statements are a transaction of their own, and a block that
one of them begins lasts until a statement of this or a later message ends it.

Every statement is somebody's, and a session's events say in whose block it ran and
whose statements the end of a transaction decides on.

- `message_own`: in a session that is nobody else's, whoever sends a message runs
  and ends nothing but their own.
- `message_closed`, `message_opened`: whether a message that runs to its end leaves
  a block open can be told from its statements (`leavesOpen`).

Left out: two-phase commit, which has to be switched on.
-/

namespace HtapStack.TxnBlock

/-- A statement, by what it does to the block. -/
inductive Stmt where
  | begin
  | commit (chain : Bool)
  | rollback (chain : Bool)
  | rollbackTo
  | plain
  deriving DecidableEq, Repr

/-- It goes through, it is refused or fails, or the connection is lost. -/
inductive Fate where
  | ok
  | error
  | lost
  deriving DecidableEq, Repr

inductive Block (R : Type) where
  | idle
  /-- The transaction that a message has for itself. -/
  | implicit
  | explicit (opener : R)
  | failed (opener : R)
  deriving DecidableEq, Repr

variable {R : Type}

def Block.opener : Block R → Option R
  | .idle | .implicit => none
  | .explicit opener | .failed opener => some opener

/-- `writers` sent the statements of the transaction at hand. -/
structure Session (R : Type) where
  block : Block R
  writers : List R
  deriving DecidableEq, Repr

def Session.fresh : Session R := ⟨.idle, []⟩

inductive Event (R : Type) where
  /-- A statement of `r` ran, maybe in a block that `opener` began. -/
  | ran (r : R) (opener : Option R)
  /-- A statement of `r` ended the transaction of these. -/
  | ended (r : R) (writers : List R)
  deriving DecidableEq, Repr

structure Answer (R : Type) where
  session : Session R
  events : List (Event R)
  raised : Bool

def Session.ends (s : Session R) (r : R) (block : Block R) (raised : Bool) : Answer R :=
  ⟨⟨block, []⟩, [.ended r s.writers], raised⟩

def Session.stays (s : Session R) (raised : Bool) : Answer R := ⟨s, [], raised⟩

/-- `AND CHAIN` begins the next block. -/
def nextBlock (r : R) (chain : Bool) : Block R := if chain then .explicit r else .idle

/-- Outside a block, where the rest of the message would be undone too. -/
def Session.outside (s : Session R) (r : R) : Stmt → Bool → Answer R
  | .begin, true => Session.stays { s with block := .explicit r } false
  | .commit false, true | .rollback false, true => s.ends r .idle false
  | .plain, true => Session.stays ⟨.implicit, r :: s.writers⟩ false
  | _, _ => s.ends r .idle true

def Session.inside (s : Session R) (r opener : R) : Stmt → Bool → Answer R
  | .commit chain, true | .rollback chain, true => s.ends r (nextBlock r chain) false
  | .commit _, false | .rollback _, false => s.ends r .idle true
  | .begin, true | .rollbackTo, true => s.stays false
  | .plain, true => Session.stays { s with writers := r :: s.writers } false
  | _, false => Session.stays { s with block := .failed opener } true

/-- In a block where a statement failed, all but its end and a savepoint is refused. -/
def Session.afterFailure (s : Session R) (r opener : R) : Stmt → Bool → Answer R
  | .commit chain, true | .rollback chain, true => s.ends r (nextBlock r chain) false
  | .rollbackTo, true => Session.stays { s with block := .explicit opener } false
  | _, _ => s.stays true

/-- What one statement of `r` does. -/
def Session.reaction (s : Session R) (r : R) (k : Stmt) (fate : Fate) : Answer R :=
  match fate, s.block with
  | .lost, _ => s.ends r .idle true
  | fate, .idle | fate, .implicit => s.outside r k (fate == .ok)
  | fate, .explicit opener => s.inside r opener k (fate == .ok)
  | fate, .failed opener => s.afterFailure r opener k (fate == .ok)

/-- The message's statements, each with its fate; the last is that of the commit at its end. -/
def Session.message (r : R) (s : Session R) : List Stmt → List Fate → Answer R
  | [], fates =>
    match s.block with
    | .implicit => s.ends r .idle (fates.headD .ok != .ok)
    | _ => s.stays false
  | k :: ks, fates =>
    let a := s.reaction r k (fates.headD .ok)
    if a.raised then ⟨a.session, .ran r s.block.opener :: a.events, true⟩
    else
      let rest := a.session.message r ks fates.tail
      { rest with events := .ran r s.block.opener :: (a.events ++ rest.events) }

/-- The statements, run in a block or not, leave one open if none of them fails. -/
def leavesOpen : Bool → List Stmt → Bool
  | inBlock, [] => inBlock
  | _, .begin :: ks => leavesOpen true ks
  | inBlock, .commit chain :: ks | inBlock, .rollback chain :: ks =>
    (inBlock || !chain) && leavesOpen (inBlock && chain) ks
  | inBlock, .rollbackTo :: ks => inBlock && leavesOpen inBlock ks
  | inBlock, .plain :: ks => leavesOpen inBlock ks

/-! ## Statements -/

/-- Nobody's statements but those of `r`. -/
def Event.Own : Event R → Prop
  | .ran r opener => ∀ q, opener = some q → q = r
  | .ended r writers => ∀ w ∈ writers, w = r

/-- The session is nobody's but that of `r`. -/
structure Session.Of (r : R) (s : Session R) : Prop where
  opener : ∀ q, s.block.opener = some q → q = r
  writers : ∀ w ∈ s.writers, w = r

/-- It is in a block that `opener` began, and outside one there is nothing to be decided on. -/
structure Session.In (inBlock : Bool) (s : Session R) : Prop where
  block : if inBlock then ∃ opener, s.block = .explicit opener else s.block = .idle ∨ s.block = .implicit
  idle : s.block = .idle → s.writers = []

section
variable {r : R} {s : Session R} {k : Stmt} {ks : List Stmt} {fate : Fate} {fates : List Fate} {inBlock : Bool}

theorem of_fresh (r : R) : (Session.fresh : Session R).Of r := ⟨fun _ h => (nomatch h), fun _ h => nomatch h⟩

theorem in_fresh : (Session.fresh : Session R).In false := ⟨.inl rfl, fun _ => rfl⟩

/-! ## Whose the statements are -/

/-- The events are of `r` alone, and so is the session that is left. -/
def Answer.Own (r : R) (a : Answer R) : Prop := (∀ e ∈ a.events, e.Own) ∧ a.session.Of r

theorem Session.Of.stays (h : s.Of r) (raised : Bool) : (s.stays raised).Own r := ⟨fun _ he => (nomatch he), h⟩

theorem Session.Of.ends (h : s.Of r) {block : Block R} (hblock : ∀ q, block.opener = some q → q = r) (raised : Bool) :
    (s.ends r block raised).Own r :=
  ⟨fun _ he => List.mem_singleton.1 he ▸ h.writers, hblock, fun _ hw => nomatch hw⟩

theorem idle_opener {q : R} (h : (Block.idle : Block R).opener = some q) : q = r := nomatch h

theorem explicit_opener {opener q : R} (hr : opener = r) (h : (Block.explicit opener).opener = some q) : q = r :=
  (Option.some.inj h).symm.trans hr

theorem failed_opener {opener q : R} (hr : opener = r) (h : (Block.failed opener).opener = some q) : q = r :=
  (Option.some.inj h).symm.trans hr

theorem nextBlock_opener {r q : R} {chain : Bool} (h : (nextBlock r chain).opener = some q) : q = r := by
  cases chain with
  | false => exact idle_opener h
  | true => exact explicit_opener rfl h

theorem Session.Of.wrote (h : s.Of r) : ∀ w ∈ r :: s.writers, w = r := by
  intro w hw
  rcases List.mem_cons.1 hw with rfl | hw
  · rfl
  · exact h.writers w hw

theorem outside_own (h : s.Of r) (k : Stmt) (ok : Bool) : (s.outside r k ok).Own r := by
  unfold Session.outside
  split
  · refine Session.Of.stays ?_ _
    exact ⟨fun _ => explicit_opener rfl, h.writers⟩
  · exact h.ends (fun _ => idle_opener) _
  · exact h.ends (fun _ => idle_opener) _
  · refine Session.Of.stays ?_ _
    exact ⟨fun _ hq => (nomatch hq), h.wrote⟩
  · exact h.ends (fun _ => idle_opener) _

theorem inside_own (h : s.Of r) {opener : R} (hopener : opener = r) (k : Stmt) (ok : Bool) :
    (s.inside r opener k ok).Own r := by
  unfold Session.inside
  split
  · exact h.ends (fun _ => nextBlock_opener) _
  · exact h.ends (fun _ => nextBlock_opener) _
  · exact h.ends (fun _ => idle_opener) _
  · exact h.ends (fun _ => idle_opener) _
  · exact h.stays _
  · exact h.stays _
  · refine Session.Of.stays ?_ _
    exact ⟨h.opener, h.wrote⟩
  · refine Session.Of.stays ?_ _
    exact ⟨fun _ => failed_opener hopener, h.writers⟩

theorem afterFailure_own (h : s.Of r) {opener : R} (hopener : opener = r) (k : Stmt) (ok : Bool) :
    (s.afterFailure r opener k ok).Own r := by
  unfold Session.afterFailure
  split
  · exact h.ends (fun _ => nextBlock_opener) _
  · exact h.ends (fun _ => nextBlock_opener) _
  · refine Session.Of.stays ?_ _
    exact ⟨fun _ => explicit_opener hopener, h.writers⟩
  · exact h.stays _

theorem reaction_own (h : s.Of r) (k : Stmt) (fate : Fate) : (s.reaction r k fate).Own r := by
  unfold Session.reaction
  split
  · exact h.ends (fun _ => idle_opener) _
  · exact outside_own h k _
  · exact outside_own h k _
  · next hblock => exact inside_own h (h.opener _ (by rw [hblock]; rfl)) k _
  · next hblock => exact afterFailure_own h (h.opener _ (by rw [hblock]; rfl)) k _

/-- Who sends a message over a session of their own runs and ends nothing of anybody else. -/
theorem message_own (h : s.Of r) (ks : List Stmt) (fates : List Fate) : (s.message r ks fates).Own r := by
  induction ks generalizing s fates with
  | nil =>
    unfold Session.message
    split
    · exact h.ends (fun _ => idle_opener) _
    · exact h.stays _
  | cons k ks ih =>
    obtain ⟨hevents, hs⟩ := reaction_own h k (fates.headD .ok)
    have hrest := ih hs fates.tail
    simp only [Session.message]
    split
    · exact ⟨List.forall_mem_cons.2 ⟨h.opener, hevents⟩, hs⟩
    · exact ⟨List.forall_mem_cons.2 ⟨h.opener, List.forall_mem_append.2 ⟨hevents, hrest.1⟩⟩, hrest.2⟩

/-- A message runs its first statement where the session is. -/
theorem ran_mem_message (r : R) (s : Session R) (fates : List Fate) (hks : ks ≠ []) :
    .ran r s.block.opener ∈ (s.message r ks fates).events := by
  cases ks with
  | nil => exact absurd rfl hks
  | cons k ks =>
    simp only [Session.message]
    split <;> exact List.mem_cons_self

/-! ## What a message leaves -/

theorem nextBlock_in (r : R) (chain : Bool) : (⟨nextBlock r chain, []⟩ : Session R).In chain := by
  cases chain with
  | false => exact in_fresh
  | true => exact ⟨⟨r, rfl⟩, fun _ => rfl⟩

theorem outside_in (k : Stmt) {ok : Bool} (hok : (s.outside r k ok).raised = false) :
    ∃ b, (s.outside r k ok).session.In b ∧ ∀ ks, leavesOpen false (k :: ks) = leavesOpen b ks := by
  revert hok
  unfold Session.outside
  split
  · exact fun _ => ⟨true, ⟨⟨r, rfl⟩, fun h => nomatch h⟩, fun _ => rfl⟩
  · exact fun _ => ⟨false, in_fresh, fun _ => by simp [leavesOpen]⟩
  · exact fun _ => ⟨false, in_fresh, fun _ => by simp [leavesOpen]⟩
  · exact fun _ => ⟨false, ⟨.inr rfl, fun h => nomatch h⟩, fun _ => rfl⟩
  · exact fun hok => nomatch hok

theorem inside_in {opener : R} (h : s.block = .explicit opener) (k : Stmt) {ok : Bool}
    (hok : (s.inside r opener k ok).raised = false) :
    ∃ b, (s.inside r opener k ok).session.In b ∧ ∀ ks, leavesOpen true (k :: ks) = leavesOpen b ks := by
  have hstays (writers : List R) : (⟨s.block, writers⟩ : Session R).In true :=
    ⟨⟨opener, h⟩, fun hidle => nomatch h.symm.trans hidle⟩
  revert hok
  unfold Session.inside
  split
  · exact fun _ => ⟨_, nextBlock_in r _, fun _ => by simp [leavesOpen]⟩
  · exact fun _ => ⟨_, nextBlock_in r _, fun _ => by simp [leavesOpen]⟩
  · exact fun hok => nomatch hok
  · exact fun hok => nomatch hok
  · exact fun _ => ⟨true, hstays _, fun _ => rfl⟩
  · exact fun _ => ⟨true, hstays _, fun _ => by simp [leavesOpen]⟩
  · exact fun _ => ⟨true, hstays _, fun _ => rfl⟩
  · exact fun hok => nomatch hok

/-- A statement that goes through leaves the session where `leavesOpen` is next. -/
theorem reaction_in (h : s.In inBlock) (k : Stmt) {fate : Fate} (hok : (s.reaction r k fate).raised = false) :
    ∃ b, (s.reaction r k fate).session.In b ∧ ∀ ks, leavesOpen inBlock (k :: ks) = leavesOpen b ks := by
  cases fate with
  | lost => cases hok
  | ok | error =>
    cases inBlock with
    | false =>
      obtain hblock | hblock := h.block
      all_goals
        simp only [Session.reaction, hblock] at hok ⊢
        exact outside_in k hok
    | true =>
      obtain ⟨opener, hblock⟩ := h.block
      simp only [Session.reaction, hblock] at hok ⊢
      exact inside_in hblock k hok

theorem message_in (h : s.In inBlock) (ks : List Stmt) {fates : List Fate}
    (hok : (s.message r ks fates).raised = false) :
    (s.message r ks fates).session.In (leavesOpen inBlock ks) ∧ (s.message r ks fates).session.block ≠ .implicit := by
  induction ks generalizing s inBlock fates with
  | nil =>
    revert hok
    unfold Session.message
    split
    · next himplicit =>
      cases inBlock with
      | false => exact fun _ => ⟨in_fresh, fun h => nomatch h⟩
      | true =>
        obtain ⟨opener, hblock⟩ := h.block
        cases himplicit.symm.trans hblock
    · exact fun _ => ⟨h, ‹_›⟩
  | cons k ks ih =>
    simp only [Session.message] at hok ⊢
    split at hok
    · cases hok
    · next hraised =>
      rw [if_neg hraised]
      obtain ⟨b, hb, hleaves⟩ := reaction_in h k (Bool.not_eq_true _ ▸ hraised)
      rw [hleaves]
      exact ih hb hok

/-- A message that closes what it opens leaves the session as new. -/
theorem message_closed (h : s.In inBlock) (hclosed : leavesOpen inBlock ks = false)
    (hok : (s.message r ks fates).raised = false) : (s.message r ks fates).session = .fresh := by
  obtain ⟨hin, himplicit⟩ := message_in h ks hok
  rw [hclosed] at hin
  obtain hidle | hblock := hin.block
  · exact congrArg₂ Session.mk hidle (hin.idle hidle)
  · exact absurd hblock himplicit

/-- One that leaves a block open does so in a run where nothing fails. -/
theorem message_opened (h : s.In inBlock) (hopen : leavesOpen inBlock ks = true) :
    (s.message r ks []).raised = false ∧ ∃ opener, (s.message r ks []).session.block = .explicit opener := by
  have hok : (s.message r ks []).raised = false := by
    induction ks generalizing s inBlock with
    | nil =>
      cases hopen
      obtain ⟨opener, hblock⟩ := h.block
      rw [Session.message, hblock]
      rfl
    | cons k ks ih =>
      have hk : (s.reaction r k .ok).raised = false := by
        cases inBlock with
        | false =>
          obtain hblock | hblock := h.block
          all_goals
            simp only [Session.reaction, hblock]
            cases k with
            | rollbackTo => cases hopen
            | commit chain | rollback chain => cases chain <;> first | rfl | cases hopen
            | _ => rfl
        | true =>
          obtain ⟨opener, hblock⟩ := h.block
          simp only [Session.reaction, hblock]
          cases k <;> rfl
      obtain ⟨b, hb, hleaves⟩ := reaction_in h k hk
      simp only [Session.message, List.headD_nil, List.tail_nil, hk, Bool.false_eq_true, if_false]
      exact ih hb (hleaves ks ▸ hopen)
  have hin := (message_in h ks hok).1
  rw [hopen] at hin
  exact ⟨hok, hin.block⟩

end

end HtapStack.TxnBlock
