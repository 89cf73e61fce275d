import HtapStack.Lib.Cursor
import HtapStack.Streaming.TailLoop
/-!
# Following the CDC tail

`GET /api/streaming/cdc` of `backend/app/routes/streaming.py`, polled as its
docstring says: with `since`, the number of the newest record the client has, to
receive only what is new. The tail goes on in between, in any way its loop can:
records arrive, the broker fails, everything is attached again.

`follow_exact`: what the client has received is in order, nothing twice, and after
a poll it has the newest record; it has missed nothing since its first one exactly
when every poll found no more new records than the buffer holds and the client
asked for.
-/

namespace HtapStack.Follow
open CdcTail TailLoop Runs Cursor

variable {F Schema : Type} {size : Nat}

/-- `CdcTail.records`. -/
def records (t : Tail F Schema size) (limit : Nat) (since : Option Int) : List (Record F) :=
  let newestFirst := t.buffer.items.reverse
  let newestFirst := match since with
    | none => newestFirst
    | some n => newestFirst.filter fun r => n < r.seq
  newestFirst.take limit

/-- `Query(50, ge=1, le=500)`. -/
structure Limit where
  value : Nat
  one_le : 1 ≤ value
  le : value ≤ 500

/-- What the client has, oldest first, and what it passes as `since`. -/
structure Client (F : Type) where
  held : List (Record F)
  since : Option Int

def Client.receive (c : Client F) (page : List (Record F)) : Client F where
  held := c.held ++ page.reverse
  since := match page with
    | [] => c.since
    | r :: _ => some r.seq

/-- The last two fields are not the code's: every record that ever went into the
buffer, and how many there were at the last poll. -/
structure Stream (F Schema : Type) (size : Nat) where
  loop : Loop F Schema size
  client : Client F
  log : List (Record F)
  seen : Nat

def start : Stream F Schema size := ⟨init, ⟨[], none⟩, [], 0⟩

inductive Act (F Schema : Type) where
  | tail (a : Action F Schema)
  | poll (limit : Limit)

section
variable (I : Interp F) (reader : List UInt8 → Schema → Except Fault (Value F)) (describe : Exn → Fault)
  (topic : Text)

/-- The record that a step of the tail puts into the buffer. -/
def appended (s : Loop F Schema size) (a : Action F Schema) : List (Record F) :=
  match s.pc, a with
  | .ingest (m :: _), .decode answer =>
    match (decode I reader { s.tail with consumed := s.tail.consumed + 1 } m answer).2 with
    | .ok record => [record]
    | .error _ => []
  | _, _ => []

def follow (s : Stream F Schema size) : Act F Schema → Option (Stream F Schema size)
  | .tail a => (step I reader describe topic s.loop a).map fun loop =>
      { s with loop := loop, log := s.log ++ appended I reader s.loop a }
  | .poll limit => some { s with
      client := s.client.receive (records s.loop.tail limit.value s.client.since)
      seen := s.log.length }

end

/-- A poll that is not the first finds no more than it can be given. -/
def KeepsUp (s : Stream F Schema size) : Act F Schema → Prop
  | .tail _ => True
  | .poll limit => s.client.held ≠ [] → s.log.length - s.seen ≤ min limit.value size

/-- At the last poll nothing was missing after the first record that the client has. -/
def Gapless (s : Stream F Schema size) : Prop := s.client.held <:+ s.log.take s.seen

/-- In order, nothing twice, and up to the newest record at the last poll. -/
structure Faithful (s : Stream F Schema size) : Prop where
  ordered : s.client.held.Pairwise (·.seq < ·.seq)
  sublist : s.client.held.Sublist s.log
  latest : 0 < size → s.client.held.getLast? = (s.log.take s.seen).getLast?

variable {I : Interp F} {reader : List UInt8 → Schema → Except Fault (Value F)} {describe : Exn → Fault}
  {topic : Text} {s s' : Stream F Schema size}

/-! ## The log -/

/-- A step of the tail leaves the buffer alone, or puts one record into it with the next number. -/
theorem step_appends {l l' : Loop F Schema size} {a : Action F Schema}
    (h : step I reader describe topic l a = some l') :
    (appended I reader l a = [] ∧ l'.tail.buffer = l.tail.buffer ∧ l.tail.seq ≤ l'.tail.seq) ∨
      ∃ record, appended I reader l a = [record] ∧ l'.tail.buffer = l.tail.buffer.append record ∧
        record.seq = l.tail.seq + 1 ∧ l'.tail.seq = l.tail.seq + 1 := by
  have hstep := stepped h
  clear h
  cases hstep with
  | @decoded m messages answer t record hpc h =>
    obtain ⟨hseq, hbuffer, hrecord⟩ := decode_numbered h
    refine .inr ⟨record, ?_, ?_, (hrecord record rfl).1, hseq⟩
    · simp only [appended, hpc, h]
    · show t.buffer.append record = _
      rw [hbuffer]
  | @decodeRaised m messages answer t e hpc h =>
    obtain ⟨hseq, hbuffer, -⟩ := decode_numbered h
    refine .inl ⟨?_, hbuffer, ?_⟩
    · simp only [appended, hpc, h]
    · exact (Nat.le_succ _).trans hseq.ge
  | running hpc h | attached hpc h | attachRaised hpc h =>
    obtain ⟨-, -, hbuffer, hseq, -⟩ := attachStep_frame h
    refine .inl ⟨?_, hbuffer, hseq.ge⟩
    simp only [appended, hpc]
  | abandoned hab h =>
    obtain ⟨-, -, hbuffer, hseq, -⟩ := attachStep_frame h
    refine .inl ⟨?_, hbuffer, hseq.ge⟩
    unfold appended
    split <;> simp_all
  | closed hpc | ended hpc | cancelClose hpc =>
    have htail := (frame_closeConsumer (s := l)).2.2.2
    refine .inl ⟨?_, congrArg _ htail, (congrArg Tail.seq htail).ge⟩
    simp only [appended, hpc]
  | _ =>
    refine .inl ⟨?_, rfl, le_rfl⟩
    unfold appended
    split <;> simp_all

/-- The buffer is the end of the log, and the client has some of what was there at its last poll. -/
structure Followed (s : Stream F Schema size) : Prop where
  window : s.loop.tail.buffer.items = s.log.rtake size
  sorted : s.log.Pairwise (·.seq < ·.seq)
  bounded : ∀ r ∈ s.log, r.seq ≤ s.loop.tail.seq
  seen : s.seen ≤ s.log.length
  held : s.client.held.Sublist (s.log.take s.seen)
  since : s.client.since = s.client.held.getLast?.map fun r => (r.seq : Int)
  latest : 0 < size → s.client.held.getLast? = (s.log.take s.seen).getLast?

theorem followed_start : Followed (start : Stream F Schema size) where
  window := (List.rtake_nil size).symm
  sorted := .nil
  bounded := fun _ hr => absurd hr List.not_mem_nil
  seen := le_rfl
  held := .slnil
  since := rfl
  latest := fun _ => rfl

theorem Followed.faithful (h : Followed s) : Faithful s where
  ordered := (h.sorted.sublist (List.take_sublist _ _)).sublist h.held
  sublist := h.held.trans (List.take_sublist _ _)
  latest := h.latest

theorem Followed.nodup (h : Followed s) : s.log.Nodup :=
  h.sorted.imp fun hlt heq => hlt.ne (congrArg Record.seq heq)

theorem Followed.tail {a : Action F Schema} (h : Followed s)
    (hstep : follow I reader describe topic s (.tail a) = some s') :
    Followed s' ∧ s'.client = s.client ∧ s'.seen = s.seen ∧ s'.log.take s'.seen = s.log.take s.seen := by
  obtain ⟨l', hl, rfl⟩ := Option.map_eq_some_iff.1 hstep
  have htake : (s.log ++ appended I reader s.loop a).take s.seen = s.log.take s.seen :=
    List.take_append_of_le_length h.seen
  refine ⟨?_, rfl, rfl, htake⟩
  obtain ⟨hnone, hbuffer, hseq⟩ | ⟨record, hone, hbuffer, hnumber, hseq⟩ := step_appends hl
  · rw [hnone, List.append_nil]
    exact { h with
      window := (congrArg Deque.items hbuffer).trans h.window
      bounded := fun r hr => (h.bounded r hr).trans hseq }
  · rw [hone] at htake ⊢
    refine ⟨?_, ?_, ?_, ?_, ?_, h.since, ?_⟩
    · show l'.tail.buffer.items = _
      rw [hbuffer]
      show (s.loop.tail.buffer.items ++ [record]).rtake size = _
      rw [h.window, rtake_concat]
    · refine List.pairwise_append.2 ⟨h.sorted, List.pairwise_singleton _ _, fun r hr r' hr' => ?_⟩
      rw [List.mem_singleton.1 hr', hnumber]
      exact Nat.lt_succ_of_le (h.bounded r hr)
    · intro r hr
      show r.seq ≤ l'.tail.seq
      rw [hseq]
      rcases List.mem_append.1 hr with hr | hr
      · exact (h.bounded r hr).trans (Nat.le_succ _)
      · rw [List.mem_singleton.1 hr, hnumber]
    · exact h.seen.trans (List.length_append ▸ Nat.le_add_right _ _)
    · exact htake.symm ▸ h.held
    · exact htake.symm ▸ h.latest

/-! ## A poll -/

/-- A page is the last of the new records, newest first. -/
theorem Followed.page (h : Followed s) (limit : Nat) : records s.loop.tail limit s.client.since =
    ((s.log.drop s.seen).rtake (min limit size)).reverse := by
  have hnew : (match s.client.since with
      | none => s.loop.tail.buffer.items.reverse
      | some n => s.loop.tail.buffer.items.reverse.filter fun r => n < r.seq) =
      ((s.log.drop s.seen).rtake size).reverse := by
    rw [h.window, h.since]
    rcases Nat.eq_zero_or_pos size with rfl | hsize
    · have hempty (l : List (Record F)) : l.rtake 0 = [] := by simp [List.rtake]
      rw [hempty, hempty]
      cases s.client.held.getLast? <;> rfl
    · rw [h.latest hsize]
      cases hlast : (s.log.take s.seen).getLast? with
      | none =>
        have hnone := List.getLast?_eq_none_iff.1 hlast
        have hlog : s.log.drop s.seen = s.log := by
          rw [← List.take_append_drop s.seen s.log, hnone, List.nil_append, List.drop_drop]
          rcases List.take_eq_nil_iff.1 hnone with hseen | hempty
          · rw [hseen]
          · simp [hempty]
        rw [hlog]
        rfl
      | some last =>
        obtain ⟨init, hinit⟩ := List.getLast?_eq_some_iff.1 hlast
        have hsorted := h.sorted
        rw [← List.take_append_drop s.seen s.log] at hsorted
        obtain ⟨hold, -, hcross⟩ := List.pairwise_append.1 hsorted
        have hmem : last ∈ s.log.take s.seen := hinit ▸ List.mem_append_right _ List.mem_cons_self
        have hle : ∀ r ∈ s.log.take s.seen, r.seq ≤ last.seq := by
          rw [hinit] at hold ⊢
          intro r hr
          rcases List.mem_append.1 hr with hr | hr
          · exact ((List.pairwise_append.1 hold).2.2 r hr last List.mem_cons_self).le
          · rw [List.mem_singleton.1 hr]
        conv_lhs => rw [← List.take_append_drop s.seen s.log]
        show List.filter (fun r : Record F => decide ((last.seq : Int) < r.seq)) (List.reverse _) = _
        rw [List.filter_reverse, filter_rtake]
        · intro r hr
          have := hle r hr
          exact decide_eq_false (by omega)
        · intro r hr
          have := hcross last hmem r hr
          exact decide_eq_true (by omega)
  unfold records
  rw [← rtake_rtake, ← take_reverse, ← hnew]

/-- What the client has after a poll. -/
theorem Followed.polled {limit : Limit} (h : Followed s)
    (hstep : follow I reader describe topic s (.poll limit) = some s') :
    Followed s' ∧ s'.log = s.log ∧ s'.seen = s.log.length ∧
      s'.client.held = s.client.held ++ (s.log.drop s.seen).rtake (min limit.value size) := by
  cases hstep
  set fresh := s.log.drop s.seen with hfresh
  have hlog : s.log.take s.seen ++ fresh = s.log := List.take_append_drop _ _
  have hpage := h.page limit.value
  have hheld : (s.client.receive (records s.loop.tail limit.value s.client.since)).held =
      s.client.held ++ fresh.rtake (min limit.value size) := by
    rw [hpage]
    exact congrArg _ (List.reverse_reverse _)
  refine ⟨⟨h.window, h.sorted, h.bounded, le_rfl, ?_, ?_, ?_⟩, rfl, rfl, hheld⟩
  · rw [hheld, List.take_length]
    conv_rhs => rw [← hlog]
    exact h.held.append (rtake_suffix _ _).sublist
  · rw [hheld, hpage]
    show (match (fresh.rtake (min limit.value size)).reverse with
      | [] => s.client.since
      | r :: _ => some (r.seq : Int)) = _
    rw [List.getLast?_append, ← List.head?_reverse]
    cases (fresh.rtake (min limit.value size)).reverse with
    | nil => exact h.since
    | cons r page => rfl
  · intro hsize
    rw [hheld, List.take_length, List.getLast?_append]
    conv_rhs => rw [← hlog, List.getLast?_append]
    rw [h.latest hsize]
    congr 1
    -- A page is empty only if nothing is new.
    have hpos : 0 < min limit.value size := lt_min limit.one_le hsize
    exact getLast?_rtake fresh hpos

/-! ## Runs -/

theorem Followed.step {a : Act F Schema} (h : Followed s) (hstep : follow I reader describe topic s a = some s') :
    Followed s' := by
  cases a with
  | tail a => exact (h.tail hstep).1
  | poll limit => exact (h.polled hstep).1

/-- A poll keeps what the client has gapless exactly when it keeps up. -/
theorem gapless_step {a : Act F Schema} (h : Followed s) (hgapless : Gapless s)
    (hstep : follow I reader describe topic s a = some s') : Gapless s' ↔ KeepsUp s a := by
  cases a with
  | tail a =>
    obtain ⟨-, hclient, -, hlog⟩ := h.tail hstep
    refine iff_of_true ?_ trivial
    unfold Gapless
    rw [hclient, hlog]
    exact hgapless
  | poll limit =>
    obtain ⟨-, hlog, hseen, hheld⟩ := h.polled hstep
    have hsplit : s.log.take s.seen ++ s.log.drop s.seen = s.log := List.take_append_drop _ _
    unfold Gapless KeepsUp
    rw [hheld, hseen, hlog, List.take_length]
    by_cases hne : s.client.held = []
    · refine iff_of_true ?_ fun h => absurd hne h
      rw [hne, List.nil_append]
      exact (rtake_suffix _ _).trans (List.drop_suffix _ _)
    · have hnodup : (s.log.take s.seen ++ s.log.drop s.seen).Nodup := hsplit.symm ▸ h.nodup
      have hiff := suffix_append_rtake_iff (n := min limit.value size) hne hgapless hnodup
      rw [hsplit, List.length_drop] at hiff
      rw [hiff]
      exact ⟨fun hle _ => hle, fun hle => hle hne⟩

/-- Whatever the tail goes through, a client that polls with `since` gets the records in order and none
twice, has the newest after every poll, and misses none exactly when every poll keeps up. -/
theorem follow_exact (I : Interp F) (reader : List UInt8 → Schema → Except Fault (Value F))
    (describe : Exn → Fault) (topic : Text) (as : List (Act F Schema)) :
    Always (follow I reader describe topic) Faithful (start : Stream F Schema size) as ∧
      (Always (follow I reader describe topic) Gapless (start : Stream F Schema size) as ↔
        Each (follow I reader describe topic) KeepsUp (start : Stream F Schema size) as) := by
  constructor
  · exact always_of_inv (fun _ _ _ => Followed.step) (fun _ => Followed.faithful) followed_start as
  · refine always_iff_each (fun s a t hs _ => Followed.step hs) (fun s a t => gapless_step) followed_start ?_ as
    exact List.suffix_refl []

end HtapStack.Follow
