import GpioBridge.Proofs.Chip.ReplyCell
import Mathlib.Data.List.Induction

namespace GpioBridge.ReplyCell

-- Something that happened to a cell, and what came of it.
inductive Entry where
  | posted (reply : Outcome)
  | told (answer : Option Outcome)

def act (cell : ReplyCell) : Event → Entry × ReplyCell
  | .post reply => (.posted reply, cell.post reply.status reply.level)
  | .wait => (.told (cell.take?.map Prod.fst), (cell.take?).elim cell Prod.snd)

-- Lets these things happen to a new cell, one after the other, and keeps a record.
def record (events : List Event) : List Entry × ReplyCell :=
  events.foldl (fun (past, cell) event => (past ++ [(cell.act event).1], (cell.act event).2)) ([], {})

def Entry.event : Entry → Event
  | posted reply => .post reply
  | told _ => .wait

def largest : Nat := 0xFFFFFFFF

-- A reply counts up, as far as there are numbers, and a caller that got an outcome counts down.
def Entry.tick (count : Nat) : Entry → Nat
  | posted _ => min (count + 1) largest
  | told (some _) => count - 1
  | told none => count

def tally (past : List Entry) : Nat := past.foldl Entry.tick 0

def replies (past : List Entry) : List Outcome := posted (past.map Entry.event)

-- The outcomes callers got.
def outcomes (past : List Entry) : List Outcome :=
  past.filterMap fun
    | .told answer => answer
    | .posted _ => none

-- The status is the latest reply's and the level that of the latest success, if there was one.
structure Latest (replies : List Outcome) (outcome : Outcome) : Prop where
  status : replies.getLast?.map (·.status) = some outcome.status
  level : (replies.filter (·.status.isOk)).getLast?.bind (·.level) = outcome.level
  whole : outcome.status = .ok → replies.getLast? = some outcome

-- A caller is told of an outcome exactly if the tally has one left for it.
structure Answered (past : List Entry) (answer : Option Outcome) : Prop where
  isSome_iff : answer.isSome ↔ 0 < tally past
  latest : ∀ outcome, answer = some outcome → Latest (replies past) outcome

-- What a record says about a cell.
structure Tallied (past : List Entry) (cell : ReplyCell) : Prop where
  pending : cell.pending.toNat = tally past
  answered : ∀ before answer behind, past = before ++ .told answer :: behind →
    Answered before answer
  outnumber : (outcomes past).length + cell.pending.toNat ≤ (replies past).length

section Record

variable {events : List Event} {event : Event} {past : List Entry} {entry : Entry}
  {cell : ReplyCell} {reply : Outcome} {answer : Option Outcome}

theorem record_concat : record (events ++ [event]) =
    ((record events).1 ++ [((record events).2.act event).1], ((record events).2.act event).2) := by
  rw [record, List.foldl_concat]
  rfl

theorem event_act : (cell.act event).1.event = event := by
  cases event <;> rfl

theorem events_record : (record events).1.map Entry.event = events := by
  induction events using List.reverseRecOn with
  | nil => rfl
  | append_singleton events event ih =>
    rw [record_concat, List.map_append, ih, List.map_singleton, event_act]

theorem cell_record : (record events).2 = after {} events := by
  induction events using List.reverseRecOn with
  | nil => rfl
  | append_singleton events event ih =>
    rw [record_concat, after_append, ← ih]
    cases event <;> rfl

theorem tally_concat : tally (past ++ [entry]) = entry.tick (tally past) := by
  rw [tally, List.foldl_concat]
  rfl

theorem replies_concat_posted : replies (past ++ [.posted reply]) = replies past ++ [reply] := by
  rw [replies, List.map_append, posted_append]
  rfl

theorem replies_concat_told : replies (past ++ [.told answer]) = replies past := by
  rw [replies, List.map_append, posted_append]
  exact List.append_nil _

theorem outcomes_concat_posted : outcomes (past ++ [.posted reply]) = outcomes past := by
  simp [outcomes]

theorem outcomes_concat_told :
    outcomes (past ++ [.told answer]) = outcomes past ++ answer.toList := by
  cases answer <;> simp [outcomes]

theorem take?_of_pending (h : 0 < cell.pending.toNat) : cell.take? =
    some (⟨cell.status, cell.level⟩, { cell with pending := cell.pending - 1 }) := by
  refine if_neg fun hnone => ?_
  rw [hnone] at h
  exact absurd h (by decide)

theorem take?_of_idle (h : cell.pending.toNat = 0) : cell.take? = none :=
  if_pos (UInt32.toNat_inj.mp h)

theorem latest_after (h : 0 < (after {} events).pending.toNat) :
    Latest (posted events) ⟨(after {} events).status, (after {} events).level⟩ := by
  obtain ⟨last, hlast⟩ := exists_last_of_pending events h
  obtain ⟨hstatus, hlevel⟩ := outcome_after {} events hlast
  refine ⟨by rw [hlast, hstatus]; rfl, ?_, fun hok => ?_⟩
  · rw [level_after]
    cases ((posted events).filter (·.status.isOk)).getLast? <;> rfl
  · dsimp only at hok
    rw [hlast, hlevel (hstatus ▸ hok), hstatus]

-- Recording one thing more adds one answer at most, and that answers the record so far.
theorem answered_concat
    (h : ∀ before answer behind, past = before ++ .told answer :: behind → Answered before answer)
    (hnew : ∀ answer, entry = .told answer → Answered past answer) :
    ∀ before answer behind, past ++ [entry] = before ++ .told answer :: behind →
      Answered before answer := by
  intro before answer behind hsplit
  rcases List.eq_nil_or_concat' behind with rfl | ⟨later, last, rfl⟩
  · obtain ⟨rfl, hentry⟩ := List.append_inj' hsplit rfl
    exact hnew answer (List.singleton_inj.mp hentry)
  · rw [← List.cons_append, ← List.append_assoc] at hsplit
    obtain ⟨rfl, -⟩ := List.append_inj' hsplit rfl
    exact h before answer later rfl

theorem Tallied.post (h : Tallied past cell) :
    Tallied (past ++ [.posted reply]) (cell.post reply.status reply.level) where
  pending := by
    rw [pending_post, tally_concat, h.pending]
    rfl
  answered := answered_concat h.answered nofun
  outnumber := by
    have hle := h.outnumber
    rw [pending_post, outcomes_concat_posted, replies_concat_posted, List.length_append,
      List.length_singleton]
    omega

-- Who asks takes one signal, and nothing if there is none.
theorem Tallied.wait (h : Tallied past cell)
    (hlatest : 0 < cell.pending.toNat → Latest (replies past) ⟨cell.status, cell.level⟩) :
    Tallied (past ++ [(cell.act .wait).1]) (cell.act .wait).2 := by
  have hle := h.outnumber
  rcases Nat.eq_zero_or_pos cell.pending.toNat with hidle | hpending
  · have hact : cell.act .wait = (.told none, cell) := by rw [act, take?_of_idle hidle]; rfl
    rw [hact]
    refine ⟨by rw [tally_concat]; exact h.pending, answered_concat h.answered fun answer hanswer => ?_,
      by simpa [outcomes_concat_told, replies_concat_told] using hle⟩
    cases hanswer
    refine ⟨?_, nofun⟩
    rw [← h.pending, hidle]
    decide
  · have hact : cell.act .wait = (.told (some ⟨cell.status, cell.level⟩),
        { cell with pending := cell.pending - 1 }) := by rw [act, take?_of_pending hpending]; rfl
    have hless : (cell.pending - 1).toNat = cell.pending.toNat - 1 := by
      have hone : (1 : UInt32) ≤ cell.pending := UInt32.le_iff_toNat_le.mpr hpending
      rw [UInt32.toNat_sub_of_le _ _ hone, UInt32.toNat_one]
    rw [hact]
    refine ⟨by rw [hless, tally_concat, h.pending]; rfl,
      answered_concat h.answered fun answer hanswer => ?_, ?_⟩
    · cases hanswer
      refine ⟨?_, fun outcome houtcome => ?_⟩
      · rw [← h.pending]
        exact iff_of_true rfl hpending
      · cases houtcome
        exact hlatest hpending
    · rw [hless, outcomes_concat_told, replies_concat_told, List.length_append, Option.toList_some,
        List.length_singleton]
      omega

-- Whatever happens to a new cell, it counts what its record comes to. Who asks is told of an
-- outcome exactly if that is not zero, and the outcome is of the latest reply; a level is the
-- latest success's, so with a success both are of one reply. No more outcomes are told of than were
-- posted.
theorem tallied_record (events : List Event) :
    (record events).1.map Entry.event = events ∧ Tallied (record events).1 (record events).2 := by
  refine ⟨events_record, ?_⟩
  induction events using List.reverseRecOn with
  | nil => exact ⟨rfl, by simp [record], by simp [record, outcomes, replies, posted]⟩
  | append_singleton events event ih =>
    rw [record_concat]
    cases event with
    | post reply => exact ih.post
    | wait =>
      refine ih.wait fun hpending => ?_
      rw [cell_record] at hpending ⊢
      rw [replies, events_record]
      exact latest_after hpending

end Record

end GpioBridge.ReplyCell
