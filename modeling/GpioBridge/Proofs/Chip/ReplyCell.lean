import GpioBridge.Chip.ReplyCell
import Mathlib.Data.List.Basic

namespace GpioBridge.ReplyCell

-- What happens to a cell: a reply is posted to it, or a caller wants to take a signal.
inductive Event where
  | post (reply : Outcome)
  | wait

-- The cell after these events. Who waits for nothing leaves the cell as it is.
def after (cell : ReplyCell) : List Event → ReplyCell
  | [] => cell
  | .post reply :: rest => (cell.post reply.status reply.level).after rest
  | .wait :: rest => ((cell.take?).elim cell Prod.snd).after rest

def posted : List Event → List Outcome
  | [] => []
  | .post reply :: rest => reply :: posted rest
  | .wait :: rest => posted rest

section After

variable (cell : ReplyCell) (events : List Event) (replies : List Outcome)

theorem after_append (later : List Event) :
    cell.after (events ++ later) = (cell.after events).after later := by
  induction events generalizing cell with
  | nil => rfl
  | cons event rest ih => cases event <;> exact ih _

@[simp]
theorem posted_append (later : List Event) : posted (events ++ later) = posted events ++ posted later := by
  induction events with
  | nil => rfl
  | cons event rest ih => cases event <;> simp [posted, ih]

@[simp]
theorem posted_map_post : posted (replies.map .post) = replies := by
  induction replies with
  | nil => rfl
  | cons reply rest ih => rw [List.map_cons, posted, ih]

-- The count stops at the largest there is.
theorem pending_post (status : Status) (level : Option Bool) :
    (cell.post status level).pending.toNat = min (cell.pending.toNat + 1) 0xFFFFFFFF := by
  have hlt := cell.pending.toNat_lt
  by_cases hfull : cell.pending = 0xFFFFFFFF
  · simp [post, hfull]
  · have hne : cell.pending.toNat ≠ 0xFFFFFFFF := fun h => hfull (UInt32.toNat_inj.mp h)
    rw [post, if_neg hfull, UInt32.toNat_add, UInt32.toNat_one]
    omega

-- Taking a signal changes nothing but the count.
theorem eq_of_wait : ∃ pending, (cell.take?).elim cell Prod.snd = { cell with pending } ∧
    pending.toNat = cell.pending.toNat - 1 := by
  by_cases hnone : cell.pending = 0
  · refine ⟨cell.pending, ?_, by simp [hnone]⟩
    rw [take?, if_pos hnone]
    rfl
  · refine ⟨cell.pending - 1, ?_, ?_⟩
    · simp [take?, hnone]
    · have hpositive : cell.pending.toNat ≠ 0 := fun h => hnone (UInt32.toNat_inj.mp h)
      have hlt := cell.pending.toNat_lt
      rw [UInt32.toNat_sub, UInt32.toNat_one]
      omega

theorem status_after :
    (cell.after events).status = ((posted events).getLast?.map (·.status)).getD cell.status := by
  induction events generalizing cell with
  | nil => rfl
  | cons event rest ih =>
    cases event with
    | post reply =>
      rw [after, ih, posted, List.getLast?_cons]
      cases (posted rest).getLast? <;> rfl
    | wait =>
      obtain ⟨pending, hwait, -⟩ := eq_of_wait cell
      rw [after, ih, hwait, posted]

theorem level_after : (cell.after events).level =
    (((posted events).filter (·.status.isOk)).getLast?.map (·.level)).getD cell.level := by
  induction events generalizing cell with
  | nil => rfl
  | cons event rest ih =>
    cases event with
    | post reply =>
      rw [after, ih, posted, List.filter_cons]
      by_cases hok : reply.status.isOk = true
      · rw [if_pos hok, List.getLast?_cons, post, if_pos hok]
        cases ((posted rest).filter (·.status.isOk)).getLast? <;> rfl
      · rw [if_neg hok, post, if_neg hok]
    | wait =>
      obtain ⟨pending, hwait, -⟩ := eq_of_wait cell
      rw [after, ih, hwait, posted]

-- Where the latest reply was a success, status and level are of one reply.
theorem outcome_after {last : Outcome} (h : (posted events).getLast? = some last) :
    (cell.after events).status = last.status ∧
      (last.status = .ok → (cell.after events).level = last.level) := by
  refine ⟨by rw [status_after, h]; rfl, fun hok => ?_⟩
  obtain ⟨earlier, hsplit⟩ := List.getLast?_eq_some_iff.mp h
  rw [level_after, hsplit, List.filter_append, List.filter_cons_of_pos (by rw [hok]; rfl),
    List.filter_nil, List.getLast?_concat]
  rfl

-- Nobody takes more signals than there were replies.
theorem pending_after_le :
    (cell.after events).pending.toNat ≤ cell.pending.toNat + (posted events).length := by
  induction events generalizing cell with
  | nil => simp [after, posted]
  | cons event rest ih =>
    cases event with
    | post reply =>
      have hposted := cell.pending_post reply.status reply.level
      have hrest := ih (cell.post reply.status reply.level)
      rw [after, posted, List.length_cons]
      omega
    | wait =>
      obtain ⟨pending, hwait, hpending⟩ := eq_of_wait cell
      have hrest := ih { cell with pending }
      rw [after, posted, hwait]
      dsimp only at hrest
      omega

theorem exists_last_of_pending (h : 0 < (after {} events).pending.toNat) :
    ∃ last, (posted events).getLast? = some last := by
  have hle := pending_after_le {} events
  cases hposted : posted events with
  | nil =>
    rw [hposted] at hle
    simp at hle
    omega
  | cons reply rest => exact ⟨_, List.getLast?_cons⟩

theorem pending_after_posts (hroom : cell.pending.toNat + replies.length < 0xFFFFFFFF) :
    (cell.after (replies.map .post)).pending.toNat = cell.pending.toNat + replies.length := by
  induction replies generalizing cell with
  | nil => rfl
  | cons reply rest ih =>
    have hposted := cell.pending_post reply.status reply.level
    rw [List.length_cons] at hroom ⊢
    rw [List.map_cons, after, ih _ (by omega)]
    omega

end After

end GpioBridge.ReplyCell
