import GpioBridge.Proofs.Hub.Roles
import GpioBridge.Proofs.Process.Play

namespace GpioBridge.Hub

variable {α : Type}

-- The next thing the call does needs the lock of the chip.
def Takes (id : ChipId) (p : HubProcess α) : Prop :=
  ∃ change next, p = .step change next ∧
    ((∃ handle, change = confirm id handle) ∨ change = abandon id ∨
      change = (fun hub => (suspend id hub).2) ∨ change = fun hub => (disable id hub).2)

-- The call is under the lock of the chip: whatever else it asks first, it may come to end what it
-- began before it does anything else to the hub.
inductive Holds (id : ChipId) : HubProcess α → Prop where
  | resume {next} : Holds id (.step (Hub.resume id) next)
  | release {next} : Holds id (.step (Hub.release id) next)
  | retire {next} : Holds id (.step (Hub.retire id) next)
  | note {event next} (h : Holds id next) : Holds id (.note event next)
  | ask {demand next answer} (h : Holds id (next answer)) : Holds id (.ask demand next)

-- A call that needs a lock waits for the call that has it.
def WaitsFor (p q : HubProcess Outcome) : Prop := ∃ id, Takes id p ∧ Holds id q

theorem takes_of_follows {p : HubProcess Outcome} {g : Stage} {id : ChipId}
    (h : p.Follows plan Ended g) (hg : g.takes = some id)
    (hnote : ∀ event next, p ≠ .note event next) : Takes id p := by
  cases h with
  | done hended => cases hended <;> cases hg
  | note => exact absurd rfl (hnote _ _)
  | @step _ change next onward ht _ =>
    have hs := ht default
    generalize onward default = g' at hs
    cases hs <;> cases hg
    · exact ⟨_, next, rfl, .inl ⟨_, rfl⟩⟩
    · exact ⟨_, next, rfl, .inr (.inl rfl)⟩
    · exact ⟨_, next, rfl, .inr (.inr (.inl rfl))⟩
    · exact ⟨_, next, rfl, .inr (.inr (.inr rfl))⟩
  | @ask _ demand next onward ht _ =>
    obtain ⟨answer⟩ := exists_answer demand
    have ha := ht answer
    generalize onward answer = g' at ha
    cases ha <;> cases hg

theorem holds_of_follows {p : HubProcess Outcome} {g : Stage} {id : ChipId}
    (h : p.Follows plan Ended g) (hg : g.holds = some id) : Holds id p := by
  induction h with
  | done hended => cases hended <;> cases hg
  | note _ ih => exact .note (ih hg)
  | @step g change next onward ht _ ih =>
    have hs := ht default
    generalize onward default = g' at hs
    cases hs <;> cases hg
    · exact .resume
    · exact .release
    · exact .retire
  | @ask g demand next onward ht _ ih =>
    obtain ⟨answer⟩ := exists_answer demand
    have ha := ht answer
    have hnext := ih answer
    generalize onward answer = g' at ha hnext
    cases ha <;> first | exact .ask (hnext hg) | cases hg

-- Where a stage waits, so does every call that is at it.
theorem waitsFor_of_follows {p q : HubProcess Outcome} {g g' : Stage}
    (hp : p.Follows plan Ended g) (hq : q.Follows plan Ended g') (h : g.WaitsFor g')
    (hnote : ∀ event next, p ≠ .note event next) (_ : ¬p.Returned) : WaitsFor p q := by
  obtain ⟨id, htakes, hholds⟩ := h
  exact ⟨id, takes_of_follows hp htakes hnote, holds_of_follows hq hholds⟩

-- Whether the next thing a call does is to enlist a chip.
def enlists (p : HubProcess Outcome) : Bool :=
  match p with
  | .step change _ => (change {}).chips.length != 0
  | _ => false

-- Who enlists a chip needs no lock for that.
theorem not_takes_of_enlists {id : ChipId} {p : HubProcess Outcome} (h : enlists p = true) :
    ¬Takes id p := by
  rintro ⟨change, next, rfl, hchange⟩
  have hlength : (change {}).chips.length = 0 := by
    rcases hchange with ⟨handle, rfl⟩ | rfl | rfl | rfl
    · exact length_modifyChip ..
    · exact length_modifyChip ..
    · exact length_suspend id {}
    · exact length_modifyChip ..
  simp [enlists, hlength] at h

-- Whether one call may have to wait for another, as far as can be told by looking at them.
def mayBlock (p q : HubProcess Outcome) : Bool := !q.isDone && !enlists p

theorem not_waitsFor_of_mayBlock {p q : HubProcess Outcome} (h : mayBlock p q = false) :
    ¬WaitsFor p q := by
  rintro ⟨id, htakes, hholds⟩
  rw [mayBlock, Bool.and_eq_false_iff, Bool.not_eq_false', Bool.not_eq_false'] at h
  rcases h with hdone | henlists
  · obtain ⟨outcome, rfl⟩ := Process.returned_of_isDone hdone
    cases hholds
  · exact not_takes_of_enlists henlists htakes

end GpioBridge.Hub
