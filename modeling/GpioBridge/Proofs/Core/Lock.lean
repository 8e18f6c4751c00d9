import GpioBridge.Proofs.Core.Stage
import GpioBridge.Proofs.Hub.Roles

namespace GpioBridge

namespace Core

open Hub (Stage)

-- A change of the hub alone.
def atHub (change : Hub → Hub) (core : Core) : Core := { core with hub := change core.hub }

variable {α : Type}

-- The next thing the call does needs the lock of the chip.
def Takes (id : ChipId) (p : CoreProcess α) : Prop :=
  ∃ change next, p = .step (atHub change) next ∧
    ((∃ handle, change = Hub.confirm id handle) ∨ change = Hub.abandon id ∨
      change = (fun hub => (Hub.suspend id hub).2) ∨ change = fun hub => (Hub.disable id hub).2)

-- The call is under the lock of the chip: it ends what it began before it does anything else to the
-- hub.
inductive Holds (id : ChipId) : CoreProcess α → Prop where
  | resume {next} : Holds id (.step (atHub (Hub.resume id)) next)
  | release {next} : Holds id (.step (atHub (Hub.release id)) next)
  | retire {next} : Holds id (.step (atHub (Hub.retire id)) next)
  | note {event next} (h : Holds id next) : Holds id (.note event next)
  | table {change core next} (hc : ∀ core, (change core).hub = core.hub) (h : Holds id (next core)) :
      Holds id (.step change next)

theorem Operation.blank_stage (operation : Operation) : operation.stage.Blank := by
  cases operation with
  | request | release => exact ⟨⟨rfl, rfl, rfl⟩, rfl⟩
  | hub operation => exact Hub.Operation.blank_stage operation

-- A call that needs a lock waits for the call that has it.
def WaitsFor (p q : CoreProcess Outcome) : Prop := ∃ id, Takes id p ∧ Holds id q

theorem not_waitsFor_of_returned {p q : CoreProcess Outcome} (h : q.Returned) : ¬WaitsFor p q := by
  obtain ⟨outcome, rfl⟩ := h
  rintro ⟨id, -, hholds⟩
  cases hholds

theorem takes_of_follows {p : CoreProcess Outcome} {g : Stage} {id : ChipId}
    (h : p.Follows plan Ended g) (hg : g.takes = some id)
    (hnote : ∀ event next, p ≠ .note event next) : Takes id p := by
  cases h with
  | done hended =>
    cases hended with
    | hub hended => cases hended <;> cases hg
    | requested | released => cases hg
  | note => exact absurd rfl (hnote _ _)
  | @step _ change next onward ht _ =>
    have hs := ht default
    generalize onward default = g' at hs
    cases hs with
    | hub hs =>
      cases hs <;> cases hg
      · exact ⟨_, next, rfl, .inl ⟨_, rfl⟩⟩
      · exact ⟨_, next, rfl, .inr (.inl rfl)⟩
      · exact ⟨_, next, rfl, .inr (.inr (.inl rfl))⟩
      · exact ⟨_, next, rfl, .inr (.inr (.inr rfl))⟩
    | _ => cases hg
  | @ask _ m next onward ht _ =>
    have ha := ht (.ok ())
    generalize onward (.ok ()) = g' at ha
    cases ha with
    | send => cases hg

theorem holds_of_follows {p : CoreProcess Outcome} {g : Stage} {id : ChipId}
    (h : p.Follows plan Ended g) (hg : g.holds = some id) : Holds id p := by
  induction h with
  | done hended =>
    cases hended with
    | hub hended => cases hended <;> cases hg
    | requested | released => cases hg
  | note _ ih => exact .note (ih hg)
  | @step g change next onward ht _ ih =>
    have hs := ht default
    have hnext := ih default
    generalize onward default = g' at hs hnext
    cases hs with
    | hub hs =>
      cases hs <;> cases hg
      · exact .resume
      · exact .release
      · exact .retire
    | isHeld => exact .table (fun _ => rfl) (hnext hg)
    | withdraw => exact .table (fun _ => rfl) (hnext hg)
    | conceal => exact .table (fun _ => rfl) (hnext hg)
    | _ => cases hg
  | @ask g m next onward ht _ _ =>
    have ha := ht (.ok ())
    generalize onward (.ok ()) = g' at ha
    cases ha with
    | send => cases hg

-- Where a stage waits, so does every call that is at it.
theorem waitsFor_of_follows {p q : CoreProcess Outcome} {g g' : Stage}
    (hp : p.Follows plan Ended g) (hq : q.Follows plan Ended g') (h : g.WaitsFor g')
    (hnote : ∀ event next, p ≠ .note event next) (_ : ¬p.Returned) : WaitsFor p q := by
  obtain ⟨id, htakes, hholds⟩ := h
  exact ⟨id, takes_of_follows hp htakes hnote, holds_of_follows hq hholds⟩

end Core

end GpioBridge
