import GpioBridge.Proofs.Hub.Outline
import GpioBridge.Proofs.Hub.Stage

namespace GpioBridge.Hub

namespace Stage

-- Nothing but line operations is under way at this stage.
def idle : Stage → Bool
  | plain | awaiting _ _ | dispatching _ | recorded _ => true
  | _ => false

-- The chip whose lock the next step needs.
def takes : Stage → Option ChipId
  | confirming id _ | abandoning id | suspending id | retiring id _ => some id
  | _ => none

-- The chip whose lock is held.
def holds : Stage → Option ChipId
  | scanning id _ | releasing id | concealing id _ _ | finishing id _ => some id
  | _ => none

def WaitsFor (g g' : Stage) : Prop := ∃ id, g.takes = some id ∧ g'.holds = some id

-- The chip a registration has made and is not done with.
def creates : Stage → Option ChipId
  | exposing _ id | offering _ id _ | confirming id _ | refused _ id | abandoning id => some id
  | _ => none

-- The chip a registration may still come to expose.
def exposes : Stage → Option ChipId
  | exposing _ id | offering _ id _ | confirming id _ => some id
  | _ => none

-- The chip a withdrawal has chosen.
def withdraws : Stage → Option ChipId
  | suspending id | scanning id _ | releasing id => some id
  | _ => none

-- The chips a teardown has still to retire.
def todo : Stage → List ChipId
  | retiring id rest | concealing id _ rest | finishing id rest => id :: rest
  | _ => []

-- A call that has no chip in its hands.
structure Quiet (g : Stage) : Prop where
  creates : g.creates = none
  holds : g.holds = none
  withdraws : g.withdraws = none

-- A call that is not about any chip.
structure Blank (g : Stage) : Prop extends Quiet g where
  todo : g.todo = []

theorem creates_of_exposes {g : Stage} {id : ChipId} (h : g.exposes = some id) :
    g.creates = some id := by
  cases g <;> first | exact h | cases h

theorem Quiet.exposes_ne {g : Stage} (h : g.Quiet) (id : ChipId) : g.exposes ≠ some id := by
  intro he
  have hc := creates_of_exposes he
  rw [h.creates] at hc
  cases hc

theorem blank_of_idle {g : Stage} (h : g.idle = true) : g.Blank := by
  cases g <;> first | exact ⟨⟨rfl, rfl, rfl⟩, rfl⟩ | cases h

theorem quiet_ofList (ids : List ChipId) : (ofList ids).Quiet := by
  cases ids <;> exact ⟨rfl, rfl, rfl⟩

@[simp]
theorem todo_ofList (ids : List ChipId) : (ofList ids).todo = ids := by
  cases ids <;> rfl

-- What concerns lines alone keeps the outline.
theorem outline_of_steps {g g' : Stage} {change : Hub → Hub} {hub : Hub}
    (h : Steps g change hub g') (hg : g.idle = true) :
    (change hub).outline = hub.outline ∧ g'.idle = true := by
  cases h with
  | look => exact ⟨rfl, rfl⟩
  | count => exact ⟨rfl, rfl⟩
  | @collect id pin => exact ⟨outline_collect id pin hub, rfl⟩
  | setLevel id pin level => exact ⟨outline_setLevel id pin level hub, rfl⟩
  | setLineDirection id pin direction => exact ⟨outline_setLineDirection id pin direction hub, rfl⟩
  | @deliver m => exact ⟨outline_deliver m hub, rfl⟩
  | _ => cases hg

end Stage

theorem Operation.blank_stage (operation : Operation) : operation.stage.Blank := by
  cases operation with
  | register r =>
    unfold stage Stage.ofRegistration
    simp only
    split <;> exact ⟨⟨rfl, rfl, rfl⟩, rfl⟩
  | _ => exact ⟨⟨rfl, rfl, rfl⟩, rfl⟩

end GpioBridge.Hub
