import GpioBridge.Proofs.Core.Bridge
import GpioBridge.Proofs.Core.Consistency
import GpioBridge.Proofs.Hub.Balance

namespace GpioBridge.Core

open Hub (Stage)

-- Surroundings that do nothing to a core but bring it replies.
def OnlyReplies {τ : Type}
    (around : Process.Surroundings Core τ Message fun _ => Except TransportFault Unit) : Prop :=
  ∀ m core t, ∃ messages,
    (around.answer m core t).2.1 = { core with hub := Hub.deliverAll messages core.hub }

section Run

variable {τ α : Type}
  {around : Process.Surroundings Core τ Message fun _ => Except TransportFault Unit}
  {core : Core} {t : τ}

theorem alike_deliverAll (messages : List Message) (core : Core) :
    Alike core { core with hub := Hub.deliverAll messages core.hub } :=
  ⟨Hub.outline_deliverAll messages core.hub, rfl⟩

-- Hub and line table are in step, if there were not too many chips; and there were these chips at
-- least.
def InLine (made : Nat) (g : Stage) (core : Core) : Prop :=
  made ≤ core.hub.chips.length ∧ (core.hub.chips.length < 2 ^ 64 → Aligned g core)

theorem inLine_of_run (haround : OnlyReplies around) {last : α → Stage → Prop} {g : Stage}
    {made : Nat} {p : CoreProcess α} (hp : p.Follows plan last g) (h : InLine made g core) :
    ∃ g', last (p.run around core t).1 g' ∧ InLine made g' (p.run around core t).2.1 := by
  refine hp.run (P := fun g core _ => InLine made g core) ?_ (fun h => h) ?_ h
  · rintro g change g' core _ hsteps ⟨hmade, haligned⟩
    have hle := length_le_of_steps hsteps
    exact ⟨hmade.trans hle, fun hb =>
      aligned_of_steps hsteps (haligned (hle.trans_lt hb)) (hle.trans_lt hb)⟩
  · rintro g m g' core t hasks ⟨hmade, haligned⟩
    obtain ⟨messages, hreplies⟩ := haround m core t
    have halike := alike_deliverAll messages core
    rw [hreplies]
    cases hasks with
    | send =>
      rw [InLine, Hub.length_of_outline halike.hub]
      exact ⟨hmade, fun hb => aligned_of_alike halike (haligned hb)⟩

-- Once an operation has ended, nothing is under way.
theorem Aligned.ended {outcome : Outcome} {g : Stage} (ha : Aligned g core) (h : Ended outcome g) :
    Aligned .plain core := by
  cases h with
  | hub h =>
    cases h with
    | plain => exact ha
    | failed => exact ha.relies.elim
    | recorded => exact aligned_idle rfl rfl ha
  | requested | released => exact ha

theorem inLine_of_process (haround : OnlyReplies around) (operation : Operation) {made : Nat}
    (h : InLine made .plain core) :
    InLine made .plain (operation.process.run around core t).2.1 := by
  obtain ⟨g, hended, hmade, haligned⟩ := inLine_of_run (t := t) haround (follows_process operation)
    ⟨h.1, fun hb => aligned_stage (h.2 hb) operation⟩
  exact ⟨hmade, fun hb => (haligned hb).ended hended⟩

theorem inLine_of_perform (haround : OnlyReplies around) (operations : List Operation) {made : Nat}
    (h : InLine made .plain core) : InLine made .plain (perform around operations core t).2.1 := by
  induction operations generalizing core t with
  | nil => exact h
  | cons operation rest ih => exact ih (inLine_of_process haround operation h)

theorem registry_of_teardown (haround : OnlyReplies around) (core : Core) (t : τ) :
    ((onHub Hub.teardown).run around core t).2.1.hub.registry = ∅ := by
  obtain ⟨rest, hrest, hmaintains⟩ := Hub.exists_teardown
  rw [hrest, onHub_step, Process.run]
  have hserved : (onHub (rest core.hub)).Maintains fun core => core.hub.registry = ∅ :=
    (hmaintains core.hub).serve (fun _ _ => rfl) maintains_serve
  refine hserved.run (fun m core t hnone => ?_) rfl t
  obtain ⟨messages, hreplies⟩ := haround m core t
  rw [hreplies]
  exact (Hub.registry_deliverAll messages core.hub).trans hnone

theorem Aligned.table_eq_nil (ha : Aligned .plain core) (hnone : core.hub.registry = ∅) :
    core.table.chips = [] := by
  refine List.eq_nil_iff_forall_not_mem.mpr fun exposed he => ?_
  obtain ⟨hf, -⟩ := ha.known exposed he
  rw [Hub.find?, hnone] at hf
  cases hf

-- Whoever still holds a line, after a teardown nothing is exposed.
theorem unexposed_of_teardown (haround : OnlyReplies around) {made : Nat}
    (h : InLine made .plain core)
    (hb : ((Operation.hub .teardown).process.run around core t).2.1.hub.chips.length < 2 ^ 64) :
    ((Operation.hub .teardown).process.run around core t).2.1.table.chips = [] := by
  refine ((inLine_of_process haround (.hub .teardown) h).2 hb).table_eq_nil ?_
  have hnone := registry_of_teardown haround core t
  simpa only [Operation.process, Hub.Operation.process, onHub_bind, onHub_done, Process.run_bind,
    Process.run_done] using hnone

end Run

end GpioBridge.Core
