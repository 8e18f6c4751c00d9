import GpioBridge.Proofs.Core.Basic
import GpioBridge.Proofs.Hub.Stage
import GpioBridge.Proofs.Process.Maintains

namespace GpioBridge.Core

open Hub (Stage)
open Hub.Stage

-- Which changes may come at a stage: those of the hub, and what the table does for it and for
-- consumers.
inductive Steps : Stage → (Core → Core) → Core → Stage → Prop where
  | hub {g change g'} {core : Core} (h : Stage.Steps g change core.hub g') :
      Steps g (fun core => { core with hub := change core.hub }) core g'
  | look {core} : Steps plain (fun core => core) core plain
  | grant (uid : UInt64) (pin : UInt32) (consumer : String) {core} :
      Steps plain (fun core => { core with table := (core.table.grant uid pin consumer).2 }) core
        plain
  | giveBack (uid : UInt64) (pin : UInt32) {core} :
      Steps plain (fun core => { core with table := core.table.setHolder uid pin none }) core plain
  | expose {r id descriptor} {core : Core} :
      Steps (offering r id descriptor)
        (fun core => { core with table := (core.table.add descriptor id).2 }) core
        (ofExposure r id (core.table.add descriptor id).1)
  | isHeld {id handle core} :
      Steps (scanning id handle) (fun core => core) core (scanning id handle)
  | withdraw {id handle core} :
      Steps (scanning id handle) (fun core => { core with table := (core.table.remove handle).2 })
        core (releasing id)
  | conceal {id handle rest core} :
      Steps (concealing id handle rest)
        (fun core => { core with table := (core.table.remove handle).2 }) core (finishing id rest)

inductive Asks : Stage → (m : Message) → Except TransportFault Unit → Stage → Prop where
  | send {m answer} : Asks plain m answer plain

def plan : Plan Core Message (fun _ => Except TransportFault Unit) Stage := ⟨Steps, Asks⟩

-- The stage an operation begins at.
def Operation.stage : Operation → Stage
  | .hub operation => operation.stage
  | .request _ _ _ | .release _ _ => plain

section Follows

open Process

variable {α : Type}

private theorem offering_of_asks {g : Stage} {descriptor : Descriptor} {id : ChipId}
    {onward : Except Fault Handle → Stage}
    (h : ∀ a, Stage.Asks g (.expose descriptor id) a (onward a)) :
    ∃ r, g = .offering r id descriptor ∧ ∀ a, onward a = .ofExposure r id a := by
  have hone := h (.error .busy)
  generalize honward : onward (.error .busy) = g' at hone
  cases hone with
  | @expose r =>
    refine ⟨r, rfl, fun a => ?_⟩
    have ha := h a
    generalize onward a = g' at ha ⊢
    cases ha with
    | expose => rfl

-- Serving a demand of the hub takes its client to where the answer takes it.
theorem follows_serve {g : Stage} {demand : Demand} (onward : demand.Answer → Stage)
    (h : ∀ a, Hub.plan.ask g demand a (onward a)) :
    (serve demand).Follows plan (fun a g' => g' = onward a) g := by
  cases demand with
  | send m =>
    refine .ask onward (fun a => ?_) fun _ => .done rfl
    have ha := h a
    generalize onward a = g' at ha
    cases ha with
    | send => exact .send
  | expose descriptor id =>
    obtain ⟨r, rfl, hr⟩ := offering_of_asks h
    simp only [serve, onTable, LineTable.expose, bind_eq, pure_eq, update_bind, log_bind,
      Process.serve]
    refine .step (fun core => .ofExposure r id (core.table.add descriptor id).1) (fun _ => .expose)
      fun core => ?_
    cases ha : (core.table.add descriptor id).1 with
    | error fault => exact .done (hr (.error fault)).symm
    | ok handle => exact .note (.done (hr (.ok handle)).symm)
  | conceal handle =>
    have hstep : ∃ g', onward () = g' ∧ ∀ core, Steps g
        (fun core => { core with table := (core.table.remove handle).2 }) core g' := by
      have ha := h ()
      generalize onward () = g' at ha
      cases ha with
      | withdrawn => exact ⟨_, rfl, fun _ => .withdraw⟩
      | concealed => exact ⟨_, rfl, fun _ => .conceal⟩
    obtain ⟨g', hg', hstep⟩ := hstep
    simp only [serve, onTable, LineTable.conceal, bind_eq, pure_eq, update_bind, Process.serve]
    refine .step (fun _ => g') hstep fun core => ?_
    cases (core.table.remove handle).1 with
    | none => exact .done hg'.symm
    | some descriptor => exact .note (.done hg'.symm)
  | isHeld handle pin =>
    have hscan : ∃ id, g = .scanning id handle ∧ ∀ a, onward a = g := by
      have hone := h false
      generalize onward false = g' at hone
      cases hone with
      | @isHeld id =>
        refine ⟨id, rfl, fun a => ?_⟩
        have ha := h a
        generalize onward a = g' at ha ⊢
        cases ha with
        | isHeld => rfl
    obtain ⟨id, rfl, hsame⟩ := hscan
    exact .step (fun _ => .scanning id handle) (fun _ => .isHeld) fun _ => .done (hsame _).symm

-- Serving a demand of the hub does nothing to the hub.
theorem maintains_serve {P : Hub → Prop} (demand : Demand) :
    (serve demand).Maintains fun core => P core.hub := by
  cases demand with
  | send m => exact maintains_ask fun _ => trivial
  | expose descriptor target =>
    simp only [serve, onTable, LineTable.expose, bind_eq, pure_eq, update_bind, log_bind,
      Process.serve]
    refine maintains_step (fun _ h => h) fun core => ?_
    cases (core.table.add descriptor target).1 <;> trivial
  | conceal handle =>
    simp only [serve, onTable, LineTable.conceal, bind_eq, pure_eq, update_bind, Process.serve]
    refine maintains_step (fun _ h => h) fun core => ?_
    cases (core.table.remove handle).1 <;> trivial
  | isHeld handle pin => exact maintains_get fun _ => trivial

theorem follows_onHub {last : α → Stage → Prop} {g : Stage} {p : HubProcess α}
    (h : p.Follows Hub.plan last g) : (onHub p).Follows plan last g :=
  h.serve (fun hs => Steps.hub hs) follows_serve

theorem follows_request (uid : UInt64) (pin : UInt32) (consumer : String)
    (free : FreeDemand ChipId → CoreProcess (Except Fault Unit)) :
    (onTable free (LineTable.request uid pin consumer)).Follows plan Hub.Plainly .plain := by
  simp only [onTable, LineTable.request, bind_eq, pure_eq, update_bind, log_bind, Process.serve]
  refine .step (fun _ => .plain) (fun _ => .grant uid pin consumer) fun core => ?_
  cases (core.table.grant uid pin consumer).1 with
  | refused fault => exact .done rfl
  | heldBy owner => exact .note (.done rfl)
  | granted ops => exact .note (.done rfl)

theorem follows_release (uid : UInt64) (pin : UInt32) :
    (onTable (fun demand => onHub (Hub.free demand.ops demand.pin))
      (LineTable.release uid pin)).Follows plan Hub.Plainly .plain := by
  simp only [onTable, LineTable.release, bind_eq, pure_eq, get_bind, log_bind, modify_bind,
    ask_bind, done_bind, Process.serve]
  refine .step (fun _ => .plain) (fun _ => .look) fun core => ?_
  cases core.table.releasable uid pin with
  | error fault => exact .done rfl
  | ok ops =>
    refine (follows_onHub (Hub.follows_setDirection ops pin .disabled)).bind ?_
    rintro (fault | _) _ rfl
    · exact .note (.step (fun _ => .plain) (fun _ => .giveBack uid pin) fun _ => .note (.done rfl))
    · exact .step (fun _ => .plain) (fun _ => .giveBack uid pin) fun _ => .note (.done rfl)

-- What a call that has returned left behind.
inductive Ended : Outcome → Stage → Prop where
  | hub {outcome g} (h : Hub.Ended outcome g) : Ended (.hub outcome) g
  | requested {result} : Ended (.requested result) .plain
  | released {result} : Ended (.released result) .plain

theorem follows_process (operation : Operation) :
    operation.process.Follows plan Ended operation.stage := by
  cases operation with
  | hub operation =>
    exact (follows_onHub (Hub.follows_process operation)).bind fun _ _ h => .done (.hub h)
  | request uid pin consumer =>
    refine (follows_request uid pin consumer _).bind ?_
    rintro result _ rfl
    exact .done .requested
  | release uid pin =>
    refine (follows_release uid pin).bind ?_
    rintro result _ rfl
    exact .done .released

end Follows

end GpioBridge.Core
