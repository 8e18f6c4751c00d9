import GpioBridge.Proofs.Core.Stage
import GpioBridge.Proofs.Hub.Lines
import GpioBridge.Proofs.Hub.Memory

namespace GpioBridge

namespace Chip

def Unturned (chip : Chip) : Prop :=
  ∀ direction ∈ chip.memories.map (·.direction), direction = .input

theorem unturned_modifyMemory {f : Line.Memory → Line.Memory}
    (hf : ∀ memory, (f memory).direction = memory.direction) (pin : UInt32) {chip : Chip}
    (h : chip.Unturned) : (chip.modifyMemory pin f).Unturned := by
  rw [Unturned, modifyMemory, Hub.map_modify_of_eq hf]
  exact h

theorem unturned_create (uid : UInt64) (label : String) (names : List String) :
    (create uid label names).Unturned := by
  intro direction hdirection
  rw [create, List.map_replicate] at hdirection
  exact List.eq_of_mem_replicate hdirection

end Chip

namespace Hub

-- All lines of a chip are as they were made.
def Unturned (id : ChipId) (hub : Hub) : Prop := (hub.chip id).Unturned

variable {hub : Hub} {id other : ChipId} {pin : UInt32}

-- Marks and cells have no part in what is remembered of lines.
theorem unturned_modifyChip {f : Chip → Chip} (hf : ∀ chip, (f chip).memories = chip.memories)
    (h : Unturned id hub) : Unturned id (hub.modifyChip other f) := by
  refine modifyChip_of (P := Chip.Unturned) (fun chip hchip => ?_) h
  rw [Chip.Unturned, hf]
  exact hchip

theorem unturned_enlist {r : Registration} (h : Unturned id hub) :
    Unturned id (enlist r hub).2 := by
  have hevict : ∀ old, Unturned id (hub.evict r.uid old) := by
    intro old
    have herased : Unturned id { hub with registry := hub.registry.erase r.uid } := h
    exact unturned_modifyChip (by intro chip; rfl) herased
  have henlisted : ∀ {hub : Hub}, Unturned id hub → Unturned id (hub.enlisted r) := by
    intro hub h
    rw [Unturned, chip_enlisted]
    split
    · exact Chip.unturned_create _ _ _
    · exact h
  have he := enlists_enlist r hub
  generalize (enlist r hub).1 = enlistment at he
  generalize (enlist r hub).2 = hub' at he ⊢
  cases he with
  | refused | full => exact h
  | fresh => exact henlisted h
  | fullAfterEviction => exact hevict _
  | replaced => exact henlisted (hevict _)

theorem unturned_collect (h : Unturned id hub) : Unturned id (collect other pin hub).2 := by
  unfold collect
  split
  · exact h
  split
  · exact h
  · exact unturned_modifyChip (by intro chip; rfl) h

theorem unturned_deliver {m : Message} (h : Unturned id hub) : Unturned id (deliver m hub).2 := by
  unfold deliver
  split
  · exact unturned_modifyChip (by intro chip; rfl) h
  · exact h

theorem unturned_suspend (h : Unturned id hub) : Unturned id (suspend other hub).2 := by
  have hs := suspends_suspend other hub
  generalize (suspend other hub).1 = suspension at hs
  generalize (suspend other hub).2 = hub' at hs ⊢
  cases hs with
  | settled => exact h
  | unexposed | exposed => exact unturned_modifyChip (by intro chip; rfl) h

theorem unturned_unmap {uid : UInt64} (h : Unturned id hub) : Unturned id (unmap uid other hub) := by
  unfold unmap
  split <;> exact h

section Maintains

open Process

theorem keptByLines_unturned : KeptByLines other (Unturned id) where
  count _ _ h := h
  collect _ _ h := unturned_collect h
  setLevel _ _ _ h := modifyChip_of (P := Chip.Unturned)
    (fun _ => Chip.unturned_modifyMemory (by intro memory; rfl) _) h

-- Giving lines of one chip a direction is nothing to another.
theorem keptByTurns_unturned (hne : id ≠ other) : KeptByTurns other (Unturned id) where
  toKeptByLines := keptByLines_unturned
  setLineDirection hub pin direction h := by
    rw [Unturned, setLineDirection, chip_modifyChip_of_ne hne]
    exact h

theorem maintains_dispatch (m : Message) : (dispatch m).Maintains (Unturned id) := by
  simp only [dispatch, bind_eq, pure_eq, update_bind, log_bind]
  refine maintains_step (fun _ h => unturned_deliver h) fun hub => ?_
  split <;> trivial

theorem maintains_register (r : Registration) : (register r).Maintains (Unturned id) := by
  simp only [register, bind_eq, pure_eq, get_bind, update_bind, log_bind, modify_bind,
    HubProcess.expose_bind]
  split
  · trivial
  refine maintains_step (fun _ h => unturned_enlist h) fun hub => ?_
  -- Whether an eviction is logged makes no difference.
  have hlogged {next : HubProcess (Except Fault ChipId)} (hnext : next.Maintains (Unturned id))
      (evicted : Bool) (event : Event) :
      (if evicted = true then note event next else next).Maintains (Unturned id) := by
    split <;> exact hnext
  refine hlogged ?_ _ _
  split
  · trivial
  refine maintains_get fun hub => maintains_ask fun (answer : Except Fault Handle) => ?_
  split
  · exact maintains_step (fun _ h => unturned_modifyChip (by intro chip; rfl) h) fun _ => trivial
  · exact maintains_step (fun _ h => unturned_unmap h) fun _ =>
      maintains_step (fun _ h => unturned_modifyChip (by intro chip; rfl) h) fun _ => trivial

theorem maintains_firstHeld (handle : Handle) (pins : List UInt32) :
    (firstHeld handle pins).Maintains (Unturned id) := by
  induction pins with
  | nil => trivial
  | cons pin rest ih =>
    refine fun (held : Bool) => ?_
    cases held with
    | true => trivial
    | false => exact ih

theorem maintains_withdraw (uid : UInt64) : (withdraw uid).Maintains (Unturned id) := by
  simp only [withdraw, bind_eq, pure_eq, get_bind, update_bind, log_bind, modify_bind,
    HubProcess.conceal_bind]
  refine maintains_get fun hub => ?_
  split
  · trivial
  refine maintains_get fun hub => ?_
  split
  · trivial
  refine maintains_step (fun _ h => unturned_suspend h) fun hub => ?_
  split
  · trivial
  · trivial
  refine (maintains_firstHeld _ _).bind fun held => ?_
  cases held with
  | some pin =>
    exact maintains_step (fun _ h => unturned_modifyChip (by intro chip; rfl) h) fun _ => trivial
  | none =>
    exact maintains_ask fun _ =>
      maintains_step (fun _ h => unturned_modifyChip (by intro chip; rfl) h) fun _ => trivial

theorem maintains_retireAll (ids : List ChipId) : (retireAll ids).Maintains (Unturned id) := by
  induction ids with
  | nil => trivial
  | cons old rest ih =>
    simp only [retireAll, bind_eq, update_bind, modify_bind, HubProcess.conceal_bind]
    have hretire : Maintains (Unturned id)
        (step (retire old) fun _ => retireAll rest : HubProcess Unit) :=
      maintains_step (fun _ h => unturned_modifyChip (by intro chip; rfl) h) fun _ => ih
    refine maintains_step (fun _ h => unturned_modifyChip (by intro chip; rfl) h) fun hub => ?_
    split
    · exact fun _ => hretire
    · exact hretire

theorem maintains_teardown : teardown.Maintains (Unturned id) := by
  simp only [teardown, bind_eq, pure_eq, update_bind, log_bind]
  refine maintains_step (fun _ h => h) fun hub => ?_
  refine (maintains_retireAll _).bind fun _ => ?_
  split <;> trivial

end Maintains

-- What was never given a direction is remembered as an input.
theorem direction_of_unturned {uid : UInt64} (h : Unturned id hub) (hf : hub.find? uid = some id)
    (pin : UInt32) : (hub.memory uid pin).direction = .input := by
  rw [memory, hf, Option.bind_some]
  cases hm : hub.memoryOf? id pin with
  | none => rfl
  | some memory => exact h _ (List.mem_map_of_mem (List.mem_of_getElem? hm))

end Hub

namespace Core

open Process

variable {id : ChipId}

-- Whether an operation may give a line of a chip a direction. A line that is released is freed, and
-- which chip serves it is up to the table.
def Operation.turns (id : ChipId) : Operation → Bool
  | .hub (.setDirection target _ _) | .hub (.free target _) => target == id
  | .release _ _ => true
  | _ => false

theorem maintains_request (uid : UInt64) (pin : UInt32) (consumer : String)
    (free : FreeDemand ChipId → CoreProcess (Except Fault Unit)) :
    (onTable free (LineTable.request uid pin consumer)).Maintains fun core =>
      Hub.Unturned id core.hub := by
  simp only [onTable, LineTable.request, bind_eq, pure_eq, update_bind, log_bind, Process.serve]
  refine maintains_step (fun _ h => h) fun core => ?_
  cases (core.table.grant uid pin consumer).1 <;> trivial

theorem maintains_hub {operation : Hub.Operation} (h : (Operation.hub operation).turns id = false) :
    operation.process.Maintains (Hub.Unturned id) := by
  have hother {α : Type} {p : HubProcess α} (wrap : α → Hub.Outcome)
      (hp : p.Maintains (Hub.Unturned id)) :
      (p.bind fun result => done (wrap result) : HubProcess Hub.Outcome).Maintains
        (Hub.Unturned id) :=
    hp.bind fun _ => trivial
  cases operation with
  | register r => exact hother .chip (Hub.maintains_register r)
  | withdraw uid => exact hother .unit (Hub.maintains_withdraw uid)
  | teardown => exact hother .count Hub.maintains_teardown
  | dispatch m => exact hother .delivered (Hub.maintains_dispatch m)
  | call target pin request => exact hother .reply (Hub.keptByLines_unturned.call request).maintains
  | getValue target pin => exact hother .level Hub.keptByLines_unturned.getValue.maintains
  | setValue target pin level =>
    exact hother .unit (Hub.messaging_ready (Hub.keptByLines_unturned.writeLevel level)).maintains
  | setConfig target pin setting =>
    exact hother .unit (Hub.keptByLines_unturned.setConfig setting).maintains
  | setDirection target pin mode =>
    have hne : target ≠ id := by simpa [Operation.turns] using h
    exact hother .unit ((Hub.keptByTurns_unturned hne.symm).setDirection mode).maintains
  | getDirection target pin =>
    exact hother .direction (Hub.messaging_getDirection target pin).maintains
  | free target pin =>
    have hne : target ≠ id := by simpa [Operation.turns] using h
    exact hother .unit ((Hub.keptByTurns_unturned hne.symm).setDirection .disabled).maintains

theorem maintains_process {operation : Operation} (h : operation.turns id = false) :
    operation.process.Maintains fun core => Hub.Unturned id core.hub := by
  cases operation with
  | hub operation =>
    have hserved : (onHub operation.process).Maintains fun core => Hub.Unturned id core.hub :=
      (maintains_hub h).serve (fun _ _ => rfl) maintains_serve
    exact hserved.bind fun _ => trivial
  | request uid pin consumer => exact (maintains_request uid pin consumer _).bind fun _ => trivial
  | release uid pin => cases h

variable {τ : Type} {answers : Message → τ → Except TransportFault Unit → τ → Prop}
  {waits : CoreProcess Outcome → CoreProcess Outcome → Prop} {limit : Option Nat}
  {patience : UInt64} {around : τ} {last : Calls τ}

-- As long as no call may give its lines a direction, a chip is as it was made.
theorem unturned_of_run
    (hrun : Relation.ReflTransGen (Pool.Step (rules answers waits))
      ⟨{ hub := { limit, patience } }, around, []⟩ last)
    (h : ∀ call ∈ last.calls, call.1.turns id = false) : Hub.Unturned id last.state.hub := by
  suffices hmaintained : Hub.Unturned id last.state.hub ∧
      ∀ call ∈ last.calls, call.2.Maintains fun core => Hub.Unturned id core.hub from hmaintained.1
  induction hrun with
  | refl =>
    refine ⟨fun direction hdirection => ?_, fun _ hcall => absurd hcall List.not_mem_nil⟩
    cases hdirection
  | @tail pool next _ hstep ih =>
    cases hstep with
    | call operation =>
      simp only [List.forall_mem_append, List.forall_mem_singleton] at h ⊢
      obtain ⟨hunturned, hcalls⟩ := ih h.1
      exact ⟨hunturned, hcalls, maintains_process h.2⟩
    | move hmoves =>
      simp only [List.forall_mem_append, List.forall_mem_cons] at h ih ⊢
      obtain ⟨hunturned, hbefore, hp, hafter⟩ := ih h
      obtain ⟨hp', hunturned'⟩ := hp.moves hunturned hmoves
      exact ⟨hunturned', hbefore, hp', hafter⟩

end Core

end GpioBridge
