import GpioBridge.Hub.Control
import GpioBridge.Proofs.Core.Consistency

namespace GpioBridge.Core

open Hub (enlist)

-- A transport that keeps what it is given and says what became of it.
def sending (outcome : Message → Except TransportFault Unit) :
    Process.Surroundings Core (List Message) Message fun _ => Except TransportFault Unit where
  answer m core sent := (outcome m, core, sent ++ [m])
  hear _ sent := sent

section Run

variable {α : Type} (outcome : Message → Except TransportFault Unit) (core : Core)
  (sent : List Message)

@[simp]
theorem run_onHub_note (event : Event) (next : HubProcess α) :
    (onHub (.note event next)).run (sending outcome) core sent =
      (onHub next).run (sending outcome) core sent := rfl

@[simp]
theorem run_onHub_step (change : Hub → Hub) (next : Hub → HubProcess α) :
    (onHub (.step change next)).run (sending outcome) core sent =
      (onHub (next core.hub)).run (sending outcome) { core with hub := change core.hub } sent := rfl

theorem run_onHub_expose (descriptor : Descriptor) (id : ChipId)
    (next : Except Fault Handle → HubProcess α) :
    (onHub (.ask (.expose descriptor id) next)).run (sending outcome) core sent =
      (onHub (next (core.table.add descriptor id).1)).run (sending outcome)
        { core with table := (core.table.add descriptor id).2 } sent := by
  have hexpose : (serve (.expose descriptor id)).run (sending outcome) core sent =
      ((core.table.add descriptor id).1, { core with table := (core.table.add descriptor id).2 },
        sent) := by
    simp only [serve, onTable, LineTable.expose, Process.bind_eq, Process.pure_eq,
      Process.update_bind, Process.log_bind, Process.serve, Process.run]
    cases (core.table.add descriptor id).1 <;> rfl
  change ((serve (.expose descriptor id)).bind fun answer => onHub (next answer)).run _ core sent = _
  rw [Process.run_bind, hexpose]

theorem run_onHub_conceal (handle : Handle) (next : Unit → HubProcess α) :
    (onHub (.ask (.conceal handle) next)).run (sending outcome) core sent =
      (onHub (next ())).run (sending outcome)
        { core with table := (core.table.remove handle).2 } sent := by
  have hconceal : (serve (.conceal handle)).run (sending outcome) core sent =
      (((), { core with table := (core.table.remove handle).2 }, sent) :
        Unit × Core × List Message) := by
    simp only [serve, onTable, LineTable.conceal, Process.bind_eq, Process.pure_eq,
      Process.update_bind, Process.serve, Process.run]
    cases (core.table.remove handle).1 <;> rfl
  change ((serve (.conceal handle)).bind fun answer => onHub (next answer)).run _ core sent = _
  rw [Process.run_bind, hconceal]

-- The lines are asked for one by one, up to the first that is held.
theorem run_onHub_firstHeld (handle : Handle) (pins : List UInt32) :
    (onHub (Hub.firstHeld handle pins)).run (sending outcome) core sent =
      (pins.find? (core.table.isHeld handle), core, sent) := by
  induction pins with
  | nil => rfl
  | cons pin rest ih =>
    have hstep : (onHub (Hub.firstHeld handle (pin :: rest))).run (sending outcome) core sent =
        (onHub (if core.table.isHeld handle pin then .done (some pin)
          else Hub.firstHeld handle rest)).run (sending outcome) core sent := rfl
    rw [hstep, List.find?_cons]
    split <;> simp_all

end Run

-- What registering comes to on a core.
inductive Registers (r : Registration) (core : Core) : Except Fault ChipId → Core → Prop where
  | broken {fault} (h : r.check = .error fault) : Registers r core (.error fault) core
  | refused {fault} (hc : r.check = .ok ())
      (h : (enlist r core.hub).1.outcome = .error fault) :
      Registers r core (.error fault) { core with hub := (enlist r core.hub).2 }
  | exposed {id handle} (hc : r.check = .ok ()) (h : (enlist r core.hub).1.outcome = .ok id)
      (ha : (core.table.add ((enlist r core.hub).2.chip id).descriptor id).1 = .ok handle) :
      Registers r core (.ok id)
        ⟨(enlist r core.hub).2.confirm id handle,
          (core.table.add ((enlist r core.hub).2.chip id).descriptor id).2⟩
  | unexposed {id fault} (hc : r.check = .ok ()) (h : (enlist r core.hub).1.outcome = .ok id)
      (ha : (core.table.add ((enlist r core.hub).2.chip id).descriptor id).1 = .error fault) :
      Registers r core (.error fault)
        ⟨Hub.abandon id (Hub.unmap r.uid id (enlist r core.hub).2),
          (core.table.add ((enlist r core.hub).2.chip id).descriptor id).2⟩

theorem run_register (r : Registration) (core : Core) :
    ∃ result core', (∀ outcome sent, (onHub (Hub.register r)).run (sending outcome) core sent =
      (result, core', sent)) ∧ Registers r core result core' := by
  have hlogged : ∀ (evicted : Bool) (event : Event) (p : HubProcess (Except Fault ChipId)) outcome
      core sent, (onHub (if evicted = true then .note event p else p)).run (sending outcome) core sent =
        (onHub p).run (sending outcome) core sent := by
    intro evicted event p outcome core sent
    cases evicted <;> rfl
  simp only [Hub.register, Process.bind_eq, Process.pure_eq, Process.get_bind, Process.update_bind,
    Process.log_bind, Process.modify_bind, HubProcess.expose_bind]
  cases hc : r.check with
  | error fault => exact ⟨_, _, fun _ _ => rfl, .broken hc⟩
  | ok done =>
    simp only [run_onHub_step, hlogged]
    cases ho : (enlist r core.hub).1.outcome with
    | error fault => exact ⟨_, _, fun _ _ => rfl, .refused hc ho⟩
    | ok id =>
      simp only [run_onHub_step, run_onHub_expose, id_eq]
      cases ha : (core.table.add ((enlist r core.hub).2.chip id).descriptor id).1 with
      | ok handle => exact ⟨_, _, fun _ _ => rfl, .exposed hc ho ha⟩
      | error fault => exact ⟨_, _, fun _ _ => rfl, .unexposed hc ho ha⟩

-- What withdrawing comes to on a core.
inductive Withdraws (uid : UInt64) (core : Core) : Except Fault Unit → Core → Prop where
  | unknown (hf : core.hub.find? uid = none) : Withdraws uid core (.ok ()) core
  | unregistered {id} (hf : core.hub.find? uid = some id)
      (hr : (core.hub.chip id).registered = false) : Withdraws uid core (.ok ()) core
  | unexposed {id} (hf : core.hub.find? uid = some id) (hr : (core.hub.chip id).registered = true)
      (hh : (core.hub.chip id).handle = none) :
      Withdraws uid core (.ok ()) { core with hub := (Hub.suspend id core.hub).2 }
  | held {id handle} (hf : core.hub.find? uid = some id) (hr : (core.hub.chip id).registered = true)
      (hh : (core.hub.chip id).handle = some handle)
      (hheld : (Hub.pins (core.hub.chip id).lineCount).any (core.table.isHeld handle) = true) :
      Withdraws uid core (.error .busy)
        { core with hub := Hub.resume id (Hub.suspend id core.hub).2 }
  | released {id handle} (hf : core.hub.find? uid = some id)
      (hr : (core.hub.chip id).registered = true) (hh : (core.hub.chip id).handle = some handle)
      (hfree : (Hub.pins (core.hub.chip id).lineCount).any (core.table.isHeld handle) = false) :
      Withdraws uid core (.ok ())
        ⟨Hub.release id (Hub.suspend id core.hub).2, (core.table.remove handle).2⟩

theorem run_withdraw_alone (uid : UInt64) (core : Core) :
    ∃ result core', (∀ outcome sent, (onHub (Hub.withdraw uid)).run (sending outcome) core sent =
      (result, core', sent)) ∧ Withdraws uid core result core' := by
  simp only [Hub.withdraw, Process.bind_eq, Process.pure_eq, Process.get_bind, Process.update_bind,
    Process.log_bind, Process.modify_bind, HubProcess.conceal_bind, run_onHub_step, id_eq]
  cases hf : core.hub.find? uid with
  | none => exact ⟨_, _, fun _ _ => rfl, .unknown hf⟩
  | some id =>
    simp only [run_onHub_step, id_eq]
    cases hr : (core.hub.chip id).registered with
    | false => exact ⟨_, _, fun _ _ => rfl, .unregistered hf hr⟩
    | true =>
      simp only [Bool.not_true, Bool.false_eq_true, if_false, run_onHub_step]
      cases hh : (core.hub.chip id).handle with
      | none =>
        have hs : (Hub.suspend id core.hub).1 = .unexposed := by simp [Hub.suspend, hr, hh]
        simp only [hs]
        exact ⟨_, _, fun _ _ => rfl, .unexposed hf hr hh⟩
      | some handle =>
        have hs := congrArg Prod.fst (Hub.suspend_of_registered hr hh)
        simp only [hs, onHub_bind, Process.run_bind, run_onHub_firstHeld]
        cases hp : (Hub.pins (core.hub.chip id).lineCount).find? (core.table.isHeld handle) with
        | some pin =>
          have hheld := List.any_of_mem (List.mem_of_find?_eq_some hp) (List.find?_some hp)
          exact ⟨_, _, fun _ _ => rfl, .held hf hr hh hheld⟩
        | none =>
          have hfree := List.any_eq_false.mpr (List.find?_eq_none.mp hp)
          simp only [run_onHub_conceal]
          exact ⟨_, _, fun _ _ => rfl, .released hf hr hh hfree⟩

-- The registration made a chip, which its uid names now, and which is ready and exposed as it was
-- asked for.
structure Brings (r : Registration) (core core' : Core) (id : ChipId) : Prop where
  fresh : ¬core.hub.Has id
  mapped : core'.hub.find? r.uid = some id
  initialized : (core'.hub.chip id).initialized = true
  registered : (core'.hub.chip id).registered = true
  exposed : ∃ exposed, core'.table.find? r.uid = some exposed ∧ exposed.ops = id ∧
    exposed.descriptor = ⟨r.uid, if r.label = "" then s!"vgpio-{r.uid}" else r.label, r.names⟩

-- What was exposed for a uid before is exposed as it was, and so is its chip.
structure Preserves (uid : UInt64) (core core' : Core) : Prop where
  table : core'.table = core.table
  chips : ∀ exposed ∈ core.table.chips, exposed.descriptor.uid = uid →
    core'.hub.find? uid = some exposed.ops ∧
      core'.hub.chip exposed.ops = core.hub.chip exposed.ops

section Truth

variable {core core' : Core} {r : Registration} {uid : UInt64} {id : ChipId} {fault : Fault}

theorem Consistent.has (h : Consistent core) (hf : core.hub.find? uid = some id) :
    core.hub.Has id := by
  obtain ⟨hne, huid⟩ := h.keyed hf
  by_contra hnone
  rw [Hub.chip_of_not_has hnone] at huid
  exact hne huid.symm

theorem Consistent.preserves_refl (h : Consistent core) (uid : UInt64) : Preserves uid core core where
  table := rfl
  chips exposed he huid := by
    obtain ⟨hf, -⟩ := h.registered exposed he
    exact ⟨huid ▸ hf, rfl⟩

-- While the chip of a uid does not count as exposed, nothing is exposed for the uid.
theorem Consistent.unshown (h : Consistent core)
    (hr : ∀ id, core.hub.find? uid = some id → (core.hub.chip id).registered = false) :
    ∀ exposed ∈ core.table.chips, exposed.descriptor.uid ≠ uid := by
  rintro exposed he rfl
  obtain ⟨hf, hreg, -⟩ := h.registered exposed he
  rw [hr _ hf] at hreg
  cases hreg

theorem Consistent.not_brings (h : Consistent core)
    (hf : ∀ id, core'.hub.find? r.uid = some id → core.hub.find? r.uid = some id) :
    ¬∃ id, Brings r core core' id :=
  fun ⟨id, hb⟩ => hb.fresh (h.has (hf id hb.mapped))

theorem find?_add_of_unshown {table : LineTable ChipId} {descriptor : Descriptor}
    (h : ∀ exposed ∈ table.chips, exposed.descriptor.uid ≠ descriptor.uid) (ops : ChipId) :
    (table.add descriptor ops).1 = .ok ⟨table.nextHandle⟩ ∧
      (table.add descriptor ops).2.find? descriptor.uid =
        some ⟨⟨table.nextHandle⟩, descriptor, ops, descriptor.names.map fun _ => none⟩ := by
  have hnone : table.find? descriptor.uid = none :=
    List.find?_eq_none.mpr fun exposed he => by simpa using h exposed he
  have hothers : (table.chips.filter (·.handle != ⟨table.nextHandle⟩)).find?
      (·.descriptor.uid == descriptor.uid) = none :=
    List.find?_eq_none.mpr fun exposed he => by simpa using h exposed (List.mem_of_mem_filter he)
  rw [LineTable.add, hnone]
  refine ⟨rfl, ?_⟩
  change List.find? _ (_ ++ _) = _
  rw [List.find?_append, hothers, Option.none_or, List.find?_singleton, if_pos (by simp)]

-- What an enlistment that succeeds has made.
theorem enlisted_of_ok {hub : Hub} (ho : (enlist r hub).1.outcome = .ok id) :
    ¬hub.Has id ∧ (∀ stale, hub.find? r.uid = some stale → (hub.chip stale).registered = false) ∧
      (enlist r hub).2.find? r.uid = some id ∧ (enlist r hub).2.Has id ∧
        (enlist r hub).2.chip id = r.chip := by
  have he := Hub.enlists_enlist r hub
  generalize (enlist r hub).1 = enlistment at he ho
  generalize (enlist r hub).2 = hub' at he ⊢
  cases he with
  | refused | full | fullAfterEviction => cases ho
  | fresh hf =>
    cases ho
    refine ⟨hub.not_has_nextId, fun stale hstale => ?_, ?_, Hub.has_enlisted.mpr (.inr rfl),
      Hub.chip_enlisted_nextId hub r⟩
    · rw [hf] at hstale
      cases hstale
    · rw [Hub.find?_enlisted, if_pos rfl]
  | @replaced stale hf _ hr =>
    cases ho
    rw [← Hub.nextId_evict hub r.uid stale]
    refine ⟨?_, fun other hother => ?_, ?_, Hub.has_enlisted.mpr (.inr rfl),
      Hub.chip_enlisted_nextId _ r⟩
    · rw [Hub.nextId_evict]
      exact hub.not_has_nextId
    · rw [hf] at hother
      cases hother
      exact hr
    · rw [Hub.find?_enlisted, if_pos rfl]

-- An enlistment that fails gives the uid no other chip, and evicts a chip at most if nothing is
-- exposed for the uid.
theorem enlisted_of_error (h : Consistent core) (ho : (enlist r core.hub).1.outcome = .error fault) :
    (∀ id, (enlist r core.hub).2.find? r.uid = some id → core.hub.find? r.uid = some id) ∧
      Preserves r.uid core { core with hub := (enlist r core.hub).2 } := by
  have he := Hub.enlists_enlist r core.hub
  generalize (enlist r core.hub).1 = enlistment at he ho
  generalize (enlist r core.hub).2 = hub' at he ⊢
  cases he with
  | refused | full => exact ⟨fun _ hf => hf, h.preserves_refl r.uid⟩
  | fresh | replaced => cases ho
  | @fullAfterEviction stale _ hf _ hr =>
    refine ⟨fun _ => Hub.find?_of_evict, rfl, fun exposed he huid => ?_⟩
    refine absurd huid (h.unshown (fun id hid => ?_) exposed he)
    rw [hf] at hid
    cases hid
    exact hr

theorem descriptor_chip (r : Registration) :
    r.chip.descriptor = ⟨r.uid, if r.label = "" then s!"vgpio-{r.uid}" else r.label, r.names⟩ := by
  simp [Registration.chip, Chip.create, Chip.descriptor, Registration.chipLabel]

theorem Registers.truth {result : Except Fault ChipId} (hr : Registers r core result core')
    (h : Consistent core) :
    ((∃ id, result = .ok id) ↔ ∃ id, Brings r core core' id) ∧
      ∀ fault, result = .error fault → Preserves r.uid core core' := by
  have hfails : ∀ {fault core'}, (¬∃ id, Brings r core core' id) → Preserves r.uid core core' →
      ((∃ id, (.error fault : Except Fault ChipId) = .ok id) ↔ ∃ id, Brings r core core' id) ∧
        ∀ other, (.error fault : Except Fault ChipId) = .error other → Preserves r.uid core core' :=
    fun hnot hkept => ⟨⟨fun ⟨_, heq⟩ => (nomatch heq), fun hb => absurd hb hnot⟩, fun _ _ => hkept⟩
  cases hr with
  | broken => exact hfails (h.not_brings fun _ hf => hf) (h.preserves_refl r.uid)
  | refused _ ho =>
    obtain ⟨hf, hkept⟩ := enlisted_of_error h ho
    exact hfails (h.not_brings hf) hkept
  | @exposed id handle _ ho ha =>
    obtain ⟨hfresh, hstale, hf, hhas, hchip⟩ := enlisted_of_ok ho
    refine ⟨⟨fun _ => ⟨id, ?_⟩, fun _ => ⟨id, rfl⟩⟩, nofun⟩
    have hconfirmed := Hub.chip_modifyChip_self hhas fun chip =>
      { chip with handle := some handle, registered := true }
    rw [hchip] at hconfirmed ⊢
    have hshown := find?_add_of_unshown (h.unshown hstale : ∀ exposed ∈ core.table.chips,
      exposed.descriptor.uid ≠ r.chip.descriptor.uid) id
    exact ⟨hfresh, hf, congrArg Chip.initialized hconfirmed, congrArg Chip.registered hconfirmed, _,
      hshown.2, rfl, descriptor_chip r⟩
  | unexposed _ ho ha =>
    obtain ⟨-, hstale, -, -, hchip⟩ := enlisted_of_ok ho
    have hshown := find?_add_of_unshown (h.unshown hstale : ∀ exposed ∈ core.table.chips,
      exposed.descriptor.uid ≠ r.chip.descriptor.uid)
    rw [hchip, (hshown _).1] at ha
    cases ha

theorem Withdraws.truth {result : Except Fault Unit} (hw : Withdraws uid core result core')
    (h : Consistent core) :
    (result = .ok () ↔ ∀ exposed ∈ core'.table.chips, exposed.descriptor.uid ≠ uid) ∧
      ∀ fault, result = .error fault → Preserves uid core core' := by
  cases hw with
  | unknown hf =>
    refine ⟨⟨fun _ => h.unshown fun id hid => ?_, fun _ => rfl⟩, nofun⟩
    rw [hf] at hid
    cases hid
  | @unregistered id hf hr =>
    refine ⟨⟨fun _ => h.unshown fun other hother => ?_, fun _ => rfl⟩, nofun⟩
    rw [hf] at hother
    cases hother
    exact hr
  | unexposed hf hr hh =>
    have hsome := (h.marked hf).mp hr
    rw [hh] at hsome
    cases hsome
  | @held id handle hf hr hh _ =>
    have hback : Hub.resume id (Hub.suspend id core.hub).2 = core.hub := by
      rw [Hub.suspend_of_registered hr hh]
      exact Hub.resume_suspended (h.ready hf hr)
    rw [hback]
    obtain ⟨handle', exposed, -, he, hd, -⟩ := h.exposed hf hr
    have hshown : ¬∀ exposed ∈ core.table.chips, exposed.descriptor.uid ≠ uid := fun hnone =>
      hnone exposed (List.mem_of_find?_eq_some he) (by rw [hd]; exact (h.keyed hf).2)
    exact ⟨⟨nofun, fun hnone => absurd hnone hshown⟩, fun _ _ => h.preserves_refl uid⟩
  | @released id handle hf hr hh _ =>
    refine ⟨⟨fun _ exposed he huid => ?_, fun _ => rfl⟩, nofun⟩
    obtain ⟨hmem, hne⟩ := LineTable.mem_remove.mp he
    obtain ⟨hfound, -, hown, -⟩ := h.registered exposed hmem
    rw [huid, hf] at hfound
    cases hfound
    rw [hh] at hown
    exact hne (Option.some.inj hown).symm

end Truth

-- What becomes of a message that nobody depends on makes no difference.
theorem run_sendBestEffort (m : Message) (outcome : Message → Except TransportFault Unit)
    (core : Core) (sent : List Message) :
    (onHub (Hub.sendBestEffort m)).run (sending outcome) core sent = ((), core, sent ++ [m]) := by
  simp only [Hub.sendBestEffort, Process.bind_eq, HubProcess.send_bind, onHub_send, Process.run,
    sending]
  split <;> rfl

-- A control message is carried out, and then what came of it is sent.
theorem run_answerControl_init (uid : UInt64) (lineCount : UInt32) (label : String)
    (names : List String) {core core' : Core} {result : Except Fault ChipId}
    (h : ∀ outcome sent, (onHub (Hub.register ⟨uid, label, lineCount, names⟩)).run (sending outcome)
      core sent = (result, core', sent)) (outcome : Message → Except TransportFault Unit) :
    (onHub (Hub.answerControl (.init uid lineCount label names))).run (sending outcome) core [] =
      ((), core', [.initAck uid (ackStatus result)]) := by
  simp only [Hub.answerControl, Process.bind_eq, onHub_bind, Process.run_bind, h]
  cases result <;> exact run_sendBestEffort ..

theorem run_answerControl_deinit (uid : UInt64) {core core' : Core} {result : Except Fault Unit}
    (h : ∀ outcome sent, (onHub (Hub.withdraw uid)).run (sending outcome) core sent =
      (result, core', sent)) (outcome : Message → Except TransportFault Unit) :
    (onHub (Hub.answerControl (.deinit uid))).run (sending outcome) core [] =
      ((), core', [.deinitAck uid (ackStatus result) .current]) := by
  simp only [Hub.answerControl, Process.bind_eq, onHub_bind, Process.run_bind, h]
  cases result <;> exact run_sendBestEffort ..

-- A status of zero says that something has been done. Any other is the number of the fault that
-- kept it from being done, and what was exposed for the uid is as it was.
structure Tells {α : Type} (operation : HubProcess (Except Fault α)) (uid : UInt64)
    (core core' : Core) (done : Prop) (status : UInt32) : Prop where
  success : status = 0 ↔ done
  failure : status ≠ 0 → Preserves uid core core' ∧ ∃ fault, status = fault.errno ∧
    ∀ outcome, ((onHub operation).run (sending outcome) core []).1 = .error fault

theorem tells_of_run {α : Type} {operation : HubProcess (Except Fault α)} {uid : UInt64}
    {core core' : Core} {done : Prop} {result : Except Fault α}
    (hrun : ∀ outcome sent, (onHub operation).run (sending outcome) core sent = (result, core', sent))
    (hdone : (∃ value, result = .ok value) ↔ done)
    (hkept : ∀ fault, result = .error fault → Preserves uid core core') :
    Tells operation uid core core' done (ackStatus result) where
  success := (ackStatus_eq_zero_iff result).trans hdone
  failure hne := by
    cases hresult : result with
    | ok value =>
      rw [hresult] at hne
      exact absurd rfl hne
    | error fault => exact ⟨hkept fault hresult, fault, rfl, fun outcome => by rw [hrun, hresult]⟩

-- What a message to the service leaves of a core, and what is sent for it.
def Acknowledged (core core' : Core) (sent : List Message) : Message → Prop
  | .init uid lineCount label names => ∃ status, sent = [.initAck uid status] ∧
      Tells (Hub.register ⟨uid, label, lineCount, names⟩) uid core core'
        (∃ id, Brings ⟨uid, label, lineCount, names⟩ core core' id) status
  | .deinit uid => ∃ status, sent = [.deinitAck uid status .current] ∧
      Tells (Hub.withdraw uid) uid core core'
        (∀ exposed ∈ core'.table.chips, exposed.descriptor.uid ≠ uid) status
  | _ => sent = [] ∧ core' = core

variable {τ : Type} {answers : Message → τ → Except TransportFault Unit → τ → Prop}
  {processWaits : CoreProcess Outcome → CoreProcess Outcome → Prop}
  {limit : Option Nat} {patience : UInt64} {around : τ} {last : Calls τ}

-- Whatever became of a core so far, an acknowledgement tells what came of its message, and whether
-- it could be sent makes no difference to the core.
theorem acknowledged_of_run
    (hrun : Relation.ReflTransGen (Solo (rules answers processWaits))
      ⟨{ hub := { limit, patience } }, around, []⟩ last)
    (hb : last.state.hub.chips.length < 2 ^ 64)
    (hquiet : ∀ call ∈ last.calls, ¬Changing call) (m : Message) :
    ∃ core' sent, (∀ outcome, (onHub (Hub.answerControl m)).run (sending outcome) last.state [] =
      ((), core', sent)) ∧ Acknowledged last.state core' sent m := by
  obtain ⟨stages, hstands, hin⟩ := inStep_of_run hrun
  have hconsistent := consistent_of_quiet hstands (hin hb).1 hquiet
  cases m with
  | init uid lineCount label names =>
    obtain ⟨result, core', hregister, hr⟩ := run_register ⟨uid, label, lineCount, names⟩ last.state
    obtain ⟨hdone, hkept⟩ := hr.truth hconsistent
    exact ⟨core', _, run_answerControl_init uid lineCount label names hregister, _, rfl,
      tells_of_run hregister hdone hkept⟩
  | deinit uid =>
    obtain ⟨result, core', hwithdraw, hw⟩ := run_withdraw_alone uid last.state
    obtain ⟨hdone, hkept⟩ := hw.truth hconsistent
    refine ⟨core', _, run_answerControl_deinit uid hwithdraw, _, rfl, tells_of_run hwithdraw ?_ hkept⟩
    exact ⟨fun ⟨_, hok⟩ => hdone.mp hok, fun hnone => ⟨(), hdone.mpr hnone⟩⟩
  | _ => exact ⟨last.state, [], fun _ => rfl, rfl, rfl⟩

-- A chip is exposed and somebody holds a line of it.
def heldLine : List (Pool.Turn Operation) :=
  List.flatten [
    .call (.hub (.register ⟨5, "relay", 1, ["coil"]⟩)) :: List.replicate 9 (.move 0),
    .call (.request 5 0 "valve") :: List.replicate 9 (.move 1)]

-- Its withdrawal is refused then, and another chip can be registered.
theorem acknowledged_of_run_heldLine :
    ∃ last : Calls Unit,
      Relation.ReflTransGen (Solo (rules (fun _ _ _ _ => True) fun _ _ => False)) ⟨{}, (), []⟩ last ∧
      (∃ core', (∀ outcome, (onHub (Hub.answerControl (.deinit 5))).run (sending outcome) last.state
          [] = ((), core', [.deinitAck 5 16 .current])) ∧ Preserves 5 last.state core') ∧
      ∃ core' id, (∀ outcome, (onHub (Hub.answerControl (.init 7 1 "" ["lamp"]))).run
          (sending outcome) last.state [] = ((), core', [.initAck 7 0])) ∧
        Brings ⟨7, "", 1, ["lamp"]⟩ last.state core' id := by
  have hplay : (playAlone heldLine).any fun run => run.getLast?.any fun last =>
      (∀ call ∈ last.calls, call.2.Returned) ∧ last.state.hub.chips.length = 1 ∧
        ((onHub (Hub.answerControl (.deinit 5))).run (sending fun _ => .ok ()) last.state []).2.2 =
          [.deinitAck 5 16 .current] ∧
        ((onHub (Hub.answerControl (.init 7 1 "" ["lamp"]))).run (sending fun _ => .ok ())
          last.state []).2.2 = [.initAck 7 0] := by
    decide +kernel
  obtain ⟨run, hturns, hends⟩ := (Option.any_eq_true ..).mp hplay
  obtain ⟨last, hlast, hends⟩ := (Option.any_eq_true ..).mp hends
  obtain ⟨hreturned, hmade, hdeinit, hinit⟩ := of_decide_eq_true hends
  have hquiet : ∀ call ∈ last.calls, ¬Changing call := fun call hcall h => h.2 (hreturned call hcall)
  have hb : last.state.hub.chips.length < 2 ^ 64 := by omega
  have hrun := reaches_of_playAlone hturns hlast
  refine ⟨last, hrun, ?_, ?_⟩
  · obtain ⟨core', sent, hanswer, status, rfl, htells⟩ :=
      acknowledged_of_run hrun hb hquiet (.deinit 5)
    rw [hanswer] at hdeinit
    obtain rfl : status = 16 := by simpa using hdeinit
    exact ⟨core', hanswer, (htells.failure (by decide)).1⟩
  · obtain ⟨core', sent, hanswer, status, rfl, htells⟩ :=
      acknowledged_of_run hrun hb hquiet (.init 7 1 "" ["lamp"])
    rw [hanswer] at hinit
    obtain rfl : status = 0 := by simpa using hinit
    obtain ⟨id, hbrings⟩ := htells.success.mp rfl
    exact ⟨core', id, hanswer, hbrings⟩

end GpioBridge.Core
