import GpioBridge.Proofs.Core.Twins

namespace GpioBridge.Core

open Process

-- What is done comes to the same on both sides.
structure Matched (uid : UInt64) (core core' : Core)
    (acted acted' : List Told × Core × List Transfer) : Prop where
  told : toldOf uid acted.1 = acted'.1
  view : acted.2.1.view uid = acted'.2.1.view uid
  left : acted'.2.2 = acted.2.2.map (·.only uid)
  fewer : core'.hub.chips.length ≤ core.hub.chips.length →
    acted'.2.1.hub.chips.length ≤ acted.2.1.hub.chips.length

-- The same is done on both sides, and what comes in for other uids meanwhile is left out on one.
def Deed.Lockstep (deed : Deed) (uid : UInt64) (transfers : List Transfer) (core core' : Core) :
    Prop :=
  Matched uid core core' ((⟨deed, transfers⟩ : Episode).act core)
    ((⟨deed, transfers.map (·.only uid)⟩ : Episode).act core')

section Run

variable {uid : UInt64} {core core' last last' : Core} {deed : Deed}
  {transfers left left' : List Transfer} {operation operation' : Operation}
  {outcome outcome' : Outcome} {heard heard' : List Told}

theorem lockstep_of_run (hdeed : deed.uid = uid)
    (hoperation : deed.operation? core.hub = some operation)
    (hoperation' : deed.operation? core'.hub = some operation')
    (hrun : operation.process.run scripted core ⟨transfers, []⟩ = (outcome, last, ⟨left, heard⟩))
    (hrun' : operation'.process.run scripted core' ⟨transfers.map (·.only uid), []⟩ =
      (outcome', last', ⟨left', heard'⟩))
    (hscript : Script.Only uid ⟨left, heard⟩ ⟨left', heard'⟩)
    (hsame : outcome.called (last.hub.rank uid) = outcome'.called (last'.hub.rank uid))
    (hview : last.view uid = last'.view uid)
    (hfewer : core'.hub.chips.length ≤ core.hub.chips.length →
      last'.hub.chips.length ≤ last.hub.chips.length) :
    deed.Lockstep uid transfers core core' := by
  rw [Deed.Lockstep, act_of_run hoperation hrun, act_of_run hoperation' hrun']
  refine ⟨?_, hview, hscript.left, hfewer⟩
  obtain rfl : heard' = toldOf uid heard := hscript.heard
  rw [toldOf_concat, if_pos hdeed, hdeed, hsame]

-- What sends no messages leaves all the transfers.
theorem lockstep_of_alone (hdeed : deed.uid = uid)
    (hoperation : deed.operation? core.hub = some operation)
    (hoperation' : deed.operation? core'.hub = some operation')
    (hrun : ∀ script, operation.process.run scripted core script = (outcome, last, script))
    (hrun' : ∀ script, operation'.process.run scripted core' script = (outcome', last', script))
    (hsame : outcome.called (last.hub.rank uid) = outcome'.called (last'.hub.rank uid))
    (hview : last.view uid = last'.view uid)
    (hfewer : core'.hub.chips.length ≤ core.hub.chips.length →
      last'.hub.chips.length ≤ last.hub.chips.length) :
    deed.Lockstep uid transfers core core' :=
  lockstep_of_run hdeed hoperation hoperation' (hrun _) (hrun' _) ⟨rfl, rfl⟩ hsame hview hfewer

end Run

section Own

variable {uid : UInt64} {core core' : Core} (transfers : List Transfer)
  (h : Twin uid core core') (ha : Aligned .plain core) (ha' : Aligned .plain core')
include h ha ha'

theorem lockstep_register {r : Registration} (hr : r.uid = uid) (hlimit : core.hub.limit = none)
    (hlimit' : core'.hub.limit = none) :
    (Deed.register r).Lockstep uid transfers core core' := by
  subst hr
  obtain ⟨result, last, hrun, hregisters⟩ := run_registration r core
  obtain ⟨result', last', hrun', hregisters'⟩ := run_registration r core'
  have hboth := (view_of_registers hregisters ha hlimit).trans
    ((congrArg (View.register r) h.view).trans
      (view_of_registers hregisters' ha' hlimit').symm)
  obtain ⟨hresult, hview⟩ := Prod.mk.inj hboth
  refine lockstep_of_alone rfl rfl rfl hrun hrun'
    (congrArg (fun result => Outcome.hub (.chip result)) hresult) hview fun hfewer => ?_
  have hok : result'.isOk = result.isOk := by
    cases result <;> cases result' <;> first | rfl | cases hresult
  rw [length_of_registers hregisters ha hlimit, length_of_registers hregisters' ha' hlimit', hok]
  exact Nat.add_le_add_right hfewer _

theorem lockstep_withdraw :
    (Deed.withdraw uid).Lockstep uid transfers core core' := by
  obtain ⟨result, last, hrun, hwithdraws⟩ := run_withdrawal uid core
  obtain ⟨result', last', hrun', hwithdraws'⟩ := run_withdrawal uid core'
  have hboth := (view_of_withdraws hwithdraws ha).trans
    ((congrArg View.withdraw h.view).trans
      (view_of_withdraws hwithdraws' ha').symm)
  obtain ⟨rfl, hview⟩ := Prod.mk.inj hboth
  refine lockstep_of_alone rfl rfl rfl hrun hrun' rfl hview fun hfewer => ?_
  rwa [length_of_withdraws hwithdraws, length_of_withdraws hwithdraws']

omit ha ha' in
theorem lockstep_request (pin : UInt32) (consumer : String) :
    (Deed.request uid pin consumer).Lockstep uid transfers core core' := by
  obtain ⟨hresult, hexposed⟩ := h.grant pin consumer
  exact lockstep_of_alone rfl rfl rfl (run_request uid pin consumer core)
    (run_request uid pin consumer core') (congrArg Outcome.requested hresult)
    (view_eq h.hub.view hexposed) id

omit ha ha' in
theorem lockstep_dispatch {m : Message} (hm : m.uid = uid) :
    (Deed.dispatch m).Lockstep uid transfers core core' := by
  obtain ⟨hsame, htwin⟩ := h.hub.deliver hm
  refine lockstep_of_alone hm rfl rfl (run_delivery m core) (run_delivery m core') ?_
    (view_eq htwin.view ?_) fun hfewer => ?_
  · rw [hsame]
    rfl
  · rw [exposed_of_idsOf (Hub.idsOf_of_uids (Hub.uids_deliver m core.hub)),
      exposed_of_idsOf (Hub.idsOf_of_uids (Hub.uids_deliver m core'.hub)), h.exposed]
  · rwa [Hub.length_of_outline (Hub.outline_deliver m core.hub),
      Hub.length_of_outline (Hub.outline_deliver m core'.hub)]

omit ha ha' in
theorem lockstep_use (name : ChipId) (pin : UInt32) (action : Action) :
    (Deed.use uid name pin action).Lockstep uid transfers core core' := by
  rcases h.hub.named name with ⟨hnone, hnone'⟩ | ⟨id, id', htied⟩
  · simp only [Deed.Lockstep, Episode.act, Deed.operation?, hnone, hnone', Option.map_none]
    exact ⟨rfl, h.view, rfl, fun hfewer => hfewer⟩
  have hidle : ∀ id, (Operation.hub (action.operation id pin)).isLifecycle = false := by
    intro id
    cases action <;> rfl
  have hkept := outline_of_process (.hub (action.operation id pin)) (hidle id) core ⟨transfers, []⟩
  have hkept' := outline_of_process (.hub (action.operation id' pin)) (hidle id') core'
    ⟨transfers.map (·.only uid), []⟩
  rw [run_hub] at hkept hkept'
  obtain ⟨hsame, ⟨hlast, htable, htable'⟩, hscript⟩ :=
    run_together (twins_action uid name id id' pin action) htied transfers
  refine lockstep_of_run rfl (by simp [Deed.operation?, htied.named])
    (by simp [Deed.operation?, htied.named']) (run_hub _ core _) (run_hub _ core' _) hscript
    (hsame _ _) (view_eq hlast.view ?_) fun hfewer => ?_
  · rw [exposed_of_outline htable hkept, exposed_of_outline htable' hkept', h.exposed]
  · rwa [Hub.length_of_outline hkept, Hub.length_of_outline hkept']

theorem lockstep_release (pin : UInt32) :
    (Deed.release uid pin).Lockstep uid transfers core core' := by
  rcases h.releasable pin with ⟨fault, he, he'⟩ | ⟨exposed, exposed', hf, hf', ho, ho'⟩
  · exact lockstep_of_alone rfl rfl rfl (run_release_of_error he) (run_release_of_error he') rfl
      h.view fun hfewer => hfewer
  obtain ⟨name, htied⟩ := h.tied_of_exposed ha ha' hf hf'
  have hfree : Hub.Parallel uid name exposed.ops exposed'.ops (Hub.free exposed.ops pin)
      (Hub.free exposed'.ops pin) := Hub.twins_setDirection uid name _ _ pin .disabled
  have htogether := run_together hfree htied transfers
  rcases hrun : (onHub (Hub.free exposed.ops pin)).run scripted core ⟨transfers, []⟩ with
    ⟨result, last, left, heard⟩
  rcases hrun' : (onHub (Hub.free exposed'.ops pin)).run scripted core'
    ⟨transfers.map (·.only uid), []⟩ with ⟨result', last', left', heard'⟩
  simp only [hrun, hrun'] at htogether
  obtain ⟨-, ⟨hlast, htable, htable'⟩, hscript⟩ := htogether
  have hreleased := run_release ho hrun
  have hreleased' := run_release ho' hrun'
  have hkept := outline_of_process (.release uid pin) rfl core ⟨transfers, []⟩
  have hkept' := outline_of_process (.release uid pin) rfl core' ⟨transfers.map (·.only uid), []⟩
  rw [hreleased] at hkept
  rw [hreleased'] at hkept'
  refine lockstep_of_run rfl rfl rfl hreleased hreleased' hscript rfl (view_eq hlast.view ?_)
    fun hfewer => ?_
  · rw [exposed_setHolder, exposed_setHolder,
      exposed_of_outline htable hkept, exposed_of_outline htable' hkept', h.exposed]
  · rwa [Hub.length_of_outline hkept, Hub.length_of_outline hkept']

end Own

end GpioBridge.Core
