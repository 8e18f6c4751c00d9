import GpioBridge.Proofs.Core.Acknowledgement
import GpioBridge.Proofs.Hub.View
import GpioBridge.Proofs.LineTable.Holder

namespace GpioBridge

-- All there is to an exposure but its handle, its chip being called so.
def Exposed.called (call : ChipId → ChipId) (exposed : Exposed ChipId) : Exposed ChipId :=
  { exposed with handle := default, ops := call exposed.ops }

-- A chip that has been withdrawn.
def Chip.withdrawn (chip : Chip) : Chip :=
  { chip with initialized := false, handle := none, registered := false }

theorem Hub.release_suspended {hub : Hub} {id : ChipId} {handle : Handle}
    (hr : (hub.chip id).registered = true) (hh : (hub.chip id).handle = some handle) :
    Hub.release id (Hub.suspend id hub).2 = hub.modifyChip id Chip.withdrawn := by
  rw [Hub.suspend_of_registered hr hh]
  simp only [Hub.release, Hub.modifyChip, List.modify_modify_eq]
  rfl

namespace Core

structure View where
  hub : Hub.View
  exposed : Option (Exposed ChipId)

def view (uid : UInt64) (core : Core) : View where
  hub := core.hub.view uid
  exposed := (core.table.find? uid).map (Exposed.called (core.hub.rank uid))

namespace View

-- What registering a chip comes to, where there is no limit.
def register (r : Registration) (view : View) : Except Fault ChipId × View :=
  match r.check with
  | .error fault => (.error fault, view)
  | .ok () =>
    match view.hub.enlist r with
    | (.error fault, _) => (.error fault, view)
    | (.ok name, hub) =>
      (.ok name,
        { hub := hub.change name fun chip => { chip with handle := some default, registered := true }
          exposed := some
            ⟨default, r.chip.descriptor, name, r.chip.descriptor.names.map fun _ => none⟩ })

def isHeld (view : View) (pin : UInt32) : Bool :=
  match view.exposed with
  | none => false
  | some exposed =>
    match exposed.held[pin.toNat]? with
    | some (some _) => true
    | _ => false

-- What withdrawing the chip of the uid comes to.
def withdraw (view : View) : Except Fault Unit × View :=
  match view.hub.current? with
  | none => (.ok (), view)
  | some (name, chip) =>
    if chip.registered then
      if (Hub.pins chip.lineCount).any view.isHeld then (.error .busy, view)
      else
        (.ok (), { hub := view.hub.change name Chip.withdrawn, exposed := none })
    else (.ok (), view)

end View

section Table

variable {table : LineTable ChipId} {core : Core} {uid : UInt64} {id : ChipId} {handle : Handle}

theorem Aligned.seated {g : Hub.Stage} (h : Aligned g core) : core.hub.Seated := by
  intro uid id hf
  obtain ⟨hhas, -, huid, -⟩ := h.mapped hf
  exact Hub.mem_idsOf.mpr ⟨hhas, huid⟩

theorem Consistent.distinct (h : Consistent core) : core.table.Distinct := by
  have hsame : ∀ exposed ∈ core.table.chips, ∀ other ∈ core.table.chips,
      exposed.descriptor.uid = other.descriptor.uid → exposed.ops = other.ops := by
    intro exposed he other ho huid
    have hf := (h.registered exposed he).1
    rw [huid, (h.registered other ho).1] at hf
    exact (Option.some.inj hf).symm
  refine List.Nodup.map_on (fun exposed he other ho huid => ?_) (List.Nodup.of_map _ h.once)
  exact List.inj_on_of_nodup_map h.once he ho (hsame exposed he other ho huid)

-- What a registered chip is exposed as is what is exposed for its uid.
theorem Consistent.exposed_of_handle (h : Consistent core) (hf : core.hub.find? uid = some id)
    (hr : (core.hub.chip id).registered = true) (hh : (core.hub.chip id).handle = some handle) :
    ∃ exposed, core.table.find? uid = some exposed ∧ exposed.handle = handle ∧
      core.table.exposure? handle = some exposed := by
  obtain ⟨handle', exposed, hh', he, hd, -⟩ := h.exposed hf hr
  obtain rfl : handle = handle' := Option.some.inj (hh.symm.trans hh')
  have hmem := List.mem_of_find?_eq_some he
  have huid : exposed.descriptor.uid = uid := by
    rw [hd]
    exact (h.keyed hf).2
  have hfound := LineTable.find?_of_mem h.distinct hmem
  rw [huid] at hfound
  exact ⟨exposed, hfound, by simpa using List.find?_some he, he⟩

-- What is exposed for a uid is the chip it names.
theorem Consistent.find?_of_exposed {exposed : Exposed ChipId} (h : Consistent core)
    (hf : core.table.find? uid = some exposed) : core.hub.find? uid = some exposed.ops := by
  rw [← LineTable.uid_of_find? hf]
  exact (h.registered exposed (List.mem_of_find?_eq_some hf)).1

theorem find?_add_of_ne {descriptor : Descriptor}
    (hold : ∀ exposed ∈ table.chips, exposed.handle ≠ ⟨table.nextHandle⟩)
    (hne : descriptor.uid ≠ uid) (ops : ChipId) :
    (table.add descriptor ops).2.find? uid = table.find? uid := by
  cases hf : table.find? descriptor.uid with
  | some exposed => simp [LineTable.add, hf]
  | none =>
    rw [LineTable.add_of_fresh hf hold]
    unfold LineTable.find?
    rw [List.find?_append, List.find?_singleton, if_neg (by simpa using hne), Option.or_none]

theorem find?_remove_of_ne (h : table.Distinct)
    (hother : ∀ exposed ∈ table.chips, exposed.handle = handle → exposed.descriptor.uid ≠ uid) :
    (table.remove handle).2.find? uid = table.find? uid := by
  cases hf : table.find? uid with
  | none =>
    refine List.find?_eq_none.mpr fun exposed he => ?_
    exact List.find?_eq_none.mp hf exposed (LineTable.mem_remove.mp he).1
  | some exposed =>
    have huid := LineTable.uid_of_find? hf
    have hmem := List.mem_of_find?_eq_some hf
    have hkept : exposed ∈ (table.remove handle).2.chips :=
      LineTable.mem_remove.mpr ⟨hmem, fun hh => hother exposed hmem hh huid⟩
    have hfound := LineTable.find?_of_mem (LineTable.distinct_remove h) hkept
    rwa [huid] at hfound

end Table

section Holder

variable {uid other : UInt64}

theorem exposed_setHolder (core : Core) (uid other : UInt64) (pin : UInt32)
    (holder : Option String) :
    (({ core with table := core.table.setHolder other pin holder } : Core).view uid).exposed =
      (core.view uid).exposed.map fun exposed =>
        if exposed.descriptor.uid = other then
          { exposed with held := exposed.held.set pin.toNat holder }
        else exposed := by
  unfold view
  rw [LineTable.find?_setHolder, Option.map_map, Option.map_map]
  refine congrArg (Option.map · _) (funext fun exposed => ?_)
  by_cases heq : exposed.descriptor.uid = other <;> simp [Exposed.called, heq]

-- Who holds the lines of another uid does not show.
theorem view_setHolder_of_ne (hne : other ≠ uid) (pin : UInt32) (holder : Option String)
    (core : Core) :
    ({ core with table := core.table.setHolder other pin holder } : Core).view uid =
      core.view uid := by
  have hfound : (core.table.setHolder other pin holder).find? uid = core.table.find? uid := by
    rw [LineTable.find?_setHolder]
    cases hf : core.table.find? uid with
    | none => rfl
    | some exposed =>
      rw [Option.map_some, if_neg]
      rw [LineTable.uid_of_find? hf]
      exact Ne.symm hne
  unfold view
  rw [hfound]

theorem view_grant_of_ne (hne : other ≠ uid) (pin : UInt32) (consumer : String) (core : Core) :
    ({ core with table := (core.table.grant other pin consumer).2 } : Core).view uid =
      core.view uid := by
  have hgrants := LineTable.grants_grant other pin consumer core.table
  generalize (core.table.grant other pin consumer).1 = grant at hgrants
  generalize (core.table.grant other pin consumer).2 = table at hgrants ⊢
  cases hgrants with
  | refused | heldBy => rfl
  | granted => exact view_setHolder_of_ne hne pin (some consumer) core

end Holder

section Lifecycle

variable {core core' : Core} {uid : UInt64} {r : Registration}

theorem rank_of_idsOf {hub hub' : Hub} (h : hub'.idsOf uid = hub.idsOf uid) :
    hub'.rank uid = hub.rank uid := by
  funext id
  rw [Hub.rank, Hub.rank, h]

-- What a registration has exposed.
theorem shown_of_enlisted {id : ChipId} (ha : Aligned .plain core)
    (ho : (Hub.enlist r core.hub).1.outcome = .ok id) :
    core.table.add ((Hub.enlist r core.hub).2.chip id).descriptor id = (.ok ⟨core.table.nextHandle⟩,
      { nextHandle := core.table.nextHandle + 1
        chips := core.table.chips ++
          [⟨⟨core.table.nextHandle⟩, r.chip.descriptor, id,
            r.chip.descriptor.names.map fun _ => none⟩] }) := by
  obtain ⟨-, hstale, -, -, hchip⟩ := enlisted_of_ok ho
  rw [hchip]
  refine LineTable.add_of_fresh (List.find?_eq_none.mpr fun exposed he => ?_) fun exposed he heq => ?_
  · have hother : exposed.descriptor.uid ≠ r.chip.descriptor.uid :=
      (consistent_of_aligned ha).unshown hstale exposed he
    simpa using hother
  · have hlt := ha.used exposed he
    rw [heq] at hlt
    exact UInt64.lt_irrefl _ hlt

theorem view_of_registers {result : Except Fault ChipId} (h : Registers r core result core')
    (ha : Aligned .plain core) (hlimit : core.hub.limit = none) :
    (result.map (core'.hub.rank r.uid), core'.view r.uid) = (core.view r.uid).register r := by
  have henlist := Hub.view_enlist (r := r) hlimit ha.seated
  unfold View.register
  cases h with
  | broken hcheck =>
    rw [hcheck]
    rfl
  | @refused fault hcheck ho =>
    have hsame := Hub.enlist_of_error hlimit ho
    rw [ho, hsame] at henlist
    rw [hcheck, hsame]
    have hview : (core.view r.uid).hub.enlist r = (.error fault, core.hub.view r.uid) := henlist.symm
    simp only [hview]
    rfl
  | @exposed id handle hcheck ho hadd =>
    obtain ⟨-, hstale, -, hhas, hchip⟩ := enlisted_of_ok ho
    have hshown := find?_add_of_unshown ((consistent_of_aligned ha).unshown hstale :
      ∀ exposed ∈ core.table.chips, exposed.descriptor.uid ≠ r.chip.descriptor.uid) id
    rw [hchip] at hadd ⊢
    obtain rfl : ⟨core.table.nextHandle⟩ = handle := Except.ok.inj (hshown.1.symm.trans hadd)
    generalize (Hub.enlist r core.hub).2 = hub' at henlist hhas hchip ⊢
    have hmem : id ∈ hub'.idsOf r.uid := Hub.mem_idsOf.mpr ⟨hhas, congrArg Chip.uid hchip⟩
    let confirmed (chip : Chip) : Chip :=
      { chip with handle := some ⟨core.table.nextHandle⟩, registered := true }
    have hconfirmed := Hub.view_modifyChip (f := confirmed)
      (g := fun chip => { chip with handle := some default, registered := true })
      (Hub.named?_rank hmem) (fun _ => rfl) fun _ => rfl
    have huids : (hub'.confirm id ⟨core.table.nextHandle⟩).uids = hub'.uids :=
      Hub.uids_modifyChip (f := confirmed) (fun _ => rfl) id hub'
    have hrank := rank_of_idsOf (Hub.idsOf_of_uids huids : _ = hub'.idsOf r.uid)
    have hview : (core.view r.uid).hub.enlist r = (.ok (hub'.rank r.uid id), hub'.view r.uid) := by
      rw [ho] at henlist
      exact henlist.symm
    have hfound : (core.table.add r.chip.descriptor id).2.find? r.uid = some
        ⟨⟨core.table.nextHandle⟩, r.chip.descriptor, id, r.chip.descriptor.names.map fun _ => none⟩ :=
      hshown.2
    simp only [hcheck, hview]
    unfold view
    rw [hrank, hfound]
    exact congrArg (fun hub => (Except.ok (hub'.rank r.uid id), (⟨hub, _⟩ : View))) hconfirmed
  | unexposed _ ho hadd =>
    rw [shown_of_enlisted ha ho] at hadd
    cases hadd

theorem isHeld_view {id : ChipId} {handle : Handle} (h : Consistent core)
    (hf : core.hub.find? uid = some id) (hr : (core.hub.chip id).registered = true)
    (hh : (core.hub.chip id).handle = some handle) :
    core.table.isHeld handle = (core.view uid).isHeld := by
  obtain ⟨exposed, hfound, -, hshown⟩ := h.exposed_of_handle hf hr hh
  funext pin
  rw [LineTable.isHeld, hshown, View.isHeld, view, hfound]
  rfl

theorem view_of_withdraws {result : Except Fault Unit} (h : Withdraws uid core result core')
    (ha : Aligned .plain core) : (result, core'.view uid) = (core.view uid).withdraw := by
  have hcurrent : (core.view uid).hub.current? = _ := Hub.current?_view ha.seated
  have hc := consistent_of_aligned ha
  unfold View.withdraw
  rw [hcurrent]
  cases h with
  | unknown hf =>
    rw [hf]
    rfl
  | unregistered hf hr =>
    simp only [hf, Option.map_some, Chip.registered_unnumbered, hr, Bool.false_eq_true, if_false]
  | unexposed hf hr hh =>
    have hsome := (hc.marked hf).mp hr
    rw [hh] at hsome
    cases hsome
  | @held id handle hf hr hh hheld =>
    have hback : Hub.resume id (Hub.suspend id core.hub).2 = core.hub := by
      rw [Hub.suspend_of_registered hr hh]
      exact Hub.resume_suspended (hc.ready hf hr)
    rw [isHeld_view hc hf hr hh] at hheld
    simp only [hback, hf, Option.map_some, Chip.registered_unnumbered, Chip.lineCount_unnumbered, hr,
      hheld, if_true]
  | @released id handle hf hr hh hfree =>
    obtain ⟨exposed, hfound, rfl, -⟩ := hc.exposed_of_handle hf hr hh
    have hnone : (core.table.remove exposed.handle).2.find? uid = none := by
      refine List.find?_eq_none.mpr fun other ho => ?_
      obtain ⟨ho, hother⟩ := LineTable.mem_remove.mp ho
      rw [beq_iff_eq]
      rintro rfl
      have hsame := LineTable.find?_of_mem hc.distinct ho
      rw [hfound] at hsame
      exact hother (congrArg Exposed.handle (Option.some.inj hsame)).symm
    rw [isHeld_view hc hf hr hh] at hfree
    simp only [hf, Option.map_some, Chip.registered_unnumbered, Chip.lineCount_unnumbered, hr, hfree,
      Bool.false_eq_true, if_true, if_false]
    have hwithdrawn := Hub.view_modifyChip (f := Chip.withdrawn) (g := Chip.withdrawn)
      (Hub.named?_of_mapped ha.seated hf) (fun _ => rfl) fun _ => rfl
    unfold view
    rw [hnone, Hub.release_suspended hr hh]
    exact congrArg (fun hub => (Except.ok (), (⟨hub, none⟩ : View))) hwithdrawn

-- Registering a chip for another uid does not show.
theorem view_of_registers_of_ne {result : Except Fault ChipId} (h : Registers r core result core')
    (ha : Aligned .plain core) (hlimit : core.hub.limit = none) (hne : r.uid ≠ uid) :
    core'.view uid = core.view uid := by
  cases h with
  | broken => rfl
  | refused _ ho => rw [Hub.enlist_of_error hlimit ho]
  | @exposed id handle _ ho hadd =>
    obtain ⟨hview, hids⟩ := Hub.view_enlist_of_ne (r := r) ha.seated hne
    obtain ⟨-, -, -, hhas, hchip⟩ := enlisted_of_ok ho
    have htable : (core.table.add ((Hub.enlist r core.hub).2.chip id).descriptor id).2.find? uid =
        core.table.find? uid := by
      rw [hchip]
      refine find?_add_of_ne (fun exposed he heq => ?_) hne id
      have hlt := ha.used exposed he
      rw [heq] at hlt
      exact UInt64.lt_irrefl _ hlt
    generalize (Hub.enlist r core.hub).2 = hub' at hview hids hhas hchip htable ⊢
    let confirmed (chip : Chip) : Chip := { chip with handle := some handle, registered := true }
    have hother : id ∉ hub'.idsOf uid := fun hmem =>
      hne ((congrArg Chip.uid hchip).symm.trans (Hub.mem_idsOf.mp hmem).2)
    have hconfirmed := Hub.view_modifyChip_of_not_mem (f := confirmed) hother fun _ => rfl
    have huids : (hub'.confirm id handle).uids = hub'.uids :=
      Hub.uids_modifyChip (f := confirmed) (fun _ => rfl) id hub'
    have hrank := rank_of_idsOf ((Hub.idsOf_of_uids huids).trans hids)
    unfold view
    rw [htable, hrank]
    exact congrArg (fun hub => (⟨hub, _⟩ : View)) (hconfirmed.trans hview)
  | unexposed _ ho hadd =>
    rw [shown_of_enlisted ha ho] at hadd
    cases hadd

-- Nor does withdrawing one.
theorem view_of_withdraws_of_ne {other : UInt64} {result : Except Fault Unit}
    (h : Withdraws other core result core') (ha : Aligned .plain core) (hne : other ≠ uid) :
    core'.view uid = core.view uid := by
  have hc := consistent_of_aligned ha
  cases h with
  | unknown | unregistered => rfl
  | unexposed hf hr hh =>
    have hsome := (hc.marked hf).mp hr
    rw [hh] at hsome
    cases hsome
  | held hf hr hh =>
    rw [Hub.suspend_of_registered hr hh]
    exact congrArg (fun hub => view uid ⟨hub, core.table⟩) (Hub.resume_suspended (hc.ready hf hr))
  | @released id handle hf hr hh =>
    obtain ⟨exposed, hfound, rfl, -⟩ := hc.exposed_of_handle hf hr hh
    have htable : (core.table.remove exposed.handle).2.find? uid = core.table.find? uid := by
      refine find?_remove_of_ne hc.distinct fun shown hs heq => ?_
      rw [ha.eq_of_handle hs (List.mem_of_find?_eq_some hfound) heq, LineTable.uid_of_find? hfound]
      exact hne
    have hother : id ∉ core.hub.idsOf uid := fun hmem =>
      hne ((hc.keyed hf).2.symm.trans (Hub.mem_idsOf.mp hmem).2)
    have hwithdrawn := Hub.view_modifyChip_of_not_mem (f := Chip.withdrawn) hother fun _ => rfl
    have huids : (core.hub.modifyChip id Chip.withdrawn).uids = core.hub.uids :=
      Hub.uids_modifyChip (f := Chip.withdrawn) (fun _ => rfl) id core.hub
    unfold view
    rw [htable, Hub.release_suspended hr hh, rank_of_idsOf (Hub.idsOf_of_uids huids)]
    exact congrArg (fun hub => (⟨hub, _⟩ : View)) hwithdrawn

theorem length_of_registers {result : Except Fault ChipId} (h : Registers r core result core')
    (ha : Aligned .plain core) (hlimit : core.hub.limit = none) :
    core'.hub.chips.length = core.hub.chips.length + if result.isOk then 1 else 0 := by
  cases h with
  | broken => rfl
  | refused _ ho =>
    rw [Hub.enlist_of_error hlimit ho]
    rfl
  | @exposed id handle _ ho =>
    have he := Hub.enlists_enlist r core.hub
    generalize (Hub.enlist r core.hub).1 = enlistment at he ho
    generalize (Hub.enlist r core.hub).2 = hub' at he ⊢
    rw [Hub.confirm, Hub.length_modifyChip]
    cases he with
    | refused | full | fullAfterEviction => cases ho
    | fresh => exact List.length_append
    | replaced =>
      refine List.length_append.trans (congrArg (· + 1) ?_)
      exact Hub.length_modifyChip _ _ { core.hub with registry := core.hub.registry.erase r.uid }
  | unexposed _ ho hadd =>
    rw [shown_of_enlisted ha ho] at hadd
    cases hadd

theorem length_of_withdraws {result : Except Fault Unit} (h : Withdraws uid core result core') :
    core'.hub.chips.length = core.hub.chips.length := by
  cases h with
  | unknown | unregistered => rfl
  | unexposed => exact Hub.length_suspend _ core.hub
  | held => exact (Hub.length_modifyChip _ _ _).trans (Hub.length_suspend _ core.hub)
  | released => exact (Hub.length_modifyChip _ _ _).trans (Hub.length_suspend _ core.hub)

end Lifecycle

end Core

end GpioBridge
