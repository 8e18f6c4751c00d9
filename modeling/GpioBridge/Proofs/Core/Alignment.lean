import GpioBridge.Proofs.Core.Outline
import Mathlib

namespace GpioBridge

namespace Hub

-- The hub knows an exposed chip as it is exposed.
def Knows (hub : Hub) (exposed : Exposed ChipId) : Prop :=
  hub.find? exposed.descriptor.uid = some exposed.ops ∧
    (hub.chip exposed.ops).handle = some exposed.handle

namespace Stage

-- The chip may be registered and not be ready.
def Suspends : Stage → ChipId → Prop
  | scanning id _, other | releasing id, other => other = id
  | _, _ => False

-- The chip may have a handle and not be exposed.
def Conceals : Stage → ChipId → Prop
  | releasing id, other => other = id
  | _, _ => False

-- What the hub knows of an exposed chip.
def Knows (g : Stage) (hub : Hub) (exposed : Exposed ChipId) : Prop :=
  match g with
  | confirming id handle => hub.Knows exposed ∨
    (exposed.ops = id ∧ exposed.handle = handle ∧ hub.find? exposed.descriptor.uid = some id)
  | retiring id rest | concealing id _ rest =>
    exposed.ops ∈ id :: rest ∧ (hub.chip exposed.ops).handle = some exposed.handle
  | finishing id rest =>
    exposed.ops ∈ rest ∧ exposed.ops ≠ id ∧ (hub.chip exposed.ops).handle = some exposed.handle
  | _ => hub.Knows exposed

-- How many chips have been made and are still to be exposed.
def owed : Stage → Nat
  | exposing _ _ | offering _ _ _ => 1
  | _ => 0

end Stage

-- A chip that is mapped and ready, and not registered yet.
def Awaited (hub : Hub) (uid : UInt64) (id : ChipId) : Prop :=
  hub.find? uid = some id ∧ (hub.chip id).handle = none ∧ (hub.chip id).initialized = true

end Hub

namespace Core

-- What an operation relies on at its stage.
def Relies (core : Core) : Hub.Stage → Prop
  | .registering r => r.uid ≠ broadcastUid
  | .exposing r id => core.hub.Awaited r.uid id
  | .offering r id descriptor =>
    core.hub.Awaited r.uid id ∧ descriptor = (core.hub.chip id).descriptor
  | .confirming id handle => ∃ uid, core.hub.Awaited uid id ∧
    ∃ exposed ∈ core.table.chips, exposed.handle = handle ∧
      exposed.descriptor = (core.hub.chip id).descriptor ∧ exposed.ops = id
  | .refused _ _ | .abandoning _ | .failed => False
  | .found id => ∃ uid, core.hub.find? uid = some id
  | .suspending id => ∃ uid, core.hub.find? uid = some id ∧ (core.hub.chip id).registered = true
  | .scanning id handle => ∃ uid, core.hub.find? uid = some id ∧
    (core.hub.chip id).handle = some handle
  | .releasing id => (∃ uid, core.hub.find? uid = some id) ∧
    ∀ exposed ∈ core.table.chips, exposed.ops ≠ id
  | .retiring _ _ | .finishing _ _ => ∀ uid, core.hub.find? uid = none
  | .concealing id handle _ =>
    (∀ uid, core.hub.find? uid = none) ∧ (core.hub.chip id).handle = some handle
  | _ => True

structure Aligned (g : Hub.Stage) (core : Core) : Prop where
  mapped : ∀ {uid id}, core.hub.find? uid = some id → core.hub.Has id ∧ uid ≠ broadcastUid ∧
    (core.hub.chip id).uid = uid ∧ (core.hub.chip id).retired = false ∧
      ((core.hub.chip id).registered = true ↔ ((core.hub.chip id).handle).isSome = true)
  ready : ∀ {uid id}, core.hub.find? uid = some id → (core.hub.chip id).registered = true →
    g.Suspends id ∨ (core.hub.chip id).initialized = true
  exposed : ∀ {uid id handle}, core.hub.find? uid = some id →
    (core.hub.chip id).handle = some handle → g.Conceals id ∨
      ∃ exposed ∈ core.table.chips, exposed.handle = handle ∧
        exposed.descriptor = (core.hub.chip id).descriptor ∧ exposed.ops = id
  known : ∀ exposed ∈ core.table.chips, g.Knows core.hub exposed
  distinct : (core.table.chips.map (·.handle)).Nodup
  used : ∀ exposed ∈ core.table.chips, exposed.handle.number < core.table.nextHandle
  -- Every chip ever made was exposed once.
  counted : core.table.nextHandle.toNat + g.owed = core.hub.chips.length
  relies : core.Relies g

theorem aligned_empty (limit : Option Nat) (patience : UInt64) :
    Aligned .plain { hub := { limit, patience } } where
  mapped h := by cases h
  ready h := by cases h
  exposed h := by cases h
  known := nofun
  distinct := List.nodup_nil
  used := nofun
  counted := rfl
  relies := trivial

section Alike

variable {core core' : Core} (h : Alike core core')
include h

theorem awaited_of_alike {uid : UInt64} {id : ChipId} (ha : core.hub.Awaited uid id) :
    core'.hub.Awaited uid id := by
  unfold Hub.Awaited at ha ⊢
  rwa [Hub.find?_of_outline h.hub, Hub.handle_of_outline h.hub, Hub.initialized_of_outline h.hub]

theorem knows_of_alike {g : Hub.Stage} {exposed exposed' : Exposed ChipId}
    (hh : exposed.handle = exposed'.handle) (hd : exposed.descriptor = exposed'.descriptor)
    (ho : exposed.ops = exposed'.ops) (hk : g.Knows core.hub exposed) :
    g.Knows core'.hub exposed' := by
  have hbase : core.hub.Knows exposed → core'.hub.Knows exposed' := by
    unfold Hub.Knows
    rw [Hub.find?_of_outline h.hub, Hub.handle_of_outline h.hub, hh, hd, ho]
    exact fun hk => hk
  cases g with
  | confirming id handle =>
    refine hk.imp hbase fun ⟨hid, hhandle, hfind⟩ => ⟨?_, ?_, ?_⟩
    · rw [← ho, hid]
    · rw [← hh, hhandle]
    · rwa [Hub.find?_of_outline h.hub, ← hd]
  | retiring | concealing | finishing =>
    simp only [Hub.Stage.Knows, Hub.handle_of_outline h.hub, ← hh, ← ho] at hk ⊢
    exact hk
  | _ => exact hbase hk

theorem relies_of_alike {g : Hub.Stage} (hr : core.Relies g) : core'.Relies g := by
  have hexposed : ∀ {e : Exposed ChipId}, e ∈ core.table.chips → ∃ e' ∈ core'.table.chips,
      e'.handle = e.handle ∧ e'.descriptor = e.descriptor ∧ e'.ops = e.ops :=
    LineTable.exists_exposed_of_outline h.table.symm
  cases g with
  | exposing r id => exact awaited_of_alike h hr
  | offering r id descriptor =>
    refine ⟨awaited_of_alike h hr.1, ?_⟩
    rw [Hub.descriptor_of_outline h.hub]
    exact hr.2
  | confirming id handle =>
    obtain ⟨uid, ha, e, he, hh, hd, ho⟩ := hr
    obtain ⟨e', he', hh', hd', ho'⟩ := hexposed he
    refine ⟨uid, awaited_of_alike h ha, e', he', hh'.trans hh, ?_, ho'.trans ho⟩
    rw [Hub.descriptor_of_outline h.hub, hd', hd]
  | releasing id =>
    obtain ⟨⟨uid, hf⟩, hne⟩ := hr
    refine ⟨⟨uid, ?_⟩, fun e' he' => ?_⟩
    · rwa [Hub.find?_of_outline h.hub]
    · obtain ⟨e, he, -, -, ho⟩ := LineTable.exists_exposed_of_outline h.table he'
      rw [← ho]
      exact hne e he
  | found | suspending | scanning | retiring | concealing | finishing =>
    simp only [Relies, Hub.find?_of_outline h.hub, Hub.handle_of_outline h.hub,
      Hub.registered_of_outline h.hub] at hr ⊢
    exact hr
  | _ => exact hr

theorem aligned_of_alike {g : Hub.Stage} (ha : Aligned g core) : Aligned g core' where
  mapped hf := by
    rw [Hub.find?_of_outline h.hub] at hf
    rw [Hub.has_of_outline h.hub, Hub.uid_of_outline h.hub, Hub.retired_of_outline h.hub,
      Hub.registered_of_outline h.hub, Hub.handle_of_outline h.hub]
    exact ha.mapped hf
  ready hf hr := by
    rw [Hub.find?_of_outline h.hub] at hf
    rw [Hub.registered_of_outline h.hub] at hr
    rw [Hub.initialized_of_outline h.hub]
    exact ha.ready hf hr
  exposed hf hh := by
    rw [Hub.find?_of_outline h.hub] at hf
    rw [Hub.handle_of_outline h.hub] at hh
    refine (ha.exposed hf hh).imp_right fun ⟨e, he, heh, hed, heo⟩ => ?_
    obtain ⟨e', he', heh', hed', heo'⟩ := LineTable.exists_exposed_of_outline h.table.symm he
    refine ⟨e', he', heh'.trans heh, ?_, heo'.trans heo⟩
    rw [Hub.descriptor_of_outline h.hub, hed', hed]
  known e' he' := by
    obtain ⟨e, he, hh, hd, ho⟩ := LineTable.exists_exposed_of_outline h.table he'
    exact knows_of_alike h hh hd ho (ha.known e he)
  distinct := by
    rw [LineTable.handles_of_outline h.table]
    exact ha.distinct
  used e' he' := by
    obtain ⟨e, he, hh, -, -⟩ := LineTable.exists_exposed_of_outline h.table he'
    rw [← hh, LineTable.nextHandle_of_outline h.table]
    exact ha.used e he
  counted := by
    rw [LineTable.nextHandle_of_outline h.table, Hub.length_of_outline h.hub]
    exact ha.counted
  relies := relies_of_alike h ha.relies

end Alike

-- A stage can be left for one that allows no less, the core being as it is.
theorem Aligned.stay {g g' : Hub.Stage} {core : Core} (ha : Aligned g core)
    (hs : ∀ id, g.Suspends id → g'.Suspends id) (hc : ∀ id, g.Conceals id → g'.Conceals id)
    (hk : ∀ exposed, g.Knows core.hub exposed → g'.Knows core.hub exposed)
    (ho : g'.owed = g.owed) (hr : core.Relies g') : Aligned g' core where
  mapped := ha.mapped
  ready hf hreg := (ha.ready hf hreg).imp_left (hs _)
  exposed hf hh := (ha.exposed hf hh).imp_left (hc _)
  known exposed he := hk exposed (ha.known exposed he)
  distinct := ha.distinct
  used := ha.used
  counted := ho ▸ ha.counted
  relies := hr

section Enlist

variable {core : Core} {r : Registration}

theorem aligned_evict (ha : Aligned (.registering r) core) {id : ChipId}
    (hf : core.hub.find? r.uid = some id) (hreg : (core.hub.chip id).registered = false) :
    Aligned (.registering r) { core with hub := core.hub.evict r.uid id } := by
  have hid := ha.mapped hf
  have hnone : (core.hub.chip id).handle = none := by
    have hiff := hid.2.2.2.2
    rw [hreg] at hiff
    simpa using hiff
  -- Every other mapped chip stays as it is.
  have hframe : ∀ {uid other}, (core.hub.evict r.uid id).find? uid = some other →
      core.hub.find? uid = some other ∧
        (core.hub.evict r.uid id).chip other = core.hub.chip other := by
    intro uid other hother
    rw [Hub.find?_evict] at hother
    split at hother
    · cases hother
    · next hne =>
      refine ⟨hother, Hub.chip_modifyChip_of_ne ?_ _ { core.hub with registry := _ }⟩
      rintro rfl
      exact hne ((ha.mapped hother).2.2.1.symm.trans hid.2.2.1)
  constructor
  case mapped =>
    intro uid other hother
    obtain ⟨hold, hchip⟩ := hframe hother
    have hmapped := ha.mapped hold
    rw [hchip]
    exact ⟨Hub.has_modifyChip.mpr hmapped.1, hmapped.2⟩
  case ready =>
    intro uid other hother hr
    obtain ⟨hold, hchip⟩ := hframe hother
    rw [hchip] at hr ⊢
    exact ha.ready hold hr
  case exposed =>
    intro uid other handle hother hh
    obtain ⟨hold, hchip⟩ := hframe hother
    rw [hchip] at hh ⊢
    exact ha.exposed hold hh
  case known =>
    intro exposed he
    obtain ⟨hfind, hh⟩ := ha.known exposed he
    have hne : exposed.ops ≠ id := by
      rintro rfl
      rw [hnone] at hh
      cases hh
    refine ⟨?_, ?_⟩
    · rw [Hub.find?_evict, if_neg]
      · exact hfind
      · intro huid
        rw [huid, hf] at hfind
        exact hne (Option.some.inj hfind).symm
    · rw [Hub.evict, Hub.chip_modifyChip_of_ne hne]
      exact hh
  case distinct =>
    exact ha.distinct
  case used =>
    exact ha.used
  case counted =>
    have hlength : (core.hub.evict r.uid id).chips.length = core.hub.chips.length := by
      simp [Hub.evict, Hub.modifyChip]
    rw [hlength]
    exact ha.counted
  case relies =>
    exact ha.relies

theorem aligned_enlisted (ha : Aligned (.registering r) core)
    (hf : core.hub.find? r.uid = none) :
    Aligned (.exposing r core.hub.nextId) { core with hub := core.hub.enlisted r } := by
  have hnew : (core.hub.enlisted r).chip core.hub.nextId = r.chip :=
    Hub.chip_enlisted_nextId core.hub r
  have hframe : ∀ {uid other}, core.hub.find? uid = some other →
      (core.hub.enlisted r).chip other = core.hub.chip other :=
    fun hother => Hub.chip_enlisted_of_has (ha.mapped hother).1 r
  constructor
  case mapped =>
    intro uid other hother
    rw [Hub.find?_enlisted] at hother
    split at hother
    · next huid =>
      obtain rfl := Option.some.inj hother
      rw [hnew, huid]
      exact ⟨Hub.has_enlisted.mpr (.inr rfl), ha.relies, rfl, rfl,
        by simp [Registration.chip, Chip.create]⟩
    · have hmapped := ha.mapped hother
      rw [hframe hother]
      exact ⟨Hub.has_enlisted.mpr (.inl hmapped.1), hmapped.2⟩
  case ready =>
    intro uid other hother hr
    rw [Hub.find?_enlisted] at hother
    split at hother
    · obtain rfl := Option.some.inj hother
      rw [hnew] at hr
      cases hr
    · rw [hframe hother] at hr ⊢
      exact ha.ready hother hr
  case exposed =>
    intro uid other handle hother hh
    rw [Hub.find?_enlisted] at hother
    split at hother
    · obtain rfl := Option.some.inj hother
      rw [hnew] at hh
      cases hh
    · rw [hframe hother] at hh ⊢
      exact ha.exposed hother hh
  case known =>
    intro exposed he
    obtain ⟨hfind, hh⟩ := ha.known exposed he
    refine ⟨?_, ?_⟩
    · exact Hub.find?_enlisted_of_find? hf hfind
    · rw [hframe hfind]
      exact hh
  case distinct =>
    exact ha.distinct
  case used =>
    exact ha.used
  case counted =>
    have hlength : (core.hub.enlisted r).chips.length = core.hub.chips.length + 1 := by
      simp [Hub.enlisted]
    have hcounted := ha.counted
    simp only [Hub.Stage.owed] at hcounted ⊢
    omega
  case relies =>
    refine ⟨?_, ?_, ?_⟩
    · rw [Hub.find?_enlisted, if_pos rfl]
    · rw [hnew]
      rfl
    · rw [hnew]
      rfl

theorem aligned_enlist (ha : Aligned (.registering r) core) :
    Aligned (.ofEnlistment r (Hub.enlist r core.hub).1)
      { core with hub := (Hub.enlist r core.hub).2 } := by
  have h := Hub.enlists_enlist r core.hub
  generalize (Hub.enlist r core.hub).1 = enlistment at h
  generalize (Hub.enlist r core.hub).2 = hub' at h
  cases h with
  | refused | full =>
    exact ha.stay (fun _ h => h) (fun _ h => h) (fun _ h => h) rfl trivial
  | fresh hf => exact aligned_enlisted ha hf
  | fullAfterEviction hf _ hr =>
    exact (aligned_evict ha hf hr).stay (fun _ h => h) (fun _ h => h) (fun _ h => h) rfl
      trivial
  | @replaced id hf _ hr =>
    have hevicted := aligned_evict ha hf hr
    have hnone : (core.hub.evict r.uid id).find? r.uid = none := by
      rw [Hub.find?_evict, if_pos rfl]
    rw [← Hub.nextId_evict core.hub r.uid id]
    exact aligned_enlisted hevicted hnone

end Enlist

section Expose

variable {core : Core}

-- No chip of the uid is exposed yet, so there is nothing to refuse.
theorem aligned_add {r : Registration} {id : ChipId} {descriptor : Descriptor}
    (ha : Aligned (.offering r id descriptor) core) (hb : core.hub.chips.length < 2 ^ 64) :
    Aligned (.ofExposure r id (core.table.add descriptor id).1)
      { core with table := (core.table.add descriptor id).2 } := by
  obtain ⟨hawaited, hdescriptor⟩ := ha.relies
  have huid : descriptor.uid = r.uid := by
    rw [hdescriptor]
    exact (ha.mapped hawaited.1).2.2.1
  have hfresh : core.table.find? descriptor.uid = none := by
    refine List.find?_eq_none.mpr fun exposed he heq => ?_
    obtain ⟨hfind, hh⟩ := ha.known exposed he
    rw [beq_iff_eq.mp heq, huid, hawaited.1] at hfind
    rw [← Option.some.inj hfind, hawaited.2.1] at hh
    cases hh
  have hcounted := ha.counted
  simp only [Hub.Stage.owed] at hcounted
  have hnext : (core.table.nextHandle + 1).toNat = core.table.nextHandle.toNat + 1 := by
    rw [UInt64.toNat_add, UInt64.toNat_one]
    omega
  have hlt : core.table.nextHandle < core.table.nextHandle + 1 := by
    rw [UInt64.lt_iff_toNat_lt, hnext]
    omega
  have hold : ∀ exposed ∈ core.table.chips, exposed.handle ≠ ⟨core.table.nextHandle⟩ := by
    intro exposed he heq
    have hused := ha.used exposed he
    rw [heq] at hused
    exact UInt64.lt_irrefl _ hused
  rw [LineTable.add_of_fresh hfresh hold]
  constructor
  case mapped =>
    exact ha.mapped
  case ready =>
    exact ha.ready
  case exposed =>
    intro uid other handle hother hh
    refine (ha.exposed hother hh).imp_right fun ⟨exposed, he, hrest⟩ => ⟨exposed, ?_, hrest⟩
    exact List.mem_append_left _ he
  case known =>
    intro exposed he
    rcases List.mem_append.mp he with he | he
    · exact .inl (ha.known exposed he)
    · obtain rfl := List.mem_singleton.mp he
      refine .inr ⟨rfl, rfl, ?_⟩
      simp only [huid]
      exact hawaited.1
  case distinct =>
    simp only [List.map_append, List.map_cons, List.map_nil]
    refine List.nodup_append'.mpr ⟨ha.distinct, List.nodup_singleton _, ?_⟩
    intro handle hmem hnew
    obtain ⟨exposed, he, rfl⟩ := List.mem_map.mp hmem
    exact hold exposed he (List.mem_singleton.mp hnew)
  case used =>
    intro exposed he
    rcases List.mem_append.mp he with he | he
    · exact UInt64.lt_trans (ha.used exposed he) hlt
    · obtain rfl := List.mem_singleton.mp he
      exact hlt
  case counted =>
    simp only [Hub.Stage.ofExposure, Hub.Stage.owed, hnext]
    omega
  case relies =>
    exact ⟨r.uid, hawaited, _, List.mem_append_right _ (List.mem_singleton_self _), rfl, hdescriptor,
      rfl⟩

theorem aligned_confirm {id : ChipId} {handle : Handle} (ha : Aligned (.confirming id handle) core) :
    Aligned (.recorded id) { core with hub := Hub.confirm id handle core.hub } := by
  obtain ⟨uid, ⟨hfind, hnone, hready⟩, shown, hshown, hhandle, hdescriptor, hops⟩ := ha.relies
  have hchip : ∀ other, (Hub.confirm id handle core.hub).chip other =
      if other = id then { core.hub.chip other with handle := some handle, registered := true }
      else core.hub.chip other :=
    Hub.chip_modifyChip (ha.mapped hfind).1 _
  constructor
  case mapped =>
    intro uid other hother
    have hmapped := ha.mapped hother
    rw [hchip]
    refine ⟨Hub.has_modifyChip.mpr hmapped.1, hmapped.2.1, ?_⟩
    split
    · exact ⟨hmapped.2.2.1, hmapped.2.2.2.1, by simp⟩
    · exact hmapped.2.2
  case ready =>
    intro uid other hother hr
    rw [hchip] at hr ⊢
    split at hr
    · next heq =>
      rw [if_pos heq, heq]
      exact .inr hready
    · next hne =>
      rw [if_neg hne]
      exact ha.ready hother hr
  case exposed =>
    intro uid other handle' hother hh
    right
    rw [hchip] at hh ⊢
    split at hh
    · next heq =>
      rw [if_pos heq, heq]
      exact ⟨shown, hshown, hhandle.trans (Option.some.inj hh), hdescriptor, hops⟩
    · next hne =>
      rw [if_neg hne]
      exact (ha.exposed hother hh).resolve_left fun h => h
  case known =>
    intro exposed he
    rcases ha.known exposed he with ⟨hf, hh⟩ | ⟨ho, hh, hf⟩
    · refine ⟨hf, ?_⟩
      rw [hchip, if_neg]
      · exact hh
      · intro heq
        rw [heq, hnone] at hh
        cases hh
    · rw [← ho] at hf
      refine ⟨hf, ?_⟩
      rw [hchip, if_pos ho, hh]
  case distinct =>
    exact ha.distinct
  case used =>
    exact ha.used
  case counted =>
    have hlength : (Hub.confirm id handle core.hub).chips.length = core.hub.chips.length := by
      simp [Hub.confirm, Hub.modifyChip]
    rw [hlength]
    exact ha.counted
  case relies =>
    trivial

end Expose

section Withdraw

variable {core : Core}

theorem handle_mark (id : ChipId) (value : Bool) (hub : Hub) (other : ChipId) :
    ((hub.modifyChip id fun chip => { chip with initialized := value }).chip other).handle =
      (hub.chip other).handle :=
  Hub.field_modifyChip_of_eq (g := Chip.handle) (by intro chip; rfl) id other hub

-- Whether a chip is ready matters only where it may be registered.
theorem Aligned.mark {g g' : Hub.Stage} (ha : Aligned g core) {id : ChipId} {value : Bool}
    (hs : ∀ other, g.Suspends other → g'.Suspends other ∨ (other = id ∧ value = true))
    (hv : value = true ∨ g'.Suspends id ∨ ∀ uid, core.hub.find? uid ≠ some id)
    (hc : ∀ other, g.Conceals other → g'.Conceals other)
    (hk : ∀ exposed ∈ core.table.chips, g.Knows core.hub exposed →
      g'.Knows (core.hub.modifyChip id fun chip => { chip with initialized := value }) exposed)
    (ho : g'.owed = g.owed)
    (hr : Relies { core with
      hub := core.hub.modifyChip id fun chip => { chip with initialized := value } } g') :
    Aligned g' { core with
      hub := core.hub.modifyChip id fun chip => { chip with initialized := value } } := by
  have huid := Hub.field_modifyChip_of_eq (g := Chip.uid)
    (f := fun chip => { chip with initialized := value }) (by intro chip; rfl) id
  have hretired := Hub.field_modifyChip_of_eq (g := Chip.retired)
    (f := fun chip => { chip with initialized := value }) (by intro chip; rfl) id
  have hregistered := Hub.field_modifyChip_of_eq (g := Chip.registered)
    (f := fun chip => { chip with initialized := value }) (by intro chip; rfl) id
  have hhandle := handle_mark id value
  have hdescriptor := Hub.field_modifyChip_of_eq (g := Chip.descriptor)
    (f := fun chip => { chip with initialized := value }) (by intro chip; rfl) id
  constructor
  case mapped =>
    intro uid other hother
    have hmapped := ha.mapped hother
    rw [huid, hretired, hregistered, hhandle]
    exact ⟨Hub.has_modifyChip.mpr hmapped.1, hmapped.2⟩
  case ready =>
    intro uid other hother hreg
    rw [hregistered] at hreg
    by_cases heq : other = id
    · subst heq
      rw [Hub.chip_modifyChip_self (ha.mapped hother).1]
      rcases hv with hv | hv | hv
      · exact .inr hv
      · exact .inl hv
      · exact absurd hother (hv uid)
    · rw [Hub.chip_modifyChip_of_ne heq]
      rcases ha.ready hother hreg with hsus | hready
      · exact .inl ((hs other hsus).resolve_right fun h => heq h.1)
      · exact .inr hready
  case exposed =>
    intro uid other handle hother hh
    rw [hhandle] at hh
    rw [hdescriptor]
    exact (ha.exposed hother hh).imp_left (hc other)
  case known =>
    exact fun exposed he => hk exposed he (ha.known exposed he)
  case distinct =>
    exact ha.distinct
  case used =>
    exact ha.used
  case counted =>
    have hlength : (core.hub.modifyChip id fun chip =>
        { chip with initialized := value }).chips.length = core.hub.chips.length := by
      simp [Hub.modifyChip]
    rw [hlength]
    rw [ho]
    exact ha.counted
  case relies =>
    exact hr

theorem aligned_suspend {id : ChipId} (ha : Aligned (.suspending id) core) :
    Aligned (.ofSuspension id (Hub.suspend id core.hub).1)
      { core with hub := (Hub.suspend id core.hub).2 } := by
  obtain ⟨uid, hfind, hregistered⟩ := ha.relies
  have hiff := (ha.mapped hfind).2.2.2.2
  have h := Hub.suspends_suspend id core.hub
  generalize (Hub.suspend id core.hub).1 = suspension at h
  generalize (Hub.suspend id core.hub).2 = hub' at h
  cases h with
  | settled hr =>
    rw [hr] at hregistered
    cases hregistered
  | unexposed hr hh =>
    rw [hh] at hiff
    exact absurd (hiff.mp hregistered) (by simp)
  | exposed hr hh =>
    refine ha.mark (fun _ h => h.elim) (.inr (.inl rfl)) (fun _ h => h) ?_ rfl ?_
    · intro exposed _ hknown
      exact ⟨hknown.1, (handle_mark id false core.hub exposed.ops).trans hknown.2⟩
    · exact ⟨uid, hfind, (handle_mark id false core.hub id).trans hh⟩

theorem aligned_resume {id : ChipId} {handle : Handle} (ha : Aligned (.scanning id handle) core) :
    Aligned .plain { core with hub := Hub.resume id core.hub } := by
  refine ha.mark (fun other h => .inr ⟨h, rfl⟩) (.inl rfl) (fun _ h => h) ?_ rfl trivial
  intro exposed _ hknown
  exact ⟨hknown.1, (handle_mark id true core.hub exposed.ops).trans hknown.2⟩

-- Where every chip has a handle of its own, an exposed chip is found by it.
theorem Aligned.eq_of_handle {g : Hub.Stage} (ha : Aligned g core) {exposed other : Exposed ChipId}
    (he : exposed ∈ core.table.chips) (ho : other ∈ core.table.chips)
    (h : exposed.handle = other.handle) : exposed = other :=
  List.inj_on_of_nodup_map ha.distinct he ho h

theorem nodup_remove {handle : Handle} {table : LineTable ChipId}
    (h : (table.chips.map (·.handle)).Nodup) :
    ((table.remove handle).2.chips.map (·.handle)).Nodup :=
  h.sublist (List.filter_sublist.map _)

theorem aligned_withdrawn {id : ChipId} {handle : Handle} (ha : Aligned (.scanning id handle) core) :
    Aligned (.releasing id) { core with table := (core.table.remove handle).2 } := by
  obtain ⟨uid, hfind, hhandle⟩ := ha.relies
  obtain ⟨own, hown, hownHandle, -, hops⟩ := (ha.exposed hfind hhandle).resolve_left fun h => h
  constructor
  case mapped =>
    exact ha.mapped
  case ready =>
    exact fun hother hr => ha.ready hother hr
  case exposed =>
    intro uid' other handle' hother hh
    by_cases heq : other = id
    · exact .inl heq
    right
    obtain ⟨shown, hshown, hsh, hsd, hso⟩ := (ha.exposed hother hh).resolve_left fun h => h
    refine ⟨shown, LineTable.mem_remove.mpr ⟨hshown, fun hsame => heq ?_⟩, hsh, hsd, hso⟩
    have hboth := ha.eq_of_handle hshown hown (hsame.trans hownHandle.symm)
    rw [← hso, ← hops, hboth]
  case known =>
    intro exposed he
    exact ha.known exposed (LineTable.mem_remove.mp he).1
  case distinct =>
    exact nodup_remove ha.distinct
  case used =>
    intro exposed he
    exact ha.used exposed (LineTable.mem_remove.mp he).1
  case counted =>
    exact ha.counted
  case relies =>
    refine ⟨⟨uid, hfind⟩, fun exposed he ho => ?_⟩
    obtain ⟨hmem, hne⟩ := LineTable.mem_remove.mp he
    have hknown := (ha.known exposed hmem).2
    rw [ho, hhandle] at hknown
    exact hne (Option.some.inj hknown).symm

theorem aligned_release {id : ChipId} (ha : Aligned (.releasing id) core) :
    Aligned .plain { core with hub := Hub.release id core.hub } := by
  obtain ⟨⟨uid, hfind⟩, hgone⟩ := ha.relies
  have hchip : ∀ other, (Hub.release id core.hub).chip other =
      if other = id then { core.hub.chip other with handle := none, registered := false }
      else core.hub.chip other :=
    Hub.chip_modifyChip (ha.mapped hfind).1 _
  constructor
  case mapped =>
    intro uid other hother
    have hmapped := ha.mapped hother
    rw [hchip]
    refine ⟨Hub.has_modifyChip.mpr hmapped.1, hmapped.2.1, ?_⟩
    split
    · exact ⟨hmapped.2.2.1, hmapped.2.2.2.1, by simp⟩
    · exact hmapped.2.2
  case ready =>
    intro uid other hother hr
    rw [hchip] at hr ⊢
    split at hr
    · cases hr
    · next hne =>
      rw [if_neg hne]
      exact .inr ((ha.ready hother hr).resolve_left hne)
  case exposed =>
    intro uid other handle hother hh
    rw [hchip] at hh ⊢
    split at hh
    · cases hh
    · next hne =>
      rw [if_neg hne]
      exact .inr ((ha.exposed hother hh).resolve_left hne)
  case known =>
    intro exposed he
    obtain ⟨hf, hh⟩ := ha.known exposed he
    refine ⟨hf, ?_⟩
    rw [hchip, if_neg (hgone exposed he)]
    exact hh
  case distinct =>
    exact ha.distinct
  case used =>
    exact ha.used
  case counted =>
    have hlength : (Hub.release id core.hub).chips.length = core.hub.chips.length := by
      simp [Hub.release, Hub.modifyChip]
    rw [hlength]
    exact ha.counted
  case relies =>
    trivial

end Withdraw

section Teardown

variable {core : Core}

-- Once no uid is mapped, a stage only has to account for what is still exposed.
theorem aligned_of_unmapped {g : Hub.Stage} (hnone : ∀ uid, core.hub.find? uid = none)
    (hk : ∀ exposed ∈ core.table.chips, g.Knows core.hub exposed)
    (hd : (core.table.chips.map (·.handle)).Nodup)
    (hu : ∀ exposed ∈ core.table.chips, exposed.handle.number < core.table.nextHandle)
    (hc : core.table.nextHandle.toNat + g.owed = core.hub.chips.length) (hr : core.Relies g) :
    Aligned g core := by
  have habsurd : ∀ {uid id}, core.hub.find? uid = some id → False := by
    intro uid id h
    rw [hnone] at h
    cases h
  exact ⟨fun h => (habsurd h).elim, fun h => (habsurd h).elim, fun h => (habsurd h).elim, hk, hd, hu,
    hc, hr⟩

theorem aligned_ofList {ids : List ChipId} (hnone : ∀ uid, core.hub.find? uid = none)
    (hk : ∀ exposed ∈ core.table.chips, exposed.ops ∈ ids ∧
      (core.hub.chip exposed.ops).handle = some exposed.handle)
    (hd : (core.table.chips.map (·.handle)).Nodup)
    (hu : ∀ exposed ∈ core.table.chips, exposed.handle.number < core.table.nextHandle)
    (hc : core.table.nextHandle.toNat = core.hub.chips.length) : Aligned (.ofList ids) core := by
  cases ids with
  | nil =>
    refine aligned_of_unmapped hnone (fun exposed he => ?_) hd hu hc trivial
    exact absurd (hk exposed he).1 (by simp)
  | cons id rest => exact aligned_of_unmapped hnone hk hd hu hc hnone

theorem aligned_drain (ha : Aligned .tearingDown core) :
    Aligned (.ofList core.hub.drain.1) { core with hub := core.hub.drain.2 } := by
  refine aligned_ofList (fun _ => rfl) (fun exposed he => ?_) ha.distinct ha.used ha.counted
  obtain ⟨hf, hh⟩ := ha.known exposed he
  refine ⟨?_, hh⟩
  have hentry := (UidMap.get?_eq_some_iff ..).mp hf
  exact List.mem_map.mpr ⟨_, hentry, rfl⟩

theorem aligned_disable {id : ChipId} {rest : List ChipId} (ha : Aligned (.retiring id rest) core) :
    Aligned (.ofHandle id rest (Hub.disable id core.hub).1)
      { core with hub := (Hub.disable id core.hub).2 } := by
  have hnone := ha.relies
  have hne : ∀ uid, core.hub.find? uid ≠ some id := by
    intro uid
    rw [hnone uid]
    exact nofun
  have hd : Hub.disable id core.hub = ((core.hub.chip id).handle,
      core.hub.modifyChip id fun chip => { chip with initialized := false }) := rfl
  rw [hd]
  cases hh : (core.hub.chip id).handle with
  | none =>
    refine ha.mark (fun _ h => h.elim) (.inr (.inr hne)) (fun _ h => h) ?_ rfl hnone
    rintro exposed - ⟨hmem, hknown⟩
    have hother : exposed.ops ≠ id := by
      intro heq
      rw [heq, hh] at hknown
      cases hknown
    exact ⟨(List.mem_cons.mp hmem).resolve_left hother, hother,
      (handle_mark id false core.hub exposed.ops).trans hknown⟩
  | some handle =>
    refine ha.mark (fun _ h => h.elim) (.inr (.inr hne)) (fun _ h => h) ?_ rfl ?_
    · rintro exposed - ⟨hmem, hknown⟩
      exact ⟨hmem, (handle_mark id false core.hub exposed.ops).trans hknown⟩
    · exact ⟨hnone, (handle_mark id false core.hub id).trans hh⟩

theorem aligned_concealed {id : ChipId} {handle : Handle} {rest : List ChipId}
    (ha : Aligned (.concealing id handle rest) core) :
    Aligned (.finishing id rest) { core with table := (core.table.remove handle).2 } := by
  obtain ⟨hnone, hhandle⟩ := ha.relies
  refine aligned_of_unmapped hnone (fun exposed he => ?_) (nodup_remove ha.distinct)
    (fun exposed he => ha.used exposed (LineTable.mem_remove.mp he).1) ha.counted hnone
  obtain ⟨hmem, hne⟩ := LineTable.mem_remove.mp he
  obtain ⟨hops, hknown⟩ := ha.known exposed hmem
  have hother : exposed.ops ≠ id := by
    intro heq
    rw [heq, hhandle] at hknown
    exact hne (Option.some.inj hknown).symm
  exact ⟨(List.mem_cons.mp hops).resolve_left hother, hother, hknown⟩

theorem aligned_retire {id : ChipId} {rest : List ChipId} (ha : Aligned (.finishing id rest) core) :
    Aligned (.ofList rest) { core with hub := Hub.retire id core.hub } := by
  have hlength : (Hub.retire id core.hub).chips.length = core.hub.chips.length := by
    simp [Hub.retire, Hub.modifyChip]
  refine aligned_ofList ha.relies (fun exposed he => ?_) ha.distinct ha.used ?_
  · obtain ⟨hmem, hne, hknown⟩ := ha.known exposed he
    refine ⟨hmem, ?_⟩
    rw [Hub.retire, Hub.chip_modifyChip_of_ne hne]
    exact hknown
  · rw [hlength]
    exact ha.counted

end Teardown

section Run

variable {core : Core}

theorem aligned_idle {g g' : Hub.Stage} (hg : g.idle = true) (hg' : g'.idle = true)
    (ha : Aligned g core) : Aligned g' core := by
  cases g <;> cases hg <;> cases g' <;> cases hg' <;>
    exact ha.stay (fun _ h => h) (fun _ h => h) (fun _ h => h) rfl trivial

theorem aligned_find {uid : UInt64} (ha : Aligned (.withdrawing uid) core) :
    Aligned (.ofFind (core.hub.find? uid)) core := by
  cases hf : core.hub.find? uid with
  | none => exact ha.stay (fun _ h => h) (fun _ h => h) (fun _ h => h) rfl trivial
  | some id => exact ha.stay (fun _ h => h) (fun _ h => h) (fun _ h => h) rfl ⟨uid, hf⟩

theorem aligned_check {id : ChipId} (ha : Aligned (.found id) core) :
    Aligned (.ofFound id (core.hub.chip id).registered) core := by
  obtain ⟨uid, hf⟩ := ha.relies
  cases hr : (core.hub.chip id).registered with
  | false => exact ha.stay (fun _ h => h) (fun _ h => h) (fun _ h => h) rfl trivial
  | true => exact ha.stay (fun _ h => h) (fun _ h => h) (fun _ h => h) rfl ⟨uid, hf, hr⟩

-- A step keeps hub and table in step, as the stage it leads to has it.
theorem aligned_of_steps {g g' : Hub.Stage} {change : Core → Core} (h : Steps g change core g')
    (ha : Aligned g core) (hb : core.hub.chips.length < 2 ^ 64) : Aligned g' (change core) := by
  by_cases hidle : g.idle = true
  · obtain ⟨halike, hidle'⟩ := alike_of_steps h hidle
    exact aligned_idle hidle hidle' (aligned_of_alike halike ha)
  cases h with
  | hub h =>
    cases h with
    | enlist => exact aligned_enlist ha
    | read =>
      exact ha.stay (fun _ h => h) (fun _ h => h) (fun _ h => h) rfl ⟨ha.relies, rfl⟩
    | confirm => exact aligned_confirm ha
    | unmap | abandon => exact ha.relies.elim
    | find => exact aligned_find ha
    | check => exact aligned_check ha
    | suspend => exact aligned_suspend ha
    | resume => exact aligned_resume ha
    | release => exact aligned_release ha
    | drain => exact aligned_drain ha
    | disable => exact aligned_disable ha
    | retire => exact aligned_retire ha
    | _ => exact absurd rfl hidle
  | expose => exact aligned_add ha hb
  | isHeld => exact ha
  | withdraw => exact aligned_withdrawn ha
  | conceal => exact aligned_concealed ha
  | _ => exact absurd rfl hidle

theorem aligned_stage (ha : Aligned .plain core) (operation : Operation) :
    Aligned operation.stage core := by
  have hstay : ∀ {g : Hub.Stage}, (∀ exposed, core.hub.Knows exposed → g.Knows core.hub exposed) →
      g.owed = 0 → core.Relies g → Aligned g core :=
    fun hk ho hr => ha.stay (fun _ h => h.elim) (fun _ h => h.elim) hk ho hr
  cases operation with
  | request | release => exact ha
  | hub operation =>
    cases operation with
    | register r =>
      unfold Operation.stage Hub.Operation.stage Hub.Stage.ofRegistration
      simp only
      split
      · next hcheck =>
        exact hstay (fun _ h => h) rfl (Hub.uid_ne_of_check hcheck)
      · exact ha
    | withdraw uid => exact hstay (fun _ h => h) rfl trivial
    | teardown => exact hstay (fun _ h => h) rfl trivial
    | dispatch m => exact hstay (fun _ h => h) rfl trivial
    | _ => exact ha

end Run

end Core

end GpioBridge
