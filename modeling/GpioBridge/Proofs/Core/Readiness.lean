import GpioBridge.Proofs.Core.Alignment
import GpioBridge.Proofs.Core.Overtaking

namespace GpioBridge.Core

open Hub (Stage)

-- A mapped chip that counts as exposed is ready, or a withdrawal has suspended it.
def Poised (core : Core) (stages : List Stage) : Prop :=
  ∀ uid id, core.hub.find? uid = some id → (core.hub.chip id).registered = true →
    (core.hub.chip id).initialized = true ∨ ∃ g ∈ stages, g.Suspends id

section Steps

variable {lost : ChipId → Prop} {core core' : Core} {g g' : Stage} {others stages : List Stage}

theorem Poised.perm {stages' : List Stage} (h : Poised core stages) (hp : stages.Perm stages') :
    Poised core stages' := by
  intro uid id hf hr
  refine (h uid id hf hr).imp_right fun ⟨g, hg, hs⟩ => ⟨g, hp.mem_iff.mp hg, hs⟩

-- A chip that a call leaves alone is as ready as it was.
structure Spares (g : Stage) (core core' : Core) (uid : UInt64) (id : ChipId) : Prop where
  mapped : core.hub.find? uid = some id
  registered : (core.hub.chip id).registered = true
  initialized : (core'.hub.chip id).initialized = (core.hub.chip id).initialized
  free : ¬g.Suspends id

theorem Poised.restage (h : Poised core (g :: others))
    (hkeep : ∀ uid id, core'.hub.find? uid = some id → (core'.hub.chip id).registered = true →
      (core'.hub.chip id).initialized = true ∨ g'.Suspends id ∨ Spares g core core' uid id) :
    Poised core' (g' :: others) := by
  intro uid id hf hr
  rcases hkeep uid id hf hr with hready | hsuspends | hspares
  · exact .inl hready
  · exact .inr ⟨g', List.mem_cons_self, hsuspends⟩
  · rw [hspares.initialized]
    refine (h uid id hspares.mapped hspares.registered).imp_right fun ⟨stage, hstage, hs⟩ => ?_
    rcases List.mem_cons.mp hstage with rfl | hstage
    · exact absurd hs hspares.free
    · exact ⟨stage, List.mem_cons_of_mem _ hstage, hs⟩

-- Where the hub is as it was, every chip is spared by who does not suspend one.
theorem Poised.same (h : Poised core (g :: others)) (hhub : core'.hub.outline = core.hub.outline)
    (hfree : ∀ id, g.Suspends id → g'.Suspends id) : Poised core' (g' :: others) := by
  refine h.restage fun uid id hf hr => ?_
  rw [Hub.find?_of_outline hhub] at hf
  rw [Hub.registered_of_outline hhub] at hr
  by_cases hs : g.Suspends id
  · exact .inr (.inl (hfree id hs))
  · exact .inr (.inr ⟨hf, hr, Hub.initialized_of_outline hhub id, hs⟩)

-- Changing one chip spares the others.
theorem Poised.modify {target : ChipId} {f : Chip → Chip} (h : Poised core (g :: others))
    (hother : ∀ id, g.Suspends id → id = target)
    (htarget : ∀ uid, core.hub.find? uid = some target →
      ((core.hub.modifyChip target f).chip target).registered = true →
        ((core.hub.modifyChip target f).chip target).initialized = true ∨ g'.Suspends target) :
    Poised { core with hub := core.hub.modifyChip target f } (g' :: others) := by
  refine h.restage fun uid id hf hr => ?_
  by_cases hsame : id = target
  · subst hsame
    exact (htarget uid hf hr).imp_right .inl
  · have hchip : (core.hub.modifyChip target f).chip id = core.hub.chip id :=
      Hub.chip_modifyChip_of_ne hsame f core.hub
    change ((core.hub.modifyChip target f).chip id).registered = true at hr
    rw [hchip] at hr
    refine .inr (.inr ⟨hf, hr, ?_, fun hs => hsame (hother id hs)⟩)
    change ((core.hub.modifyChip target f).chip id).initialized = _
    rw [hchip]

theorem poised_evict {r : Registration} (old : ChipId)
    (h : Poised core (.registering r :: others)) :
    Poised { core with hub := core.hub.evict r.uid old } (g' :: others) := by
  refine h.restage fun uid id hf hr => ?_
  have hregistered : ((core.hub.evict r.uid old).chip id).registered =
      (core.hub.chip id).registered :=
    Hub.field_modifyChip_of_eq (g := Chip.registered) (by intro chip; rfl) old id
      { core.hub with registry := _ }
  have hinitialized : ((core.hub.evict r.uid old).chip id).initialized =
      (core.hub.chip id).initialized :=
    Hub.field_modifyChip_of_eq (g := Chip.initialized) (by intro chip; rfl) old id
      { core.hub with registry := _ }
  rw [Hub.find?_evict] at hf
  split at hf
  · cases hf
  · exact .inr (.inr ⟨hf, hregistered.symm.trans hr, hinitialized, fun hs => hs⟩)

-- A new chip does not count as exposed.
theorem poised_enlisted {r : Registration} (h : Poised core (.registering r :: others)) :
    Poised { core with hub := core.hub.enlisted r } (g' :: others) := by
  refine h.restage fun uid id hf hr => ?_
  rw [Hub.chip_enlisted] at hr ⊢
  split at hr
  · cases hr
  · next hold =>
    rw [Hub.find?_enlisted] at hf
    split at hf
    · exact absurd (Option.some.inj hf).symm hold
    · exact .inr (.inr ⟨hf, hr, by rw [Hub.chip_enlisted, if_neg hold], fun hs => hs⟩)

theorem poised_enlist {r : Registration} (h : Poised core (.registering r :: others)) :
    Poised { core with hub := (Hub.enlist r core.hub).2 } (g' :: others) := by
  have he := Hub.enlists_enlist r core.hub
  generalize (Hub.enlist r core.hub).1 = enlistment at he
  generalize (Hub.enlist r core.hub).2 = hub' at he ⊢
  cases he with
  | refused | full => exact h.same rfl nofun
  | fresh => exact poised_enlisted h
  | @fullAfterEviction id => exact poised_evict id h
  | @replaced id =>
    have hevicted : Poised { core with hub := core.hub.evict r.uid id }
        (.registering r :: others) := poised_evict id h
    exact poised_enlisted hevicted

-- A chip that a change takes the mark from does not count as exposed.
theorem not_registered_modifyChip {f : Chip → Chip} (hf : ∀ chip, (f chip).registered = false)
    (id : ChipId) (hub : Hub) : ((hub.modifyChip id f).chip id).registered = false := by
  by_cases hhas : hub.Has id
  · rw [Hub.chip_modifyChip_self hhas, hf]
  · rw [Hub.chip_of_not_has fun hnew => hhas (Hub.has_modifyChip.mp hnew)]
    rfl

theorem poised_suspend {id : ChipId} (h : Poised core (.suspending id :: others)) :
    Poised { core with hub := (Hub.suspend id core.hub).2 }
      (.ofSuspension id (Hub.suspend id core.hub).1 :: others) := by
  have hsus := Hub.suspends_suspend id core.hub
  generalize (Hub.suspend id core.hub).1 = suspension at hsus ⊢
  generalize (Hub.suspend id core.hub).2 = hub' at hsus ⊢
  cases hsus with
  | settled => exact h.same rfl nofun
  | unexposed =>
    refine h.modify nofun fun _ _ hr => ?_
    rw [not_registered_modifyChip (by intro chip; rfl)] at hr
    cases hr
  | exposed => exact h.modify nofun fun _ _ _ => .inr rfl

theorem poised_unmap {uid : UInt64} {id : ChipId} (h : Poised core (.refused uid id :: others)) :
    Poised { core with hub := Hub.unmap uid id core.hub } (g' :: others) := by
  unfold Hub.unmap
  split
  · refine h.restage fun other id' hf hr => .inr (.inr ⟨?_, hr, rfl, fun hs => hs⟩)
    rw [Hub.find?, UidMap.get?_erase] at hf
    split at hf
    · cases hf
    · exact hf
  · exact h.same rfl fun _ hs => False.elim hs

theorem Poised.steps {change : Core → Core} (h : Poised core (g :: others))
    (ho : Orderly lost core (g :: others)) (hs : Steps g change core g') :
    Poised (change core) (g' :: others) := by
  by_cases hidle : g.idle = true
  · obtain ⟨halike, -⟩ := alike_of_steps hs hidle
    refine h.same halike.hub fun id hsuspends => ?_
    cases g <;> first | exact False.elim hsuspends | cases hidle
  cases hs with
  | hub hs =>
    cases hs with
    | enlist => exact poised_enlist h
    | read | find | check => exact h.same rfl nofun
    | confirm =>
      have hnew : core.hub.Unshown _ := ho.expects _ List.mem_cons_self
      refine h.modify nofun fun uid hf _ => .inl ?_
      rw [Hub.chip_modifyChip_self hnew.has]
      exact hnew.ready uid hf
    | unmap => exact poised_unmap h
    | abandon =>
      have hgone : core.hub.Unshown _ ∧ ∀ uid, core.hub.find? uid ≠ some _ :=
        ho.expects _ List.mem_cons_self
      exact h.modify nofun fun uid hf _ => absurd hf (hgone.2 uid)
    | suspend => exact poised_suspend h
    | resume =>
      refine h.modify (fun _ hsuspends => hsuspends) fun uid hf _ => .inl ?_
      rw [Hub.chip_modifyChip_self (ho.named hf).1]
    | release =>
      refine h.modify (fun _ hsuspends => hsuspends) fun _ _ hr => ?_
      rw [not_registered_modifyChip (by intro chip; rfl)] at hr
      cases hr
    | drain => exact h.restage fun _ _ hf _ => by cases hf
    | @disable id rest =>
      have hdoomed := ho.doomed _ List.mem_cons_self id List.mem_cons_self
      exact h.modify nofun fun uid hf _ => absurd hf (hdoomed.2 uid)
    | @retire id rest =>
      have hdoomed := ho.doomed _ List.mem_cons_self id List.mem_cons_self
      exact h.modify nofun fun uid hf _ => absurd hf (hdoomed.2 uid)
    | _ => exact absurd rfl hidle
  | expose | conceal => exact h.same rfl nofun
  | isHeld | withdraw => exact h.same rfl fun _ hsuspends => hsuspends
  | _ => exact absurd rfl hidle

end Steps

section Run

variable {τ : Type} {answers : Message → τ → Except TransportFault Unit → τ → Prop}
  {lost : ChipId → Prop} {core core' : Core} {t t' : τ} {calls calls' : List (Operation × Stage)}
  {limit : Option Nat} {patience : UInt64} {around : τ} {last : Calls τ}

theorem Poised.advance (h : Poised core (calls.map (·.2)))
    (ho : Orderly lost core (calls.map (·.2)))
    (hstep : plan.Advances answers Operation.stage Stage.WaitsFor calls core t calls' core' t') :
    Poised core' (calls'.map (·.2)) := by
  cases hstep with
  | call operation =>
    intro uid id hf hr
    refine (h uid id hf hr).imp_right fun ⟨g, hg, hs⟩ => ⟨g, ?_, hs⟩
    rw [List.map_append]
    exact List.mem_append_left _ hg
  | note => exact h
  | @move before after i g g' _ _ _ _ hgoes _ =>
    have hperm := Plan.perm_middle before after i
    cases hgoes with
    | step hs => exact ((h.perm (hperm g)).steps (ho.perm (hperm g)) hs).perm (hperm g').symm
    | ask ha _ =>
      cases ha with
      | send => exact h

-- Every reachable core is poised, whatever is under way.
theorem poised_of_run
    (hrun : Relation.ReflTransGen (Pool.Step (rules answers WaitsFor))
      ⟨{ hub := { limit, patience } }, around, []⟩ last) :
    ∃ stages, plan.Stands Ended last.calls stages ∧
      Orderly (fun _ => True) last.state (stages.map (·.2)) ∧
        Poised last.state (stages.map (·.2)) := by
  induction hrun with
  | refl => exact ⟨[], .nil, orderly_empty _ limit patience, fun _ _ hf => by cases hf⟩
  | tail _ hstep ih =>
    obtain ⟨stages, hstands, horderly, hpoised⟩ := ih
    obtain ⟨stages', hstands', hadvances⟩ :=
      Plan.advances_of_step follows_process waitsFor_of_follows hstep hstands
    exact ⟨stages', hstands', horderly.advance hadvances fun _ _ => trivial,
      hpoised.advance horderly hadvances⟩

theorem not_suspends_of_ended {outcome : Outcome} {g : Stage} (h : Ended outcome g) (id : ChipId) :
    ¬g.Suspends id := by
  cases h with
  | hub h => cases h <;> exact nofun
  | requested | released => exact nofun

-- When nothing is under way, no mapped chip is retired, and those that count as exposed are ready.
theorem ready_of_run
    (hrun : Relation.ReflTransGen (Pool.Step (rules answers WaitsFor))
      ⟨{ hub := { limit, patience } }, around, []⟩ last)
    (hrest : last.AtRest) {uid : UInt64} {id : ChipId} (hf : last.state.hub.find? uid = some id) :
    (last.state.hub.chip id).uid = uid ∧ (last.state.hub.chip id).retired = false ∧
      ((last.state.hub.chip id).registered = true →
        (last.state.hub.chip id).initialized = true) := by
  obtain ⟨stages, hstands, horderly, hpoised⟩ := poised_of_run hrun
  obtain ⟨-, huid, hpresent⟩ := horderly.named hf
  -- Who suspends a chip has not returned.
  refine ⟨huid, hpresent, fun hr => (hpoised uid id hf hr).resolve_right ?_⟩
  rintro ⟨g, hg, hsuspends⟩
  obtain ⟨stage, hstage, rfl⟩ := List.mem_map.mp hg
  obtain ⟨call, hcall, -, hfollows⟩ := hstands.exists_call hstage
  obtain ⟨outcome, houtcome⟩ := hrest call hcall
  rw [houtcome] at hfollows
  cases hfollows with
  | done hended => exact not_suspends_of_ended hended id hsuspends

end Run

end GpioBridge.Core
