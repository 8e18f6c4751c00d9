import GpioBridge.Proofs.Hub.Order

namespace GpioBridge.Hub

-- The uid a registration made a chip for, and that chip, until it is known how exposing it ended.
def Stage.offers : Stage → Option (UInt64 × ChipId)
  | exposing r id | offering r id _ => some (r.uid, id)
  | refused uid id => some (uid, id)
  | _ => none

-- The chip that is about to be retired because it could not be exposed.
def Stage.loses : Stage → Option ChipId
  | abandoning id => some id
  | _ => none

-- The operation that got to this stage, while it is still to enlist a chip, offer one or drain the
-- hub.
def Stage.owner : Stage → Option Operation
  | registering r | exposing r _ | offering r _ _ => some (.register r)
  | tearingDown => some .teardown
  | _ => none

theorem Stage.loses_ofList (ids : List ChipId) : (ofList ids).loses = none := by
  cases ids <;> rfl

theorem Stage.offers_ofList (ids : List ChipId) : (ofList ids).offers = none := by
  cases ids <;> rfl

theorem Operation.nothing_stage (operation : Operation) :
    operation.stage.offers = none ∧ operation.stage.loses = none := by
  cases operation with
  | register r =>
    unfold stage Stage.ofRegistration
    simp only
    split <;> exact ⟨rfl, rfl⟩
  | _ => exact ⟨rfl, rfl⟩

theorem Operation.eq_of_owner {operation owner : Operation}
    (h : operation.stage.owner = some owner) : operation = owner := by
  cases operation with
  | register r =>
    unfold stage Stage.ofRegistration at h
    simp only at h
    split at h
    · exact Option.some.inj h
    · cases h
  | teardown => exact Option.some.inj h
  | _ => cases h

structure Standing (hub : Hub) (stages : List Stage) : Prop where
  keyed : ∀ {uid id}, hub.find? uid = some id → (hub.chip id).uid = uid
  present : ∀ {uid id}, hub.find? uid = some id → (hub.chip id).retired = false
  marked : ∀ id, (hub.chip id).registered = ((hub.chip id).handle).isSome
  lost : ∀ g ∈ stages, ∀ id, g.loses = some id → ∀ uid, hub.find? uid ≠ some id
  offered : ∀ g ∈ stages, ∀ uid id, g.offers = some (uid, id) → (hub.chip id).uid = uid
  ready : ∀ {uid id}, hub.find? uid = some id → (hub.chip id).registered = true →
    (hub.chip id).initialized = true ∨ ∃ g ∈ stages, g.holds = some id

theorem standing_empty (limit : Option Nat) (patience : UInt64) :
    Standing { limit, patience } [] where
  keyed h := by cases h
  present h := by cases h
  marked _ := rfl
  lost _ h := by cases h
  offered _ h := by cases h
  ready h := by cases h

theorem Standing.perm {hub : Hub} {stages stages' : List Stage} (h : Standing hub stages)
    (hp : stages.Perm stages') : Standing hub stages' where
  keyed := h.keyed
  present := h.present
  marked := h.marked
  lost g hg := h.lost g (hp.mem_iff.mpr hg)
  offered g hg := h.offered g (hp.mem_iff.mpr hg)
  ready hf hr := (h.ready hf hr).imp_right fun ⟨g, hg, hheld⟩ => ⟨g, hp.mem_iff.mp hg, hheld⟩

section Frame

variable {hub hub' : Hub} {g g' : Stage} {others : List Stage} {id : ChipId}

-- A call goes on to a stage that says no more about any chip and gives no lock back.
theorem Standing.restage (h : Standing hub (g :: others))
    (hoffers : ∀ offer, g'.offers = some offer → g.offers = some offer)
    (hholds : ∀ id, g.holds = some id → g'.holds = some id)
    (hloses : ∀ id, g'.loses = some id → ∀ uid, hub.find? uid ≠ some id) :
    Standing hub (g' :: others) where
  keyed := h.keyed
  present := h.present
  marked := h.marked
  lost := by
    intro stage hs id hid
    rcases List.mem_cons.mp hs with rfl | hs
    · exact hloses id hid
    · exact h.lost stage (List.mem_cons_of_mem _ hs) id hid
  offered := by
    intro stage hs uid id hid
    rcases List.mem_cons.mp hs with rfl | hs
    · exact h.offered g List.mem_cons_self uid id (hoffers _ hid)
    · exact h.offered stage (List.mem_cons_of_mem _ hs) uid id hid
  ready := by
    intro uid id hf hr
    refine (h.ready hf hr).imp_right fun ⟨stage, hs, hheld⟩ => ?_
    rcases List.mem_cons.mp hs with rfl | hs
    · exact ⟨g', List.mem_cons_self, hholds id hheld⟩
    · exact ⟨stage, List.mem_cons_of_mem _ hs, hheld⟩

theorem Standing.add (h : Standing hub others) (hoffers : g.offers = none)
    (hloses : g.loses = none) : Standing hub (g :: others) where
  keyed := h.keyed
  present := h.present
  marked := h.marked
  lost := by
    refine List.forall_mem_cons.mpr ⟨fun id hid => ?_, h.lost⟩
    rw [hloses] at hid
    cases hid
  offered := by
    refine List.forall_mem_cons.mpr ⟨fun uid id hid => ?_, h.offered⟩
    rw [hoffers] at hid
    cases hid
  ready hf hr := (h.ready hf hr).imp_right fun ⟨stage, hs, hheld⟩ =>
    ⟨stage, List.mem_cons_of_mem _ hs, hheld⟩

theorem Standing.outline {stages : List Stage} (h : Standing hub stages)
    (houtline : hub'.outline = hub.outline) : Standing hub' stages where
  keyed hf := by
    rw [find?_of_outline houtline] at hf
    rw [uid_of_outline houtline, h.keyed hf]
  present hf := by
    rw [find?_of_outline houtline] at hf
    rw [retired_of_outline houtline, h.present hf]
  lost g hg id hid uid := by
    rw [find?_of_outline houtline]
    exact h.lost g hg id hid uid
  marked id := by rw [registered_of_outline houtline, handle_of_outline houtline, h.marked]
  offered g hg uid id hid := by rw [uid_of_outline houtline, h.offered g hg uid id hid]
  ready hf hr := by
    rw [find?_of_outline houtline] at hf
    rw [registered_of_outline houtline] at hr
    rw [initialized_of_outline houtline]
    exact h.ready hf hr

-- Uids lose their chips, and the chips stay as they are.
theorem Standing.lose {stages : List Stage} (h : Standing hub stages)
    (hchip : ∀ id, hub'.chip id = hub.chip id)
    (hfind : ∀ {uid id}, hub'.find? uid = some id → hub.find? uid = some id) :
    Standing hub' stages where
  keyed hf := by rw [hchip, h.keyed (hfind hf)]
  present hf := by rw [hchip, h.present (hfind hf)]
  lost g hg id hid uid hf := h.lost g hg id hid uid (hfind hf)
  marked id := by rw [hchip, h.marked]
  offered g hg uid id hid := by rw [hchip, h.offered g hg uid id hid]
  ready hf hr := by
    rw [hchip] at hr ⊢
    exact h.ready (hfind hf) hr

-- A call changes a chip that no other lock it gives back is of.
theorem Standing.touch {f : Chip → Chip} (h : Standing hub (g :: others))
    (huid : ∀ chip, (f chip).uid = chip.uid)
    (hretired : ∀ uid, hub.find? uid = some id → (f (hub.chip id)).retired = (hub.chip id).retired)
    (hmarked : (f (hub.chip id)).registered = ((f (hub.chip id)).handle).isSome)
    (hready : ∀ uid, hub.find? uid = some id → (f (hub.chip id)).registered = true →
      (f (hub.chip id)).initialized = true ∨ g'.holds = some id)
    (hholds : ∀ other, g.holds = some other → other = id)
    (hoffers : ∀ offer, g'.offers = some offer → g.offers = some offer)
    (hloses : g'.loses = none) : Standing (hub.modifyChip id f) (g' :: others) := by
  have hsame : ∀ {other}, other ≠ id → (hub.modifyChip id f).chip other = hub.chip other :=
    fun hne => chip_modifyChip_of_ne hne f hub
  have hkept : ∀ other, ((hub.modifyChip id f).chip other).uid = (hub.chip other).uid :=
    fun other => field_modifyChip_of_eq huid id other hub
  constructor
  case keyed =>
    intro uid other hf
    rw [hkept, h.keyed hf]
  case present =>
    intro uid other hf
    by_cases heq : other = id
    · subst heq
      by_cases hhas : hub.Has other
      · rw [chip_modifyChip_self hhas, hretired uid hf, h.present hf]
      · rw [chip_of_not_has fun hnew => hhas (has_modifyChip.mp hnew)]
        rfl
    · rw [hsame heq, h.present hf]
  case lost =>
    intro stage hs other hid
    rcases List.mem_cons.mp hs with rfl | hs
    · rw [hloses] at hid
      cases hid
    · exact h.lost stage (List.mem_cons_of_mem _ hs) other hid
  case marked =>
    intro other
    by_cases heq : other = id
    · subst heq
      by_cases hhas : hub.Has other
      · rw [chip_modifyChip_self hhas, hmarked]
      · rw [chip_of_not_has fun hnew => hhas (has_modifyChip.mp hnew)]
        rfl
    · rw [hsame heq, h.marked]
  case offered =>
    intro stage hs uid other hid
    rw [hkept]
    rcases List.mem_cons.mp hs with rfl | hs
    · exact h.offered g List.mem_cons_self uid other (hoffers _ hid)
    · exact h.offered stage (List.mem_cons_of_mem _ hs) uid other hid
  case ready =>
    intro uid other hf hr
    by_cases heq : other = id
    · subst heq
      have hhas : hub.Has other := has_modifyChip.mp (has_of_registered hr)
      rw [chip_modifyChip_self hhas] at hr ⊢
      exact (hready uid hf hr).imp_right fun hheld => ⟨g', List.mem_cons_self, hheld⟩
    · rw [hsame heq] at hr ⊢
      refine (h.ready hf hr).imp_right fun ⟨stage, hs, hheld⟩ => ?_
      rcases List.mem_cons.mp hs with rfl | hs
      · exact absurd (hholds other hheld) heq
      · exact ⟨stage, List.mem_cons_of_mem _ hs, hheld⟩

-- Unmapping a chip that no other uid names.
theorem find?_unmap {uid : UInt64} (hkeyed : ∀ other, hub.find? other = some id → other = uid)
    (other : UInt64) :
    (unmap uid id hub).find? other =
      if hub.find? other = some id then none else hub.find? other := by
  unfold unmap
  by_cases hf : hub.find? uid = some id
  · rw [if_pos hf]
    have herase : ({ hub with registry := hub.registry.erase uid } : Hub).find? other =
        if other = uid then none else hub.find? other := UidMap.get?_erase ..
    rw [herase]
    by_cases heq : other = uid
    · rw [if_pos heq, if_pos (heq ▸ hf)]
    · rw [if_neg heq, if_neg fun h => heq (hkeyed other h)]
  · rw [if_neg hf, if_neg]
    intro h
    rw [hkeyed other h] at h
    exact hf h

theorem standing_enlisted {r : Registration} (h : Standing hub (.registering r :: others))
    (ho : Ordered hub (.registering r :: others)) :
    Standing (hub.enlisted r) (.exposing r hub.nextId :: others) := by
  have hold : ∀ {id}, hub.Has id → (hub.enlisted r).chip id = hub.chip id :=
    fun hhas => chip_enlisted_of_has hhas r
  constructor
  case keyed =>
    intro uid id hf
    rw [find?_enlisted] at hf
    split at hf
    · next heq =>
      cases hf
      rw [chip_enlisted_nextId, heq]
      rfl
    · rw [hold (ho.named hf), h.keyed hf]
  case present =>
    intro uid id hf
    rw [find?_enlisted] at hf
    split at hf
    · cases hf
      rw [chip_enlisted_nextId]
      rfl
    · rw [hold (ho.named hf), h.present hf]
  case lost =>
    intro stage hs id hid uid hf
    rcases List.mem_cons.mp hs with rfl | hs
    · cases hid
    · have hcreates : stage.creates = some id := by
        cases stage <;> cases hid
        rfl
      have hmade := ho.made stage (List.mem_cons_of_mem _ hs) id hcreates
      exact h.lost stage (List.mem_cons_of_mem _ hs) id hid uid
        (find?_of_find?_enlisted hmade.has hf)
  case marked =>
    intro id
    rw [chip_enlisted]
    split
    · rfl
    · exact h.marked id
  case offered =>
    intro stage hs uid id hid
    rcases List.mem_cons.mp hs with rfl | hs
    · cases hid
      rw [chip_enlisted_nextId]
      rfl
    · have hcreates : stage.creates = some id := by
        cases stage <;> cases hid <;> rfl
      rw [hold (ho.made stage (List.mem_cons_of_mem _ hs) id hcreates).has,
        h.offered stage (List.mem_cons_of_mem _ hs) uid id hid]
  case ready =>
    intro uid id hf hr
    rw [find?_enlisted] at hf
    split at hf
    · cases hf
      rw [chip_enlisted_nextId] at hr
      cases hr
    · rw [hold (ho.named hf)] at hr ⊢
      refine (h.ready hf hr).imp_right fun ⟨stage, hs, hheld⟩ => ?_
      rcases List.mem_cons.mp hs with rfl | hs
      · cases hheld
      · exact ⟨stage, List.mem_cons_of_mem _ hs, hheld⟩

-- A stale chip is mapped no more and changes no mark but the one that says so.
theorem Standing.evict {stages : List Stage} {uid : UInt64} (h : Standing hub stages)
    (hstale : hub.find? uid = some id) : Standing (hub.evict uid id) stages := by
  have hfield : ∀ {β : Type} (field : Chip → β),
      (∀ chip : Chip, field { chip with retired := true } = field chip) → ∀ other,
        field ((hub.evict uid id).chip other) = field (hub.chip other) :=
    fun field hf other => field_modifyChip_of_eq hf id other
      { hub with registry := hub.registry.erase uid }
  have huid := hfield Chip.uid fun _ => rfl
  have hregistered := hfield Chip.registered fun _ => rfl
  constructor
  case keyed =>
    intro other found hf
    rw [huid, h.keyed (find?_of_evict hf)]
  case present =>
    intro other found hf
    have hfound := find?_of_evict hf
    have hne : found ≠ id := by
      rintro rfl
      rw [find?_evict, ← h.keyed hfound, h.keyed hstale, if_pos rfl] at hf
      cases hf
    have hsame : (hub.evict uid id).chip found = hub.chip found :=
      chip_modifyChip_of_ne hne _ { hub with registry := hub.registry.erase uid }
    rw [hsame, h.present hfound]
  case lost =>
    exact fun stage hs found hid other hf => h.lost stage hs found hid other (find?_of_evict hf)
  case marked =>
    intro other
    rw [hregistered, hfield Chip.handle fun _ => rfl, h.marked]
  case offered =>
    intro stage hs other found hid
    rw [huid, h.offered stage hs other found hid]
  case ready =>
    intro other found hf hr
    rw [hregistered] at hr
    rw [hfield Chip.initialized fun _ => rfl]
    exact h.ready (find?_of_evict hf) hr

theorem standing_enlist {r : Registration} (h : Standing hub (.registering r :: others))
    (ho : Ordered hub (.registering r :: others)) :
    Standing (enlist r hub).2 (.ofEnlistment r (enlist r hub).1 :: others) := by
  have he := enlists_enlist r hub
  generalize (enlist r hub).1 = enlistment at he ⊢
  generalize (enlist r hub).2 = hub' at he ⊢
  cases he with
  | refused | full => exact h.restage nofun nofun nofun
  | fresh => exact standing_enlisted h ho
  | fullAfterEviction hf => exact (h.evict hf).restage nofun nofun nofun
  | @replaced id hf =>
    have hnew := standing_enlisted (h.evict hf) (ho.keeps (keeps_evict r.uid id hub))
    rwa [nextId_evict] at hnew

theorem standing_suspend (h : Standing hub (.suspending id :: others)) :
    Standing (suspend id hub).2 (.ofSuspension id (suspend id hub).1 :: others) := by
  have hs := suspends_suspend id hub
  generalize (suspend id hub).1 = suspension at hs ⊢
  generalize (suspend id hub).2 = hub' at hs ⊢
  cases hs with
  | settled => exact h.restage nofun nofun nofun
  | unexposed hr hh =>
    have hmarked := h.marked id
    rw [hr, hh] at hmarked
    cases hmarked
  | exposed =>
    exact h.touch (fun _ => rfl) (fun _ _ => rfl) (h.marked id) (fun _ _ _ => .inr rfl) nofun nofun
      rfl

-- A call changes the hub.
theorem standing_of_steps {change : Hub → Hub} (hs : Stage.Steps g change hub g')
    (h : Standing hub (g :: others)) (ho : Ordered hub (g :: others)) :
    Standing (change hub) (g' :: others) := by
  have hunmapped : ∀ {id}, id ∈ g.todo → ∀ uid, hub.find? uid ≠ some id :=
    fun hid => (ho.doomed g List.mem_cons_self _ hid).2
  cases hs with
  | look => exact h.restage nofun nofun nofun
  | count =>
    have hcounted : Standing hub.countSent (.plain :: others) := h.lose (fun _ => rfl) fun hf => hf
    exact hcounted.restage nofun nofun nofun
  | @collect id pin => exact (h.outline (outline_collect id pin hub)).restage nofun nofun nofun
  | setLevel id pin level =>
    exact (h.outline (outline_setLevel id pin level hub)).restage nofun nofun nofun
  | setLineDirection id pin direction =>
    exact (h.outline (outline_setLineDirection id pin direction hub)).restage nofun nofun nofun
  | @deliver m => exact (h.outline (outline_deliver m hub)).restage nofun nofun nofun
  | enlist => exact standing_enlist h ho
  | read => exact h.restage (fun _ hid => hid) nofun nofun
  | @confirm id handle =>
    refine h.touch (fun _ => rfl) (fun _ _ => rfl) rfl (fun uid hf _ => .inl ?_) nofun nofun rfl
    exact (ho.made _ List.mem_cons_self id rfl).ready uid hf
  | @unmap uid id =>
    have hchip : ∀ other, (Hub.unmap uid id hub).chip other = hub.chip other := fun _ => by
      unfold Hub.unmap
      split <;> rfl
    have huid := h.offered _ List.mem_cons_self uid id rfl
    have hkeyed : ∀ other, hub.find? other = some id → other = uid := fun other hf => by
      rw [← h.keyed hf, huid]
    refine (h.lose hchip find?_of_unmap).restage nofun nofun ?_
    rintro _ ⟨rfl⟩ other hf
    rw [find?_unmap hkeyed] at hf
    split at hf
    · cases hf
    · next hne => exact hne hf
  | @abandon id =>
    have hlost := h.lost _ List.mem_cons_self id rfl
    exact h.touch (fun _ => rfl) (fun uid hf => absurd hf (hlost uid)) (h.marked id)
      (fun uid hf => absurd hf (hlost uid)) nofun nofun rfl
  | @find uid => cases hub.find? uid <;> exact h.restage nofun nofun nofun
  | @check id => cases (hub.chip id).registered <;> exact h.restage nofun nofun nofun
  | suspend => exact standing_suspend h
  | @resume id =>
    exact h.touch (fun _ => rfl) (fun _ _ => rfl) (h.marked id) (fun _ _ _ => .inl rfl)
      (fun _ hheld => (Option.some.inj hheld).symm) nofun rfl
  | release =>
    exact h.touch (fun _ => rfl) (fun _ _ => rfl) rfl (fun _ _ => nofun)
      (fun _ hheld => (Option.some.inj hheld).symm) nofun rfl
  | drain =>
    have hdrained : Standing hub.drain.2 (.tearingDown :: others) := h.lose (fun _ => rfl) nofun
    exact hdrained.restage (by simp [Stage.offers_ofList]) nofun (by simp [Stage.loses_ofList])
  | @disable id rest =>
    unfold Hub.disable
    cases (hub.chip id).handle <;>
      exact h.touch (fun _ => rfl) (fun _ _ => rfl) (h.marked id) (fun _ _ _ => .inr rfl) nofun
        nofun rfl
  | @retire id rest =>
    exact h.touch (fun _ => rfl) (fun uid hf => absurd hf (hunmapped List.mem_cons_self uid)) rfl
      (fun _ _ => nofun) (fun _ hheld => (Option.some.inj hheld).symm)
      (by simp [Stage.offers_ofList]) (Stage.loses_ofList rest)

theorem standing_of_asks {demand : Demand} {answer : demand.Answer}
    (ha : Stage.Asks g demand answer g') (h : Standing hub (g :: others)) :
    Standing hub (g' :: others) := by
  cases ha with
  | send | isHeld => exact h
  | @expose r id descriptor answer =>
    cases answer with
    | ok handle => exact h.restage nofun nofun nofun
    | error fault => exact h.restage (fun _ hid => hid) nofun nofun
  | withdrawn | concealed => exact h.restage nofun (fun _ hheld => hheld) nofun

end Frame

section Owner

variable {hub : Hub} {g g' : Stage} {operation : Operation}

theorem owner_of_steps {change : Hub → Hub} (hs : Stage.Steps g change hub g')
    (h : g'.owner = some operation) : g.owner = some operation := by
  cases hs with
  | @enlist r =>
    revert h
    unfold Stage.ofEnlistment
    cases (Hub.enlist r hub).1.outcome with
    | error fault => exact nofun
    | ok id => exact fun h => h
  | read => exact h
  | @find uid =>
    cases hf : hub.find? uid <;> simp [hf, Stage.ofFind, Stage.owner] at h
  | @check id =>
    cases hr : (hub.chip id).registered <;> simp [hr, Stage.ofFound, Stage.owner] at h
  | @suspend id =>
    cases hs : (Hub.suspend id hub).1 <;> simp [hs, Stage.ofSuspension, Stage.owner] at h
  | drain => cases hd : hub.drain.1 <;> simp [hd, Stage.ofList, Stage.owner] at h
  | @disable id rest =>
    cases hd : (Hub.disable id hub).1 <;> simp [hd, Stage.ofHandle, Stage.owner] at h
  | @retire id rest => cases rest <;> cases h
  | _ => cases h

theorem owner_of_asks {demand : Demand} {answer : demand.Answer}
    (ha : Stage.Asks g demand answer g') (h : g'.owner = some operation) :
    g.owner = some operation := by
  cases ha with
  | @expose _ _ _ answer => cases answer <;> cases h
  | _ => cases h

end Owner

-- What holds of a hub and of the calls under way on it, in whatever order they go on.
structure Steady (hub : Hub) (stages : List (Operation × Stage)) : Prop where
  owned : ∀ stage ∈ stages, ∀ operation, stage.2.owner = some operation → stage.1 = operation
  ordered : Ordered hub (stages.map (·.2))
  standing : Standing hub (stages.map (·.2))

section Run

variable {τ : Type} {answers : (demand : Demand) → τ → demand.Answer → τ → Prop}
  {hub hub' : Hub} {t t' : τ} {calls calls' : List (Operation × Stage)}

theorem steady_empty (limit : Option Nat) (patience : UInt64) : Steady { limit, patience } [] where
  owned _ hs := absurd hs List.not_mem_nil
  ordered := ordered_empty limit patience
  standing := standing_empty limit patience

theorem owned_of_advances {waits : Stage → Stage → Prop}
    (h : ∀ stage ∈ calls, ∀ operation, stage.2.owner = some operation → stage.1 = operation)
    (hstep : plan.Advances answers Operation.stage waits calls hub t calls' hub' t') :
    ∀ stage ∈ calls', ∀ operation, stage.2.owner = some operation → stage.1 = operation := by
  cases hstep with
  | call operation =>
    intro stage hs owner ho
    rcases List.mem_append.mp hs with hs | hs
    · exact h stage hs owner ho
    · obtain rfl := List.mem_singleton.mp hs
      exact Operation.eq_of_owner ho
  | note => exact h
  | @move before after i g g' _ _ _ _ hgoes _ =>
    intro stage hs owner ho
    rcases List.mem_cons.mp (List.perm_middle.mem_iff.mp hs) with rfl | hs
    · refine h (i, g) (by simp) owner ?_
      cases hgoes with
      | step hs => exact owner_of_steps hs ho
      | ask ha _ => exact owner_of_asks ha ho
    · exact h stage (List.perm_middle.mem_iff.mpr (List.mem_cons_of_mem _ hs)) owner ho

theorem Standing.advance {waits : Stage → Stage → Prop} (h : Standing hub (calls.map (·.2)))
    (ho : Ordered hub (calls.map (·.2)))
    (hstep : plan.Advances answers Operation.stage waits calls hub t calls' hub' t') :
    Standing hub' (calls'.map (·.2)) := by
  cases hstep with
  | call operation =>
    rw [List.map_append]
    have hblank := operation.nothing_stage
    exact Standing.perm (h.add hblank.1 hblank.2) (List.perm_append_singleton ..).symm
  | note => exact h
  | @move before after i g g' _ _ _ _ hgoes _ =>
    have hfront := h.perm (Plan.perm_middle before after i g)
    have hofront := ho.perm (Plan.perm_middle before after i g)
    refine Standing.perm ?_ (Plan.perm_middle before after i g').symm
    cases hgoes with
    | step hs => exact standing_of_steps hs hfront hofront
    | ask ha _ => exact standing_of_asks ha hfront

theorem Steady.advance (h : Steady hub calls)
    (hstep : plan.Advances answers Operation.stage Stage.WaitsFor calls hub t calls' hub' t') :
    Steady hub' calls' where
  owned := owned_of_advances h.owned hstep
  ordered := h.ordered.advance hstep
  standing := h.standing.advance h.ordered hstep

theorem steady_of_run {limit : Option Nat} {patience : UInt64} {around : τ}
    {last : Pool Hub τ Demand Demand.Answer Operation Outcome}
    (hrun : Relation.ReflTransGen (Pool.Step (rules answers WaitsFor))
      ⟨{ limit, patience }, around, []⟩ last) :
    ∃ stages, plan.Stands Ended last.calls stages ∧ Steady last.state stages := by
  induction hrun with
  | refl => exact ⟨[], .nil, steady_empty limit patience⟩
  | tail _ hstep ih =>
    obtain ⟨stages, hstands, hsteady⟩ := ih
    obtain ⟨stages', hstands', hadvances⟩ :=
      Plan.advances_of_step follows_process waitsFor_of_follows hstep hstands
    exact ⟨stages', hstands', hsteady.advance hadvances⟩

end Run

end GpioBridge.Hub
