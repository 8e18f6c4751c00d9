import GpioBridge.Proofs.Hub.Nesting

namespace GpioBridge.Hub

-- The chip stops counting as exposed, or it is retired. The end of a withdrawal does the first;
-- evicting a stale chip, rolling a registration back and tearing down do the second.
def Ends (id : ChipId) (hub hub' : Hub) : Prop :=
  ((hub.chip id).registered = true ∧ (hub'.chip id).registered = false) ∨
    ((hub.chip id).retired = false ∧ (hub'.chip id).retired = true)

instance (id : ChipId) (hub hub' : Hub) : Decidable (Ends id hub hub') :=
  inferInstanceAs (Decidable (_ ∨ _))

-- The chip is not ready, and no call is on its way to make it ready.
structure Dead (hub : Hub) (stages : List Stage) (id : ChipId) : Prop where
  has : hub.Has id
  initialized : (hub.chip id).initialized = false
  unstopped : ∀ g ∈ stages, g.stops ≠ some id
  apart : ((hub.chip id).registered = false ∧ ∀ g ∈ stages, g.exposes ≠ some id) ∨
    (∀ uid, hub.find? uid ≠ some id) ∧ ∀ g ∈ stages, g.seeks ≠ some id

theorem Dead.perm {hub : Hub} {stages stages' : List Stage} {id : ChipId}
    (h : Dead hub stages id) (hp : stages.Perm stages') : Dead hub stages' id where
  has := h.has
  initialized := h.initialized
  unstopped g hg := h.unstopped g (hp.mem_iff.mpr hg)
  apart := h.apart.imp (fun ⟨hr, hs⟩ => ⟨hr, fun g hg => hs g (hp.mem_iff.mpr hg)⟩)
    fun ⟨hf, hs⟩ => ⟨hf, fun g hg => hs g (hp.mem_iff.mpr hg)⟩

theorem Dead.add {hub : Hub} {stages : List Stage} {g : Stage} {id : ChipId}
    (h : Dead hub stages id) (hstops : g.stops ≠ some id) (hexposes : g.exposes ≠ some id)
    (hseeks : g.seeks ≠ some id) : Dead hub (g :: stages) id where
  has := h.has
  initialized := h.initialized
  unstopped := List.forall_mem_cons.mpr ⟨hstops, h.unstopped⟩
  apart := h.apart.imp (fun ⟨hr, hs⟩ => ⟨hr, List.forall_mem_cons.mpr ⟨hexposes, hs⟩⟩)
    fun ⟨hf, hs⟩ => ⟨hf, List.forall_mem_cons.mpr ⟨hseeks, hs⟩⟩

theorem Operation.not_stops_stage (operation : Operation) (id : ChipId) :
    operation.stage.stops ≠ some id ∧ operation.stage.seeks ≠ some id := by
  cases operation with
  | register r =>
    unfold stage Stage.ofRegistration
    simp only
    split <;> exact ⟨nofun, nofun⟩
  | _ => exact ⟨nofun, nofun⟩

section Steps

variable {hub : Hub} {g g' : Stage} {others : List Stage} {id : ChipId} {change : Hub → Hub}

-- Where a step at a stage may leave a call, as far as it matters to one chip.
structure Turns (hub : Hub) (id : ChipId) (g g' : Stage) : Prop where
  stops : g'.stops = some id → g = .suspending id ∧ (hub.chip id).registered = true
  exposes : g'.exposes = some id → g.exposes = some id ∨ id = hub.nextId
  seeks : g'.seeks = some id → g.seeks = some id ∨ ∃ uid, hub.find? uid = some id

theorem turns_of_none (hstops : g'.stops = none) (hexposes : g'.exposes = none)
    (hseeks : g'.seeks = none) : Turns hub id g g' where
  stops h := by
    rw [hstops] at h
    cases h
  exposes h := by
    rw [hexposes] at h
    cases h
  seeks h := by
    rw [hseeks] at h
    cases h

theorem turns_enlist (r : Registration) (hub : Hub) :
    Turns hub id (.registering r) (.ofEnlistment r (enlist r hub).1) := by
  have he := enlists_enlist r hub
  generalize (enlist r hub).1 = enlistment at he ⊢
  generalize (enlist r hub).2 = hub' at he
  cases he with
  | fresh | replaced => exact ⟨nofun, fun h => .inr (Option.some.inj h).symm, nofun⟩
  | refused | full | fullAfterEviction => exact turns_of_none rfl rfl rfl

theorem turns_suspend (other : ChipId) (hub : Hub) :
    Turns hub id (.suspending other) (.ofSuspension other (suspend other hub).1) := by
  have hs := suspends_suspend other hub
  generalize (suspend other hub).1 = suspension at hs ⊢
  generalize (suspend other hub).2 = hub' at hs
  cases hs with
  | exposed hr =>
    refine ⟨fun h => ?_, nofun, nofun⟩
    cases h
    exact ⟨rfl, hr⟩
  | settled | unexposed => exact turns_of_none rfl rfl rfl

theorem turns_of_steps (hs : Stage.Steps g change hub g') : Turns hub id g g' := by
  cases hs with
  | enlist => exact turns_enlist _ hub
  | read => exact ⟨nofun, .inl, nofun⟩
  | @find uid =>
    cases hf : hub.find? uid with
    | none => exact turns_of_none rfl rfl rfl
    | some found =>
      refine ⟨nofun, nofun, fun h => .inr ⟨uid, ?_⟩⟩
      rw [hf]
      exact h
  | @check other =>
    cases (hub.chip other).registered with
    | false => exact turns_of_none rfl rfl rfl
    | true => exact ⟨nofun, nofun, .inl⟩
  | suspend => exact turns_suspend _ hub
  | drain => cases hub.drain.1 <;> exact turns_of_none rfl rfl rfl
  | @disable other => cases (Hub.disable other hub).1 <;> exact turns_of_none rfl rfl rfl
  | @retire _ rest => cases rest <;> exact turns_of_none rfl rfl rfl
  | _ => exact turns_of_none rfl rfl rfl

-- No step of any call brings a dead chip back.
theorem Dead.steps (h : Dead hub (g :: others) id) (hs : Stage.Steps g change hub g') :
    Dead (change hub) (g' :: others) id := by
  have hmarks := marks_of_steps hs h.has
  have hnew : id ≠ hub.nextId := by
    rintro rfl
    exact hub.not_has_nextId h.has
  have hturns : Turns hub id g g' := turns_of_steps hs
  have hunstopped := h.unstopped g List.mem_cons_self
  constructor
  case has => exact Nat.lt_of_lt_of_le h.has (length_le_of_steps hs)
  case initialized =>
    rw [← Bool.not_eq_true]
    intro hi
    rcases hmarks.initialized hi with hi | ⟨handle, rfl⟩
    · rw [h.initialized] at hi
      cases hi
    · exact hunstopped rfl
  case unstopped =>
    intro stage hstage hid
    rcases List.mem_cons.mp hstage with rfl | hstage
    · obtain ⟨rfl, hr⟩ := hturns.stops hid
      rcases h.apart with ⟨hr', -⟩ | ⟨-, hseeks⟩
      · rw [hr'] at hr
        cases hr
      · exact hseeks _ List.mem_cons_self rfl
    · exact h.unstopped stage (List.mem_cons_of_mem _ hstage) hid
  case apart =>
    rcases h.apart with ⟨hr, hexposes⟩ | ⟨hf, hseeks⟩
    · refine .inl ⟨?_, fun stage hstage hid => ?_⟩
      · rw [← Bool.not_eq_true]
        intro hr'
        rcases hmarks.registered hr' with hr' | ⟨handle, rfl⟩
        · rw [hr] at hr'
          cases hr'
        · exact hexposes _ List.mem_cons_self rfl
      · rcases List.mem_cons.mp hstage with rfl | hstage
        · exact (hturns.exposes hid).elim (hexposes g List.mem_cons_self) hnew
        · exact hexposes stage (List.mem_cons_of_mem _ hstage) hid
    · refine .inr ⟨fun uid hf' => ?_, fun stage hstage hid => ?_⟩
      · exact (find?_of_steps hs hf').elim (hf uid) fun ⟨_, _, heq⟩ => hnew heq
      · rcases List.mem_cons.mp hstage with rfl | hstage
        · exact (hturns.seeks hid).elim (hseeks g List.mem_cons_self) fun ⟨uid, hf'⟩ => hf uid hf'
        · exact hseeks stage (List.mem_cons_of_mem _ hstage) hid

theorem Dead.asks {demand : Demand} {answer : demand.Answer} (h : Dead hub (g :: others) id)
    (ha : Stage.Asks g demand answer g') : Dead hub (g' :: others) id := by
  have hstops : g'.stops = some id → g.stops = some id := by
    cases ha with
    | expose => unfold Stage.ofExposure; split <;> nofun
    | send | isHeld | withdrawn => exact fun hid => hid
    | concealed => nofun
  have hexposes : g'.exposes = some id → g.exposes = some id := by
    cases ha with
    | @expose r other descriptor answer =>
      cases answer with
      | ok handle => exact fun hid => hid
      | error fault => nofun
    | send | isHeld => exact fun hid => hid
    | withdrawn | concealed => nofun
  have hseeks : g'.seeks ≠ some id := by
    cases ha with
    | expose => unfold Stage.ofExposure; split <;> nofun
    | send | isHeld | withdrawn | concealed => nofun
  constructor
  case has => exact h.has
  case initialized => exact h.initialized
  case unstopped =>
    intro stage hstage hid
    rcases List.mem_cons.mp hstage with rfl | hstage
    · exact h.unstopped g List.mem_cons_self (hstops hid)
    · exact h.unstopped stage (List.mem_cons_of_mem _ hstage) hid
  case apart =>
    refine h.apart.imp (fun ⟨hr, hall⟩ => ⟨hr, fun stage hstage hid => ?_⟩)
      fun ⟨hf, hall⟩ => ⟨hf, fun stage hstage hid => ?_⟩
    · rcases List.mem_cons.mp hstage with rfl | hstage
      · exact hall g List.mem_cons_self (hexposes hid)
      · exact hall stage (List.mem_cons_of_mem _ hstage) hid
    · rcases List.mem_cons.mp hstage with rfl | hstage
      · exact hseeks hid
      · exact hall stage (List.mem_cons_of_mem _ hstage) hid

-- Only the chip that is changed can be lost by a change.
theorem eq_of_ends {f : Chip → Chip} {other : ChipId} (h : Ends id hub (hub.modifyChip other f)) :
    id = other ∧ hub.Has id := by
  by_contra hnot
  have hsame : (hub.modifyChip other f).chip id = hub.chip id := by
    by_cases heq : id = other
    · have hnone : ¬hub.Has id := fun hhas => hnot ⟨heq, hhas⟩
      rw [chip_of_not_has hnone, chip_of_not_has fun hhas => hnone (has_modifyChip.mp hhas)]
    · exact chip_modifyChip_of_ne heq f hub
  rcases h with ⟨hr, hr'⟩ | ⟨hr, hr'⟩
  · rw [hsame, hr] at hr'
    cases hr'
  · rw [hsame, hr] at hr'
    cases hr'

theorem not_ends_of_same {hub' : Hub} (hregistered : (hub.chip id).registered = true →
      (hub'.chip id).registered = true)
    (hretired : (hub'.chip id).retired = (hub.chip id).retired) : ¬Ends id hub hub' := by
  rintro (⟨hr, hr'⟩ | ⟨hr, hr'⟩)
  · rw [hregistered hr] at hr'
    cases hr'
  · rw [hretired, hr] at hr'
    cases hr'

theorem Ordered.exposes_ne_of_registered (h : Ordered hub (g :: others))
    (hr : (hub.chip id).registered = true) : ∀ other ∈ others, other.exposes ≠ some id :=
  fun other ho he => h.creates_ne_of_registered hr other (List.mem_cons_of_mem _ ho)
    (Stage.creates_of_exposes he)

-- A withdrawal has to do only with a chip that counts as exposed.
theorem Ordered.stops_ne_of_unregistered (h : Ordered hub (g :: others))
    (hr : (hub.chip id).registered = false) : ∀ other ∈ others, other.stops ≠ some id := by
  intro other ho hstops
  obtain ⟨hheld, hwithdraws⟩ := Stage.holds_of_stops hstops
  have hr' := (h.suspended other (List.mem_cons_of_mem _ ho) id hheld).2.2 hwithdraws
  rw [hr] at hr'
  cases hr'

-- A stale chip that makes room for a new one.
theorem dead_evict {hub' : Hub} {uid : UInt64} (h : Ordered hub (g :: others))
    (hf : hub.find? uid = some id) (hi : (hub.chip id).initialized = false)
    (hr : (hub.chip id).registered = false) (hhas : hub'.Has id)
    (hi' : (hub'.chip id).initialized = (hub.chip id).initialized)
    (hr' : (hub'.chip id).registered = (hub.chip id).registered)
    (hstops : g'.stops ≠ some id) (hexposes : g'.exposes ≠ some id) :
    Dead hub' (g' :: others) id where
  has := hhas
  initialized := hi'.trans hi
  unstopped := List.forall_mem_cons.mpr ⟨hstops, h.stops_ne_of_unregistered hr⟩
  apart := by
    refine .inl ⟨hr'.trans hr, List.forall_mem_cons.mpr ⟨hexposes, fun other ho he => ?_⟩⟩
    have hready := (h.made other (List.mem_cons_of_mem _ ho) id (Stage.creates_of_exposes he)).ready
    rw [hready uid hf] at hi
    cases hi

-- No chip is lost by making another one.
theorem ends_of_enlisted {hub' : Hub} {r : Registration} (hhas : hub'.Has id ↔ hub.Has id)
    (h : Ends id hub (hub'.enlisted r)) : Ends id hub hub' := by
  by_cases hold : hub'.Has id
  · rwa [Ends, chip_enlisted_of_has hold] at h
  · rw [Ends, chip_of_not_has (mt hhas.mpr hold), chip_enlisted, chip_of_not_has hold] at h
    split at h <;> rcases h with ⟨hr, -⟩ | ⟨-, hr⟩ <;> cases hr

theorem dead_enlist {r : Registration} (h : Ordered hub (.registering r :: others))
    (hends : Ends id hub (enlist r hub).2) :
    Dead (enlist r hub).2 (.ofEnlistment r (enlist r hub).1 :: others) id := by
  have hsame : ¬Ends id hub hub := not_ends_of_same (fun hr => hr) rfl
  have he := enlists_enlist r hub
  generalize (enlist r hub).1 = enlistment at he ⊢
  generalize (enlist r hub).2 = hub' at he hends ⊢
  cases he with
  | refused | full => exact absurd hends hsame
  | fresh => exact absurd (ends_of_enlisted Iff.rfl hends) hsame
  | @fullAfterEviction stale limit hf hi hr =>
    obtain ⟨rfl, hhas⟩ := eq_of_ends hends
    have hkeeps := keeps_evict r.uid id hub
    exact dead_evict h hf hi hr (has_evict.mpr hhas) (hkeeps.initialized id) (hkeeps.registered id)
      nofun nofun
  | @replaced stale hf hi hr =>
    obtain ⟨rfl, hhas⟩ := eq_of_ends (ends_of_enlisted has_evict hends)
    have hkeeps := keeps_evict r.uid id hub
    have hold : (hub.evict r.uid id).Has id := has_evict.mpr hhas
    have hchip := chip_enlisted_of_has hold r
    refine dead_evict h hf hi hr (has_enlisted.mpr (.inl hold))
      ((congrArg Chip.initialized hchip).trans (hkeeps.initialized id))
      ((congrArg Chip.registered hchip).trans (hkeeps.registered id)) nofun fun heq => ?_
    cases heq
    exact hub.not_has_nextId hhas

theorem dead_abandon {other : ChipId} (h : Ordered hub (.abandoning other :: others))
    (hends : Ends id hub (abandon other hub)) : Dead (abandon other hub) (.failed :: others) id := by
  obtain ⟨rfl, hhas⟩ := eq_of_ends hends
  have hmade := h.made _ List.mem_cons_self id rfl
  have hchip := chip_modifyChip_self hhas fun chip =>
    { chip with initialized := false, retired := true }
  refine ⟨has_modifyChip.mpr hhas, congrArg Chip.initialized hchip,
    List.forall_mem_cons.mpr ⟨nofun, h.stops_ne_of_unregistered hmade.unregistered⟩,
    .inl ⟨(congrArg Chip.registered hchip).trans hmade.unregistered,
      List.forall_mem_cons.mpr ⟨nofun, fun stage ho he => ?_⟩⟩⟩
  exact h.creates_ne rfl stage ho (Stage.creates_of_exposes he)

theorem dead_suspend {other : ChipId} (h : Ordered hub (.suspending other :: others))
    (hlock : ∀ stage ∈ others, stage.holds ≠ some other)
    (hends : Ends id hub (suspend other hub).2) :
    Dead (suspend other hub).2 (.ofSuspension other (suspend other hub).1 :: others) id := by
  have hs := suspends_suspend other hub
  generalize (suspend other hub).1 = suspension at hs ⊢
  generalize (suspend other hub).2 = hub' at hs hends ⊢
  cases hs with
  | settled => exact absurd hends (not_ends_of_same (fun hr => hr) rfl)
  | exposed =>
    refine absurd hends (not_ends_of_same (fun hr => ?_) ?_)
    · exact modifyChip_of (P := fun chip => chip.registered = true) (by intro chip hr; exact hr) hr
    · exact field_modifyChip_of_eq (by intro chip; rfl) other id hub
  | unexposed hr =>
    obtain ⟨rfl, hhas⟩ := eq_of_ends hends
    have hchip := chip_modifyChip_self hhas fun chip =>
      { chip with initialized := false, registered := false }
    exact ⟨has_modifyChip.mpr hhas, congrArg Chip.initialized hchip,
      List.forall_mem_cons.mpr ⟨nofun, fun stage ho hstops =>
        hlock stage ho (Stage.holds_of_stops hstops).1⟩,
      .inl ⟨congrArg Chip.registered hchip,
        List.forall_mem_cons.mpr ⟨nofun, h.exposes_ne_of_registered hr⟩⟩⟩

theorem dead_release {other : ChipId} (h : Ordered hub (.releasing other :: others))
    (hends : Ends id hub (release other hub)) : Dead (release other hub) (.plain :: others) id := by
  obtain ⟨rfl, hhas⟩ := eq_of_ends hends
  obtain ⟨-, hi, hr⟩ := h.suspended _ List.mem_cons_self id rfl
  have hchip := chip_modifyChip_self hhas fun chip => { chip with handle := none, registered := false }
  exact ⟨has_modifyChip.mpr hhas, (congrArg Chip.initialized hchip).trans hi,
    List.forall_mem_cons.mpr ⟨nofun, fun stage ho hstops =>
      h.holds_ne rfl stage ho (Stage.holds_of_stops hstops).1⟩,
    .inl ⟨congrArg Chip.registered hchip,
      List.forall_mem_cons.mpr ⟨nofun, h.exposes_ne_of_registered (hr rfl)⟩⟩⟩

-- A chip that is torn down may come to be recorded as exposed later, but nobody finds it any more.
theorem dead_retire {other : ChipId} {rest : List ChipId}
    (h : Ordered hub (.finishing other rest :: others)) (hseeks : ∀ stage ∈ others, stage.seeks = none)
    (hends : Ends id hub (retire other hub)) :
    Dead (retire other hub) (.ofList rest :: others) id := by
  obtain ⟨rfl, hhas⟩ := eq_of_ends hends
  obtain ⟨-, hi, -⟩ := h.suspended _ List.mem_cons_self id rfl
  obtain ⟨-, hnone⟩ := h.doomed _ List.mem_cons_self id List.mem_cons_self
  have hchip := chip_modifyChip_self hhas fun chip =>
    { chip with handle := none, registered := false, retired := true }
  have hrest : (Stage.ofList rest).stops ≠ some id ∧ (Stage.ofList rest).seeks ≠ some id := by
    cases rest <;> exact ⟨nofun, nofun⟩
  exact ⟨has_modifyChip.mpr hhas, (congrArg Chip.initialized hchip).trans hi,
    List.forall_mem_cons.mpr ⟨hrest.1, fun stage ho hstops =>
      h.holds_ne rfl stage ho (Stage.holds_of_stops hstops).1⟩,
    .inr ⟨hnone, List.forall_mem_cons.mpr ⟨hrest.2, fun stage ho => by simp [hseeks stage ho]⟩⟩⟩

-- Where a chip is lost it is dead, if no withdrawal is just about to lock a chip it has found and
-- that is mapped no more while another call goes on.
theorem dead_of_ends (hs : Stage.Steps g change hub g') (h : Ordered hub (g :: others))
    (free : ∀ other ∈ others, ¬g.WaitsFor other)
    (hseeks : (∀ uid, hub.find? uid ≠ some id) → g.works = true →
      ∀ other ∈ others, other.seeks = none)
    (hends : Ends id hub (change hub)) : Dead (change hub) (g' :: others) id := by
  have hkeeps : ∀ {hub'}, hub'.outline = hub.outline → ¬Ends id hub hub' := fun houtline =>
    not_ends_of_same (fun hr => (registered_of_outline houtline id).trans hr)
      (retired_of_outline houtline id)
  have hmarks : ∀ {f : Chip → Chip} {other}, (∀ chip : Chip, chip.registered = true →
      (f chip).registered = true) → (∀ chip, (f chip).retired = chip.retired) →
      ¬Ends id hub (hub.modifyChip other f) := fun hr hretired =>
    not_ends_of_same (fun h => modifyChip_of (P := fun chip => chip.registered = true) hr h)
      (field_modifyChip_of_eq hretired _ id hub)
  by_cases hidle : g.idle = true
  · exact absurd hends (hkeeps (Stage.outline_of_steps hs hidle).1)
  cases hs with
  | enlist => exact dead_enlist h hends
  | abandon => exact dead_abandon h hends
  | suspend => exact dead_suspend h (fun other ho hheld => free other ho ⟨_, rfl, hheld⟩) hends
  | release => exact dead_release h hends
  | @retire other =>
    obtain ⟨rfl, -⟩ := eq_of_ends hends
    obtain ⟨-, hnone⟩ := h.doomed _ List.mem_cons_self id List.mem_cons_self
    exact dead_retire h (hseeks hnone rfl) hends
  | confirm => exact absurd hends (hmarks (by intro chip _; rfl) (by intro chip; rfl))
  | resume => exact absurd hends (hmarks (by intro chip hr; exact hr) (by intro chip; rfl))
  | disable => exact absurd hends (hmarks (by intro chip hr; exact hr) (by intro chip; rfl))
  | @unmap uid other =>
    refine absurd hends ?_
    have hchip : (unmap uid other hub).chip id = hub.chip id := by
      unfold unmap
      split <;> rfl
    exact not_ends_of_same (by rw [hchip]; exact fun hr => hr) (by rw [hchip])
  | read | find | check | drain => exact absurd hends (not_ends_of_same (fun hr => hr) rfl)
  | _ => exact absurd rfl hidle

end Steps

section Run

variable {τ : Type} {answers : (demand : Demand) → τ → demand.Answer → τ → Prop}
  {hub hub' : Hub} {t t' : τ} {id : ChipId} {calls calls' : List (Operation × Stage)}

theorem Dead.advance (h : Dead hub (calls.map (·.2)) id)
    (hstep : plan.Advances answers Operation.stage Stage.WaitsFor calls hub t calls' hub' t') :
    Dead hub' (calls'.map (·.2)) id := by
  cases hstep with
  | call operation =>
    rw [List.map_append]
    refine (h.add ?_ (operation.blank_stage.toQuiet.exposes_ne id) ?_).perm
      (List.perm_append_singleton ..).symm
    · exact (operation.not_stops_stage id).1
    · exact (operation.not_stops_stage id).2
  | note => exact h
  | @move before after i g g' _ _ _ _ hgoes _ =>
    have hfront := h.perm (Plan.perm_middle before after i g)
    refine Dead.perm ?_ (Plan.perm_middle before after i g').symm
    cases hgoes with
    | step hs => exact hfront.steps hs
    | ask ha _ => exact hfront.asks ha

theorem retired_of_advances {waits : Stage → Stage → Prop}
    (hstep : plan.Advances answers Operation.stage waits calls hub t calls' hub' t')
    (h : (hub.chip id).retired = true) : (hub'.chip id).retired = true := by
  cases hstep with
  | call | note => exact h
  | move hgoes _ =>
    cases hgoes with
    | step hs => exact retired_of_steps hs h
    | ask => exact h

-- A call that loses a chip leaves it dead, if the chip is mapped or the calls come nested.
theorem Ordered.dead (h : Ordered hub (calls.map (·.2)))
    (hnested : (∀ uid, hub.find? uid ≠ some id) →
      calls.Pairwise fun stage other => ¬(stage.2.works = true ∧ other.2.works = true))
    (hstep : plan.Advances answers Operation.stage Stage.WaitsFor calls hub t calls' hub' t')
    (hends : Ends id hub hub') : Dead hub' (calls'.map (·.2)) id := by
  have hsame : ¬Ends id hub hub := not_ends_of_same (fun hr => hr) rfl
  cases hstep with
  | call | note => exact absurd hends hsame
  | @move before after i g g' _ _ _ _ hgoes free =>
    cases hgoes with
    | ask => exact absurd hends hsame
    | step hs =>
      have hfront := h.perm (Plan.perm_middle before after i g)
      refine (dead_of_ends hs hfront ?_ ?_ hends).perm (Plan.perm_middle before after i g').symm
      · intro other ho
        obtain ⟨stage, hstage, rfl⟩ := List.mem_map.mp ho
        exact free stage hstage
      · intro hnone hworks other ho
        obtain ⟨stage, hstage, rfl⟩ := List.mem_map.mp ho
        have halone := (List.perm_middle.pairwise_iff fun {a b} hnot hboth =>
          hnot hboth.symm).mp (hnested hnone)
        have hnot := (List.pairwise_cons.mp halone).1 stage hstage
        rw [Option.eq_none_iff_forall_ne_some]
        exact fun found hfound => hnot ⟨hworks, Stage.works_of_seeks hfound⟩

theorem Tidy.dead (h : Tidy hub calls)
    (hstep : plan.Advances answers Operation.stage Stage.WaitsFor calls hub t calls' hub' t')
    (hends : Ends id hub hub') : Dead hub' (calls'.map (·.2)) id :=
  h.ordered.dead (fun _ => h.alone) hstep hends

end Run

-- Every operation on a line of the chip ends at once, and nothing comes of it.
structure Refuses (hub : Hub) (id : ChipId) : Prop where
  getValue : ∀ {τ : Type} (around : Process.Surroundings Hub τ Demand Demand.Answer) (t : τ) pin,
    (Hub.getValue id pin).run around hub t = (.error .notReady, hub, t)
  setValue : ∀ {τ : Type} (around : Process.Surroundings Hub τ Demand Demand.Answer) (t : τ) pin
    level, (Hub.setValue id pin level).run around hub t = (.error .notReady, hub, t)
  setConfig : ∀ {τ : Type} (around : Process.Surroundings Hub τ Demand Demand.Answer) (t : τ) pin
    setting, (Hub.setConfig id pin setting).run around hub t = (.error .notReady, hub, t)
  setDirection : ∀ {τ : Type} (around : Process.Surroundings Hub τ Demand Demand.Answer) (t : τ) pin
    mode, (Hub.setDirection id pin mode).run around hub t = (.error .notReady, hub, t)
  free : ∀ {τ : Type} (around : Process.Surroundings Hub τ Demand Demand.Answer) (t : τ) pin,
    (Hub.free id pin).run around hub t = (.error .notReady, hub, t)

-- An operation on a line looks first whether its chip is ready.
theorem run_ready {hub : Hub} {id : ChipId} (h : (hub.chip id).initialized = false) {τ α : Type}
    (around : Process.Surroundings Hub τ Demand Demand.Answer) (t : τ) (pin : UInt32)
    (go : HubProcess (Except Fault α)) :
    (Process.step (fun hub => hub) fun hub => match hub.ready id pin with
      | .error fault => .done (.error fault)
      | .ok () => go : HubProcess (Except Fault α)).run around hub t = (.error .notReady, hub, t) := by
  simp [Process.run, ready, h]

theorem refuses_of_not_initialized {hub : Hub} {id : ChipId}
    (h : (hub.chip id).initialized = false) : hub.Refuses id where
  getValue around t pin := run_ready h around t pin _
  setValue around t pin _ := run_ready h around t pin _
  setConfig around t pin _ := run_ready h around t pin _
  setDirection around t pin _ := run_ready h around t pin _
  free around t pin := run_ready h around t pin _

-- A reply is posted to a chip only if its uid names that chip and the chip is not retired.
theorem recipient_of_deliver {hub : Hub} {m : Message} {id : ChipId}
    (h : (deliver m hub).2.chip id ≠ hub.chip id) :
    ∃ reply, m.reading = .reply reply ∧ hub.find? reply.uid = some id ∧
      (hub.chip id).retired = false := by
  cases hm : hub.recipient m with
  | error reason => exact absurd (by simp [deliver, hm, countDropped, chip]) h
  | ok recipient =>
    obtain ⟨other, reply⟩ := recipient
    obtain ⟨hreading, hf, hretired, -⟩ := of_recipient hm
    by_cases heq : id = other
    · exact ⟨reply, hreading, heq ▸ hf, heq ▸ hretired⟩
    · refine absurd ?_ h
      have hpost := chip_modifyChip_of_ne heq
        (fun chip => chip.post reply.pin reply.status reply.level) hub
      rw [deliver, hm]
      exact hpost

-- From where a chip stops counting as exposed or is retired, it is never ready again, whatever
-- operations come, one at a time or inside each other: operations on its lines are refused, a reply
-- is posted to it at most as long as its uid names it, and never once it is retired.
theorem dead_of_run {limit : Option Nat} {patience : UInt64} {τ : Type} {around : τ}
    {answers : (demand : Demand) → τ → demand.Answer → τ → Prop}
    {pool next last : Pool Hub τ Demand Demand.Answer Operation Outcome} {id : ChipId}
    (hbefore : Relation.ReflTransGen (Nested (rules answers WaitsFor))
      ⟨{ limit, patience }, around, []⟩ pool)
    (hstep : Nested (rules answers WaitsFor) pool next) (hends : Ends id pool.state next.state)
    (hafter : Relation.ReflTransGen (Nested (rules answers WaitsFor)) next last) :
    (last.state.chip id).initialized = false ∧ last.state.Refuses id ∧
    ((next.state.chip id).retired = true → (last.state.chip id).retired = true ∧
      ∀ m, (deliver m last.state).2.chip id = last.state.chip id) ∧
    ∀ m other, (deliver m last.state).2.chip other ≠ last.state.chip other →
      ∃ reply, m.reading = .reply reply ∧ last.state.find? reply.uid = some other ∧
        (last.state.chip other).retired = false := by
  have hdead : ∃ stages, plan.Stands Ended last.calls stages ∧
      Dead last.state (stages.map (·.2)) id ∧
        ((next.state.chip id).retired = true → (last.state.chip id).retired = true) := by
    induction hafter with
    | refl =>
      obtain ⟨stages, hstands, htidy⟩ := tidy_of_run hbefore
      obtain ⟨stages', hstands', hadvances⟩ :=
        Plan.advances_of_step follows_process waitsFor_of_follows hstep.step hstands
      exact ⟨stages', hstands', htidy.dead hadvances hends, fun hr => hr⟩
    | tail _ hlater ih =>
      obtain ⟨stages, hstands, hdead, hretired⟩ := ih
      obtain ⟨stages', hstands', hadvances⟩ :=
        Plan.advances_of_step follows_process waitsFor_of_follows hlater.step hstands
      exact ⟨stages', hstands', hdead.advance hadvances,
        fun hr => retired_of_advances hadvances (hretired hr)⟩
  obtain ⟨stages, -, hdead, hretired⟩ := hdead
  refine ⟨hdead.initialized, refuses_of_not_initialized hdead.initialized, fun hr => ?_,
    fun m other hpost => recipient_of_deliver hpost⟩
  refine ⟨hretired hr, fun m => ?_⟩
  by_contra hpost
  obtain ⟨-, -, -, hgone⟩ := recipient_of_deliver hpost
  rw [hretired hr] at hgone
  cases hgone

-- At most one of the calls that change the chips goes on by itself.
def alone (pool : Pool Hub Unit Demand Demand.Answer Operation Outcome) : Bool :=
  pool.calls.Pairwise fun call other => ¬(AtWork call ∧ AtWork other)

-- A chip is made and exposed, and it is about to be released by a withdrawal.
def almostGone : List (Pool.Turn Operation) :=
  List.flatten [
    .call (.register ⟨5, "relay", 1, ["coil"]⟩) :: List.replicate 9 (.move 0),
    .call (.withdraw 5) :: List.replicate 5 (.move 1)]

-- While another chip is being exposed, the uid of the chip that is gone is registered again.
def takenOver : List (Pool.Turn Operation) :=
  List.flatten [
    [.move 1, .call (.register ⟨7, "", 1, ["lamp"]⟩), .move 2, .move 2],
    [.call (.register ⟨5, "relay", 1, ["coil"]⟩), .move 3]]

theorem dead_of_run_takenOver :
    ∃ pool next last : Pool Hub Unit Demand Demand.Answer Operation Outcome,
      Relation.ReflTransGen (Nested (rules (fun _ _ _ _ => True) WaitsFor)) ⟨{}, (), []⟩ pool ∧
      Nested (rules (fun _ _ _ _ => True) WaitsFor) pool next ∧ Ends ⟨0⟩ pool.state next.state ∧
      Relation.ReflTransGen (Nested (rules (fun _ _ _ _ => True) WaitsFor)) next last ∧
      (last.state.chip ⟨0⟩).retired = true ∧ last.state.find? 5 = some ⟨2⟩ ∧
      last.state.Refuses ⟨0⟩ := by
  have hplay : (Pool.play ⟨Operation.process, obliging, mayBlock⟩ (fun _ next => alone next)
      almostGone ⟨{}, (), []⟩).any fun before => before.getLast?.any fun pool =>
        (pool.turn? ⟨Operation.process, obliging, mayBlock⟩ (.move 1)).any fun next =>
          alone next ∧ Ends ⟨0⟩ pool.state next.state ∧
            (Pool.play ⟨Operation.process, obliging, mayBlock⟩ (fun _ next => alone next)
              takenOver next).any fun after => after.getLast?.any fun last =>
                (last.state.chip ⟨0⟩).retired = true ∧ last.state.find? 5 = some ⟨2⟩ := by
    decide +kernel
  obtain ⟨before, hturns, hends⟩ := (Option.any_eq_true ..).mp hplay
  obtain ⟨pool, hpool, hends⟩ := (Option.any_eq_true ..).mp hends
  obtain ⟨next, hturn, hends⟩ := (Option.any_eq_true ..).mp hends
  obtain ⟨halone, hlost, hends⟩ := of_decide_eq_true hends
  obtain ⟨after, hturns', hends⟩ := (Option.any_eq_true ..).mp hends
  obtain ⟨last, hlast, hends⟩ := (Option.any_eq_true ..).mp hends
  obtain ⟨hretired, hmapped⟩ := of_decide_eq_true hends
  have hnested : ∀ turn pool next, pool.turn? ⟨Operation.process, obliging, mayBlock⟩ turn = some next →
      alone next = true → Nested (rules (fun _ _ _ _ => True) WaitsFor) pool next :=
    fun turn pool next hturn halone => ⟨Pool.step_of_turn? rfl (fun _ _ => trivial)
      (fun _ _ => not_waitsFor_of_mayBlock) hturn, of_decide_eq_true halone⟩
  have hbefore := Pool.reaches_of_play hnested hturns hpool
  have hstep := hnested _ _ _ hturn halone
  have hafter := Pool.reaches_of_play hnested hturns' hlast
  obtain ⟨-, hrefuses, -⟩ := dead_of_run hbefore hstep hlost hafter
  exact ⟨pool, next, last, hbefore, hstep, hlost, hafter, hretired, hmapped, hrefuses⟩

end GpioBridge.Hub
