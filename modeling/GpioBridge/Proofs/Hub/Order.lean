import GpioBridge.Proofs.Hub.Conservation
import GpioBridge.Proofs.Hub.Lock
import GpioBridge.Proofs.Hub.Marks

namespace GpioBridge.Hub

-- A chip that does not count as exposed yet, and that is ready while it is mapped.
structure Unconfirmed (hub : Hub) (id : ChipId) : Prop where
  has : hub.Has id
  unregistered : (hub.chip id).registered = false
  ready : ∀ uid, hub.find? uid = some id → (hub.chip id).initialized = true

-- No two calls make the same chip, and no two have the same lock.
structure Stage.Distinct (a b : Stage) : Prop where
  creates : ∀ id, a.creates = some id → b.creates ≠ some id
  holds : ∀ id, a.holds = some id → b.holds ≠ some id

theorem Stage.Distinct.symm {a b : Stage} (h : Distinct a b) : Distinct b a where
  creates id hb ha := h.creates id ha hb
  holds id hb ha := h.holds id ha hb

structure Ordered (hub : Hub) (stages : List Stage) : Prop where
  apart : stages.Pairwise Stage.Distinct
  named : ∀ {uid id}, hub.find? uid = some id → hub.Has id
  doomed : ∀ g ∈ stages, ∀ id ∈ g.todo, hub.Has id ∧ ∀ uid, hub.find? uid ≠ some id
  made : ∀ g ∈ stages, ∀ id, g.creates = some id → hub.Unconfirmed id
  suspended : ∀ g ∈ stages, ∀ id, g.holds = some id → hub.Has id ∧
    (hub.chip id).initialized = false ∧ (g.withdraws = some id → (hub.chip id).registered = true)

theorem ordered_empty (limit : Option Nat) (patience : UInt64) :
    Ordered { limit, patience } [] where
  apart := .nil
  named h := by cases h
  doomed _ h := by cases h
  made _ h := by cases h
  suspended _ h := by cases h

theorem Ordered.perm {hub : Hub} {stages stages' : List Stage} (h : Ordered hub stages)
    (hp : stages.Perm stages') : Ordered hub stages' where
  apart := (hp.pairwise_iff Stage.Distinct.symm).mp h.apart
  named := h.named
  doomed g hg := h.doomed g (hp.mem_iff.mpr hg)
  made g hg := h.made g (hp.mem_iff.mpr hg)
  suspended g hg := h.suspended g (hp.mem_iff.mpr hg)

theorem Ordered.add {hub : Hub} {stages : List Stage} {g : Stage} (h : Ordered hub stages)
    (hg : g.Blank) : Ordered hub (g :: stages) where
  apart := List.pairwise_cons.mpr ⟨fun _ _ => ⟨by simp [hg.creates], by simp [hg.holds]⟩, h.apart⟩
  named := h.named
  doomed g' hg' id hid := by
    rcases List.mem_cons.mp hg' with rfl | hg'
    · rw [hg.todo] at hid
      cases hid
    · exact h.doomed g' hg' id hid
  made g' hg' id hid := by
    rcases List.mem_cons.mp hg' with rfl | hg'
    · rw [hg.creates] at hid
      cases hid
    · exact h.made g' hg' id hid
  suspended g' hg' id hid := by
    rcases List.mem_cons.mp hg' with rfl | hg'
    · rw [hg.holds] at hid
      cases hid
    · exact h.suspended g' hg' id hid

section Frame

variable {hub hub' : Hub} {g g' : Stage} {others stages : List Stage} {id : ChipId}

-- Chips keep the marks that say what may be done with them, and no uid names another chip.
structure Keeps (hub hub' : Hub) : Prop where
  has : ∀ id, hub'.Has id ↔ hub.Has id
  initialized : ∀ id, (hub'.chip id).initialized = (hub.chip id).initialized
  registered : ∀ id, (hub'.chip id).registered = (hub.chip id).registered
  mapped : ∀ {uid id}, hub'.find? uid = some id → hub.find? uid = some id

theorem keeps_of_outline (h : hub'.outline = hub.outline) : Keeps hub hub' where
  has := has_of_outline h
  initialized := initialized_of_outline h
  registered := registered_of_outline h
  mapped hf := by rwa [find?_of_outline h] at hf

theorem keeps_evict (uid : UInt64) (id : ChipId) (hub : Hub) : Keeps hub (hub.evict uid id) where
  has _ := has_modifyChip
  initialized other := field_modifyChip_of_eq (g := Chip.initialized) (by intro chip; rfl) id other
    { hub with registry := _ }
  registered other := field_modifyChip_of_eq (g := Chip.registered) (by intro chip; rfl) id other
    { hub with registry := _ }
  mapped := find?_of_evict

theorem keeps_unmap (uid : UInt64) (id : ChipId) (hub : Hub) : Keeps hub (unmap uid id hub) := by
  have hchip : ∀ id', (unmap uid id hub).chip id' = hub.chip id' := fun _ => by
    unfold unmap
    split <;> rfl
  constructor
  case has => exact fun _ => by rw [Has, Has, length_unmap]
  case initialized => exact fun _ => by rw [hchip]
  case registered => exact fun _ => by rw [hchip]
  case mapped => exact find?_of_unmap

theorem keeps_drain (hub : Hub) : Keeps hub hub.drain.2 :=
  ⟨fun _ => Iff.rfl, fun _ => rfl, fun _ => rfl, fun hf => by cases hf⟩

theorem Unconfirmed.keeps (h : hub.Unconfirmed id) (hk : Keeps hub hub') : hub'.Unconfirmed id where
  has := (hk.has id).mpr h.has
  unregistered := (hk.registered id).trans h.unregistered
  ready uid hf := (hk.initialized id).trans (h.ready uid (hk.mapped hf))

theorem Ordered.keeps (h : Ordered hub stages) (hk : Keeps hub hub') : Ordered hub' stages where
  apart := h.apart
  named hf := (hk.has _).mpr (h.named (hk.mapped hf))
  doomed g hg id hid := by
    obtain ⟨hhas, hnone⟩ := h.doomed g hg id hid
    exact ⟨(hk.has id).mpr hhas, fun uid hf => hnone uid (hk.mapped hf)⟩
  made g hg id hid := (h.made g hg id hid).keeps hk
  suspended g hg id hid := by
    rw [hk.has, hk.initialized, hk.registered]
    exact h.suspended g hg id hid

-- A call goes on to a stage with no more in its hands.
theorem Ordered.restage (h : Ordered hub (g :: others))
    (hcreates : ∀ id, g'.creates = some id → g.creates = some id)
    (hholds : ∀ id, g'.holds = some id → g.holds = some id ∧
      (g'.withdraws = some id → g.withdraws = some id))
    (htodo : ∀ id ∈ g'.todo, hub.Has id ∧ ∀ uid, hub.find? uid ≠ some id) :
    Ordered hub (g' :: others) := by
  obtain ⟨hapart, hrest⟩ := List.pairwise_cons.mp h.apart
  constructor
  case apart =>
    refine List.pairwise_cons.mpr ⟨fun other ho => ⟨fun id hid => ?_, fun id hid => ?_⟩, hrest⟩
    · exact (hapart other ho).creates id (hcreates id hid)
    · exact (hapart other ho).holds id (hholds id hid).1
  case named =>
    exact h.named
  case doomed =>
    intro stage hs id hid
    rcases List.mem_cons.mp hs with rfl | hs
    · exact htodo id hid
    · exact h.doomed stage (List.mem_cons_of_mem _ hs) id hid
  case made =>
    intro stage hs id hid
    rcases List.mem_cons.mp hs with rfl | hs
    · exact h.made g List.mem_cons_self id (hcreates id hid)
    · exact h.made stage (List.mem_cons_of_mem _ hs) id hid
  case suspended =>
    intro stage hs id hid
    rcases List.mem_cons.mp hs with rfl | hs
    · obtain ⟨hheld, hwithdraws⟩ := hholds id hid
      obtain ⟨hhas, hready, hregistered⟩ := h.suspended g List.mem_cons_self id hheld
      exact ⟨hhas, hready, fun hw => hregistered (hwithdraws hw)⟩
    · exact h.suspended stage (List.mem_cons_of_mem _ hs) id hid

-- A call that needs nothing any more.
theorem Ordered.settle (h : Ordered hub (g :: others)) (hg' : g'.Quiet)
    (htodo : ∀ id ∈ g'.todo, hub.Has id ∧ ∀ uid, hub.find? uid ≠ some id) :
    Ordered hub (g' :: others) :=
  h.restage (by simp [hg'.creates]) (by simp [hg'.holds]) htodo

-- A call changes a chip whose lock no other call has.
theorem Ordered.touch {f : Chip → Chip} (h : Ordered hub (g :: others))
    (hlock : ∀ other ∈ others, other.holds ≠ some id)
    (hmade : ∀ other ∈ others, other.creates = some id →
      (f (hub.chip id)).registered = false ∧ ∀ uid, hub.find? uid ≠ some id)
    (hcreates : g'.creates = none)
    (hholds : ∀ other, g'.holds = some other → other = id ∧ hub.Has id ∧
      (f (hub.chip id)).initialized = false ∧
        (g'.withdraws = some id → (f (hub.chip id)).registered = true))
    (htodo : ∀ other ∈ g'.todo, other ∈ g.todo) :
    Ordered (hub.modifyChip id f) (g' :: others) := by
  have hother : ∀ {other}, other ≠ id → (hub.modifyChip id f).chip other = hub.chip other :=
    fun hne => chip_modifyChip_of_ne hne f hub
  obtain ⟨-, hrest⟩ := List.pairwise_cons.mp h.apart
  constructor
  case apart =>
    refine List.pairwise_cons.mpr ⟨fun other ho => ⟨by simp [hcreates], fun held hheld => ?_⟩, hrest⟩
    obtain ⟨rfl, -⟩ := hholds held hheld
    exact hlock other ho
  case named =>
    intro uid other hf
    exact has_modifyChip.mpr (h.named hf)
  case doomed =>
    intro stage hs other ho
    rw [has_modifyChip]
    rcases List.mem_cons.mp hs with rfl | hs
    · exact h.doomed g List.mem_cons_self other (htodo other ho)
    · exact h.doomed stage (List.mem_cons_of_mem _ hs) other ho
  case made =>
    intro stage hs other hc
    rcases List.mem_cons.mp hs with rfl | hs
    · rw [hcreates] at hc
      cases hc
    have hold := h.made stage (List.mem_cons_of_mem _ hs) other hc
    by_cases heq : other = id
    · subst heq
      obtain ⟨hregistered, hnone⟩ := hmade stage hs hc
      refine ⟨has_modifyChip.mpr hold.has, ?_, fun uid hf => absurd hf (hnone uid)⟩
      rw [chip_modifyChip_self hold.has]
      exact hregistered
    · refine ⟨has_modifyChip.mpr hold.has, ?_, ?_⟩
      · rw [hother heq]
        exact hold.unregistered
      · rw [hother heq]
        exact hold.ready
  case suspended =>
    intro stage hs other ho
    rcases List.mem_cons.mp hs with rfl | hs
    · obtain ⟨rfl, hhas, hmarks⟩ := hholds other ho
      rw [has_modifyChip, chip_modifyChip_self hhas]
      exact ⟨hhas, hmarks⟩
    · rw [has_modifyChip, hother]
      · exact h.suspended stage (List.mem_cons_of_mem _ hs) other ho
      · rintro rfl
        exact hlock stage hs ho

theorem Ordered.holds_ne (h : Ordered hub (g :: others)) (hg : g.holds = some id) :
    ∀ other ∈ others, other.holds ≠ some id := by
  obtain ⟨hapart, -⟩ := List.pairwise_cons.mp h.apart
  exact fun other ho => (hapart other ho).holds id hg

theorem Ordered.creates_ne (h : Ordered hub (g :: others)) (hg : g.creates = some id) :
    ∀ other ∈ others, other.creates ≠ some id := by
  obtain ⟨hapart, -⟩ := List.pairwise_cons.mp h.apart
  exact fun other ho => (hapart other ho).creates id hg

-- Nobody is still to expose a chip that counts as exposed.
theorem Ordered.creates_ne_of_registered (h : Ordered hub stages)
    (hr : (hub.chip id).registered = true) : ∀ stage ∈ stages, stage.creates ≠ some id := by
  intro stage hs hc
  have hnew := (h.made stage hs id hc).unregistered
  rw [hr] at hnew
  cases hnew

-- A new chip is mapped, and it is to be exposed.
theorem ordered_enlisted {r : Registration} (h : Ordered hub (.registering r :: others)) :
    Ordered (hub.enlisted r) (.exposing r hub.nextId :: others) := by
  have hold : ∀ {id}, hub.Has id → (hub.enlisted r).chip id = hub.chip id :=
    fun hhas => chip_enlisted_of_has hhas r
  have hfound : ∀ {uid id}, hub.Has id → (hub.enlisted r).find? uid = some id →
      hub.find? uid = some id := fun hhas hf => find?_of_find?_enlisted hhas hf
  obtain ⟨-, hrest⟩ := List.pairwise_cons.mp h.apart
  constructor
  case apart =>
    refine List.pairwise_cons.mpr ⟨fun other ho => ⟨fun id hid hc => ?_, nofun⟩, hrest⟩
    cases hid
    exact hub.not_has_nextId (h.made other (List.mem_cons_of_mem _ ho) _ hc).has
  case named =>
    intro uid id hf
    rw [find?_enlisted] at hf
    split at hf
    · exact has_enlisted.mpr (.inr (Option.some.inj hf).symm)
    · exact has_enlisted.mpr (.inl (h.named hf))
  case doomed =>
    intro stage hs id hid
    rcases List.mem_cons.mp hs with rfl | hs
    · cases hid
    obtain ⟨hhas, hnone⟩ := h.doomed stage (List.mem_cons_of_mem _ hs) id hid
    exact ⟨has_enlisted.mpr (.inl hhas), fun uid hf => hnone uid (hfound hhas hf)⟩
  case made =>
    intro stage hs id hid
    rcases List.mem_cons.mp hs with rfl | hs
    · cases hid
      refine ⟨has_enlisted.mpr (.inr rfl), ?_, fun _ _ => ?_⟩ <;> rw [chip_enlisted_nextId] <;> rfl
    have hmade := h.made stage (List.mem_cons_of_mem _ hs) id hid
    refine ⟨has_enlisted.mpr (.inl hmade.has), ?_, fun uid hf => ?_⟩
    · rw [hold hmade.has]
      exact hmade.unregistered
    · rw [hold hmade.has]
      exact hmade.ready uid (hfound hmade.has hf)
  case suspended =>
    intro stage hs id hid
    rcases List.mem_cons.mp hs with rfl | hs
    · cases hid
    obtain ⟨hhas, hmarks⟩ := h.suspended stage (List.mem_cons_of_mem _ hs) id hid
    rw [hold hhas]
    exact ⟨has_enlisted.mpr (.inl hhas), hmarks⟩

theorem ordered_enlist {r : Registration} (h : Ordered hub (.registering r :: others)) :
    Ordered (enlist r hub).2 (.ofEnlistment r (enlist r hub).1 :: others) := by
  have he := enlists_enlist r hub
  generalize (enlist r hub).1 = enlistment at he ⊢
  generalize (enlist r hub).2 = hub' at he ⊢
  have hplain : Stage.plain.Quiet := (Stage.blank_of_idle rfl).toQuiet
  cases he with
  | refused => exact h.settle hplain nofun
  | full => exact h.settle hplain nofun
  | fresh => exact ordered_enlisted h
  | @fullAfterEviction id => exact (h.keeps (keeps_evict r.uid id hub)).settle hplain nofun
  | @replaced id =>
    have hnew := ordered_enlisted (h.keeps (keeps_evict r.uid id hub))
    rw [nextId_evict] at hnew
    exact hnew

theorem ordered_suspend (h : Ordered hub (.suspending id :: others))
    (hlock : ∀ other ∈ others, other.holds ≠ some id) :
    Ordered (suspend id hub).2 (.ofSuspension id (suspend id hub).1 :: others) := by
  have hs := suspends_suspend id hub
  generalize (suspend id hub).1 = suspension at hs ⊢
  generalize (suspend id hub).2 = hub' at hs ⊢
  cases hs with
  | settled => exact h.settle (Stage.blank_of_idle rfl).toQuiet nofun
  | unexposed hr =>
    have hmade := h.creates_ne_of_registered hr
    exact h.touch hlock (fun other ho hc => absurd hc (hmade other (List.mem_cons_of_mem _ ho))) rfl
      nofun nofun
  | @exposed handle hr =>
    have hmade := h.creates_ne_of_registered hr
    refine h.touch hlock (fun other ho hc => absurd hc (hmade other (List.mem_cons_of_mem _ ho))) rfl
      (fun other ho => ?_) nofun
    cases ho
    exact ⟨rfl, has_of_registered hr, rfl, fun _ => hr⟩

-- A call changes the hub. If it needs a lock for that, no other call has it.
theorem ordered_of_steps {change : Hub → Hub} (hs : Stage.Steps g change hub g')
    (h : Ordered hub (g :: others)) (free : ∀ other ∈ others, ¬g.WaitsFor other) :
    Ordered (change hub) (g' :: others) := by
  have hlock : ∀ {id}, g.takes = some id → ∀ other ∈ others, other.holds ≠ some id :=
    fun htakes other ho hheld => free other ho ⟨_, htakes, hheld⟩
  by_cases hg : g.idle = true
  · obtain ⟨houtline, hg'⟩ := Stage.outline_of_steps hs hg
    have hblank := Stage.blank_of_idle hg'
    exact (h.settle hblank.toQuiet (by simp [hblank.todo])).keeps (keeps_of_outline houtline)
  cases hs with
  | enlist => exact ordered_enlist h
  | read => exact h.restage (fun _ hid => hid) nofun nofun
  | confirm =>
    exact h.touch (hlock rfl) (fun other ho hc => absurd hc (h.creates_ne rfl other ho)) rfl nofun
      nofun
  | @unmap uid id => exact (h.keeps (keeps_unmap uid id hub)).restage (fun _ hid => hid) nofun nofun
  | abandon =>
    exact h.touch (hlock rfl) (fun other ho hc => absurd hc (h.creates_ne rfl other ho)) rfl nofun
      nofun
  | @find uid => cases hub.find? uid <;> exact h.settle ⟨rfl, rfl, rfl⟩ nofun
  | @check id => cases (hub.chip id).registered <;> exact h.restage nofun nofun nofun
  | suspend => exact ordered_suspend h (hlock rfl)
  | resume =>
    obtain ⟨-, -, hregistered⟩ := h.suspended _ List.mem_cons_self _ rfl
    have hmade := h.creates_ne_of_registered (hregistered rfl)
    exact h.touch (h.holds_ne rfl)
      (fun other ho hc => absurd hc (hmade other (List.mem_cons_of_mem _ ho))) rfl nofun nofun
  | release =>
    obtain ⟨-, -, hregistered⟩ := h.suspended _ List.mem_cons_self _ rfl
    have hmade := h.creates_ne_of_registered (hregistered rfl)
    exact h.touch (h.holds_ne rfl)
      (fun other ho hc => absurd hc (hmade other (List.mem_cons_of_mem _ ho))) rfl nofun nofun
  | drain =>
    refine (h.keeps (keeps_drain hub)).settle (Stage.quiet_ofList _) fun id hid => ?_
    rw [Stage.todo_ofList] at hid
    obtain ⟨⟨uid, _⟩, hentry, rfl⟩ := List.mem_map.mp hid
    exact ⟨h.named ((UidMap.get?_eq_some_iff ..).mpr hentry), nofun⟩
  | @disable id rest =>
    have hdoomed := h.doomed _ List.mem_cons_self
    have hmade : ∀ other ∈ others, other.creates = some id →
        (hub.chip id).registered = false ∧ ∀ uid, hub.find? uid ≠ some id := fun other ho hc =>
      ⟨(h.made other (List.mem_cons_of_mem _ ho) id hc).unregistered,
        (hdoomed id List.mem_cons_self).2⟩
    have hholds : ∀ other, some id = some other → other = id ∧ hub.Has id ∧ false = false ∧
        (none = some id → (hub.chip id).registered = true) := by
      rintro _ ⟨rfl⟩
      exact ⟨rfl, (hdoomed id List.mem_cons_self).1, rfl, nofun⟩
    unfold disable
    cases (hub.chip id).handle with
    | none => exact h.touch (hlock rfl) hmade rfl hholds fun _ ho => ho
    | some handle => exact h.touch (hlock rfl) hmade rfl hholds fun _ ho => ho
  | @retire id rest =>
    have hdoomed := h.doomed _ List.mem_cons_self
    have hquiet := Stage.quiet_ofList rest
    refine h.touch (h.holds_ne rfl) (fun _ _ _ => ⟨rfl, (hdoomed id List.mem_cons_self).2⟩)
      hquiet.creates (by simp [hquiet.holds]) fun other ho => ?_
    rw [Stage.todo_ofList] at ho
    exact List.mem_cons_of_mem _ ho
  | _ => exact absurd rfl hg

theorem ordered_of_asks {demand : Demand} {answer : demand.Answer}
    (ha : Stage.Asks g demand answer g') (h : Ordered hub (g :: others)) :
    Ordered hub (g' :: others) := by
  have hdoomed := h.doomed g List.mem_cons_self
  cases ha with
  | send => exact h
  | @expose r id descriptor answer =>
    cases answer <;> exact h.restage (fun _ hid => hid) nofun nofun
  | isHeld => exact h
  | withdrawn => exact h.restage nofun (fun _ hid => ⟨hid, fun hw => hw⟩) nofun
  | concealed => exact h.restage nofun (fun _ hid => ⟨hid, nofun⟩) hdoomed

end Frame

section Run

variable {τ : Type} {answers : (demand : Demand) → τ → demand.Answer → τ → Prop}

theorem Ordered.goes {hub hub' : Hub} {t t' : τ} {g g' : Stage} {others : List Stage}
    (h : Ordered hub (g :: others)) (hgoes : plan.Goes answers g hub t g' hub' t')
    (free : ∀ other ∈ others, ¬g.WaitsFor other) : Ordered hub' (g' :: others) := by
  cases hgoes with
  | step hs => exact ordered_of_steps hs h free
  | ask ha _ => exact ordered_of_asks ha h

theorem Ordered.advance {hub hub' : Hub} {t t' : τ} {calls calls' : List (Operation × Stage)}
    (h : Ordered hub (calls.map (·.2)))
    (hstep : plan.Advances answers Operation.stage Stage.WaitsFor calls hub t calls' hub' t') :
    Ordered hub' (calls'.map (·.2)) := by
  cases hstep with
  | call operation =>
    rw [List.map_append]
    exact (h.add operation.blank_stage).perm (List.perm_append_singleton ..).symm
  | note => exact h
  | @move before after i g g' _ _ _ _ hgoes free =>
    refine ((h.perm (Plan.perm_middle before after i g)).goes hgoes fun other ho => ?_).perm
      (Plan.perm_middle before after i g').symm
    obtain ⟨stage, hs, rfl⟩ := List.mem_map.mp ho
    exact free stage hs

end Run

end GpioBridge.Hub
