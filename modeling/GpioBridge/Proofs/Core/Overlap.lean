import GpioBridge.Proofs.Core.Lock
import GpioBridge.Proofs.Core.Outline
import Mathlib.Data.List.Nodup

namespace GpioBridge

namespace Hub

namespace Stage

-- Two calls under way are not about the same chip in the same way.
structure Apart (a b : Stage) : Prop where
  creates : ∀ id, a.creates = some id → b.creates ≠ some id
  holds : ∀ id, a.holds = some id → b.holds ≠ some id
  todo : ∀ id ∈ a.todo, id ∉ b.todo
  created : ∀ id, a.creates = some id → b.withdraws ≠ some id
  withdrawn : ∀ id, a.withdraws = some id → b.creates ≠ some id

theorem Apart.symm {a b : Stage} (h : Apart a b) : Apart b a where
  creates id hb ha := h.creates id ha hb
  holds id hb ha := h.holds id ha hb
  todo id hb ha := h.todo id ha hb
  created id hb ha := h.withdrawn id ha hb
  withdrawn id hb ha := h.created id ha hb

theorem Quiet.apart {a b : Stage} (h : a.Quiet) (htodo : ∀ id ∈ a.todo, id ∉ b.todo) : Apart a b where
  creates id ha := by simp [h.creates] at ha
  holds id ha := by simp [h.holds] at ha
  todo := htodo
  created id ha := by simp [h.creates] at ha
  withdrawn id ha := by simp [h.withdraws] at ha

theorem Blank.apart {a : Stage} (h : a.Blank) (b : Stage) : Apart a b :=
  h.toQuiet.apart (by simp [h.todo])

end Stage

-- A chip that nobody has been shown, and that is ready while it is mapped.
structure Unshown (hub : Hub) (id : ChipId) : Prop where
  has : hub.Has id
  handle : (hub.chip id).handle = none
  ready : ∀ uid, hub.find? uid = some id → (hub.chip id).initialized = true

end Hub

namespace Core

open Hub (Stage)

-- A chip is mapped, or a teardown will come to it.
def Tracked (core : Core) (stages : List Stage) (id : ChipId) : Prop :=
  core.hub.find? (core.hub.chip id).uid = some id ∨ ∃ g ∈ stages, id ∈ g.todo

-- What a call relies on at its stage, whatever the others do.
def Expects (core : Core) (stages : List Stage) : Stage → Prop
  | .exposing r id => core.hub.Unshown id ∧ (core.hub.chip id).uid = r.uid
  | .offering r id descriptor => core.hub.Unshown id ∧ (core.hub.chip id).uid = r.uid ∧
    descriptor.uid = r.uid
  | .confirming id _ => core.hub.Unshown id
  | .refused uid id => core.hub.Unshown id ∧ (core.hub.chip id).uid = uid
  | .abandoning id => core.hub.Unshown id ∧ ∀ uid, core.hub.find? uid ≠ some id
  | .suspending id => core.hub.Has id
  | .scanning id handle | .concealing id handle _ => (core.hub.chip id).handle = some handle
  | .releasing id => ((core.hub.chip id).handle).isSome = true ∧
    ∀ exposed ∈ core.table.chips, exposed.ops ≠ id
  | .finishing id _ => ∀ exposed ∈ core.table.chips, exposed.ops = id →
    .confirming id exposed.handle ∈ stages
  | _ => True

-- Some chips may be lost: they were retired, and then a registration was recorded for them.
structure Orderly (lost : ChipId → Prop) (core : Core) (stages : List Stage) : Prop where
  apart : stages.Pairwise Stage.Apart
  once : ∀ g ∈ stages, g.todo.Nodup
  named : ∀ {uid id}, core.hub.find? uid = some id → core.hub.Has id ∧
    (core.hub.chip id).uid = uid ∧ (core.hub.chip id).retired = false
  marked : ∀ id, (core.hub.chip id).registered = true ↔
    ((core.hub.chip id).handle).isSome = true
  gone : ∀ id, (core.hub.chip id).retired = true → (core.hub.chip id).handle = none ∨ lost id
  tracked : ∀ id, (core.hub.chip id).retired = false →
    ((core.hub.chip id).registered = true ∨ ∃ g ∈ stages, g.exposes = some id) →
      core.Tracked stages id
  shown : ∀ exposed ∈ core.table.chips, core.hub.Has exposed.ops ∧
    exposed.descriptor.uid = (core.hub.chip exposed.ops).uid ∧
      ((core.hub.chip exposed.ops).handle = some exposed.handle ∨
        .confirming exposed.ops exposed.handle ∈ stages)
  doomed : ∀ g ∈ stages, ∀ id ∈ g.todo, core.hub.Has id ∧ ∀ uid, core.hub.find? uid ≠ some id
  -- A chip is retired once.
  late : ∀ g ∈ stages, ∀ id, g.creates = some id → (core.hub.chip id).retired = true →
    ∀ g' ∈ stages, id ∉ g'.todo
  expects : ∀ g ∈ stages, core.Expects stages g

theorem orderly_empty (lost : ChipId → Prop) (limit : Option Nat) (patience : UInt64) :
    Orderly lost { hub := { limit, patience } } [] where
  apart := .nil
  once _ h := by cases h
  named h := by cases h
  marked _ := by simp [Hub.chip, default]
  gone _ _ := .inl rfl
  tracked _ _ h := by simp [Hub.chip, default] at h
  shown _ h := by cases h
  doomed _ h := by cases h
  late _ h := by cases h
  expects _ h := by cases h

theorem Expects.mono {core : Core} {stages stages' : List Stage} {g : Stage}
    (h : core.Expects stages g)
    (hmem : ∀ id handle, .confirming id handle ∈ stages → .confirming id handle ∈ stages') :
    core.Expects stages' g := by
  cases g with
  | finishing id rest => exact fun exposed he ho => hmem _ _ (h exposed he ho)
  | _ => exact h

-- What a call relies on lasts while its own chips are left alone: the one it makes, and the one
-- whose lock it has.
theorem Expects.frame {core core' : Core} {stages stages' : List Stage} {g : Stage}
    (h : core.Expects stages g)
    (hmade : ∀ id, g.creates = some id → core.hub.Unshown id → core'.hub.Unshown id ∧
      (core'.hub.chip id).uid = (core.hub.chip id).uid)
    (hunmapped : ∀ id, g.creates = some id → (∀ uid, core.hub.find? uid ≠ some id) →
      ∀ uid, core'.hub.find? uid ≠ some id)
    (hhas : ∀ id, core.hub.Has id → core'.hub.Has id)
    (hheld : ∀ id, g.holds = some id → (core'.hub.chip id).handle = (core.hub.chip id).handle)
    (htable : ∀ id, g.holds = some id → ∀ exposed ∈ core'.table.chips, exposed.ops = id →
      (∃ other ∈ core.table.chips, other.ops = id ∧ other.handle = exposed.handle) ∨
        (g.withdraws ≠ some id ∧ .confirming id exposed.handle ∈ stages'))
    (hmem : ∀ id handle, g.holds = some id → .confirming id handle ∈ stages →
      .confirming id handle ∈ stages') : core'.Expects stages' g := by
  cases g with
  | exposing r id | refused uid id =>
    obtain ⟨hnew, huid⟩ := hmade id rfl h.1
    exact ⟨hnew, huid.trans h.2⟩
  | offering r id descriptor =>
    obtain ⟨hnew, huid⟩ := hmade id rfl h.1
    exact ⟨hnew, huid.trans h.2.1, h.2.2⟩
  | confirming id handle => exact (hmade id rfl h).1
  | abandoning id => exact ⟨(hmade id rfl h.1).1, hunmapped id rfl h.2⟩
  | suspending id => exact hhas id h
  | scanning id handle | concealing id handle rest => exact (hheld id rfl).trans h
  | releasing id =>
    refine ⟨?_, fun exposed he ho => ?_⟩
    · rw [hheld id rfl]
      exact h.1
    · rcases htable id rfl exposed he ho with ⟨other, hother, hops, -⟩ | ⟨hne, -⟩
      · exact h.2 other hother hops
      · exact hne rfl
  | finishing id rest =>
    intro exposed he ho
    rcases htable id rfl exposed he ho with ⟨other, hother, hops, hh⟩ | ⟨-, hin⟩
    · rw [← hh]
      exact hmem id _ rfl (h other hother hops)
    · exact hin
  | _ => trivial

theorem expects_of_quiet {core : Core} {stages : List Stage} {g : Stage} (h : g.Quiet) :
    core.Expects stages g := by
  obtain ⟨hc, hl, hw⟩ := h
  cases g <;> trivial

-- A call in the middle of making a chip has it to itself.
theorem Expects.unshown {core : Core} {stages : List Stage} {g : Stage} {id : ChipId}
    (h : core.Expects stages g) (hg : g.creates = some id) : core.hub.Unshown id := by
  cases g <;> cases hg <;> first | exact h.1 | exact h

-- A call has the lock of a chip that is exposed, or of one it is to retire.
theorem Expects.handle_or_todo {core : Core} {stages : List Stage} {g : Stage} {id : ChipId}
    (h : core.Expects stages g) (hg : g.holds = some id) :
    ((core.hub.chip id).handle).isSome = true ∨ id ∈ g.todo := by
  cases g <;> cases hg
  · exact .inl (Option.isSome_iff_exists.mpr ⟨_, h⟩)
  · exact .inl h.1
  · exact .inr List.mem_cons_self
  · exact .inr List.mem_cons_self

-- A call that withdraws a chip withdraws one that was made.
theorem Expects.has {core : Core} {stages : List Stage} {g : Stage} {id : ChipId}
    (h : core.Expects stages g) (hg : g.withdraws = some id) : core.hub.Has id := by
  by_contra hnone
  have hchip := Hub.chip_of_not_has hnone
  cases g <;> cases hg
  · exact hnone h
  · simp [Expects, hchip, default] at h
  · have hsome := h.1
    simp [hchip, default] at hsome

theorem Tracked.mono {core : Core} {stages stages' : List Stage} {id : ChipId}
    (h : core.Tracked stages id) (hmem : ∀ g ∈ stages, id ∈ g.todo → ∃ g' ∈ stages', id ∈ g'.todo) :
    core.Tracked stages' id := h.imp_right fun ⟨g, hg, hid⟩ => hmem g hg hid

-- Where a call has nothing to retire, going on it drops nothing.
theorem Tracked.restage {core : Core} {g g' : Stage} {others : List Stage} {id : ChipId}
    (h : core.Tracked (g :: others) id) (hg : g.todo = []) : core.Tracked (g' :: others) id := by
  refine h.mono fun stage hs hid => ?_
  rcases List.mem_cons.mp hs with rfl | hs
  · rw [hg] at hid
    cases hid
  · exact ⟨stage, List.mem_cons_of_mem _ hs, hid⟩

-- What is mapped has not been retired.
theorem Orderly.find?_ne_of_retired {lost : ChipId → Prop} {core : Core} {stages : List Stage}
    (h : Orderly lost core stages) {id : ChipId} (hr : (core.hub.chip id).retired = true)
    (uid : UInt64) : core.hub.find? uid ≠ some id := by
  intro hf
  have hpresent := (h.named hf).2.2
  rw [hr] at hpresent
  cases hpresent

-- If a chip is exposed and has no handle, the handle is still to be recorded.
theorem Orderly.confirming_of_handle {lost : ChipId → Prop} {core : Core} {stages : List Stage}
    (h : Orderly lost core stages) {exposed : Exposed ChipId} (he : exposed ∈ core.table.chips)
    {id : ChipId} (ho : exposed.ops = id) (hnone : (core.hub.chip id).handle = none) :
    .confirming id exposed.handle ∈ stages := by
  rcases (h.shown exposed he).2.2 with hsh | hin
  · rw [ho, hnone] at hsh
    cases hsh
  · rwa [ho] at hin

-- The order of the calls does not matter.
theorem Orderly.perm {lost : ChipId → Prop} {core : Core} {stages stages' : List Stage}
    (h : Orderly lost core stages) (hp : stages.Perm stages') : Orderly lost core stages' where
  apart := (hp.pairwise_iff Stage.Apart.symm).mp h.apart
  once g hg := h.once g (hp.mem_iff.mpr hg)
  named := h.named
  marked := h.marked
  gone := h.gone
  tracked id hr he := by
    have ht := h.tracked id hr (he.imp_right fun ⟨g, hg, hid⟩ => ⟨g, hp.mem_iff.mpr hg, hid⟩)
    exact ht.mono fun g hg hid => ⟨g, hp.mem_iff.mp hg, hid⟩
  shown exposed he := by
    obtain ⟨hhas, huid, hsh⟩ := h.shown exposed he
    exact ⟨hhas, huid, hsh.imp_right hp.mem_iff.mp⟩
  doomed g hg := h.doomed g (hp.mem_iff.mpr hg)
  late g hg id hc hr g' hg' := h.late g (hp.mem_iff.mpr hg) id hc hr g' (hp.mem_iff.mpr hg')
  expects g hg := (h.expects g (hp.mem_iff.mpr hg)).mono fun _ _ => hp.mem_iff.mp

section Stages

variable {lost : ChipId → Prop} {core : Core} {g g' : Stage} {others : List Stage}

-- A call that has nothing to do with any chip yet makes no difference.
theorem orderly_cons_of_blank (hg : g.Blank) :
    Orderly lost core (g :: others) ↔ Orderly lost core others := by
  have hexposes := hg.exposes_ne
  have hconfirming : ∀ id handle, g ≠ .confirming id handle := by
    rintro id handle rfl
    exact hexposes id rfl
  have htodo : ∀ id, id ∉ g.todo := by simp [hg.todo]
  constructor
  · intro h
    constructor
    case apart =>
      exact (List.pairwise_cons.mp h.apart).2
    case once =>
      exact fun other ho => h.once other (List.mem_cons_of_mem _ ho)
    case named =>
      exact h.named
    case marked =>
      exact h.marked
    case gone =>
      exact h.gone
    case tracked =>
      intro id hr he
      have ht := h.tracked id hr (he.imp_right fun ⟨other, ho, hid⟩ =>
        ⟨other, List.mem_cons_of_mem _ ho, hid⟩)
      refine ht.mono fun other ho hid => ?_
      rcases List.mem_cons.mp ho with rfl | ho
      · exact absurd hid (htodo id)
      · exact ⟨other, ho, hid⟩
    case shown =>
      intro exposed he
      obtain ⟨hhas, huid, hsh⟩ := h.shown exposed he
      exact ⟨hhas, huid, hsh.imp_right fun hin =>
        (List.mem_cons.mp hin).resolve_left fun heq => hconfirming _ _ heq.symm⟩
    case doomed =>
      exact fun other ho => h.doomed other (List.mem_cons_of_mem _ ho)
    case late =>
      exact fun other ho id hc hr other' ho' =>
        h.late other (List.mem_cons_of_mem _ ho) id hc hr other' (List.mem_cons_of_mem _ ho')
    case expects =>
      exact fun other ho => (h.expects other (List.mem_cons_of_mem _ ho)).mono fun id handle hin =>
        (List.mem_cons.mp hin).resolve_left fun heq => hconfirming _ _ heq.symm
  · intro h
    constructor
    case apart =>
      exact List.pairwise_cons.mpr ⟨fun other _ => hg.apart other, h.apart⟩
    case once =>
      intro other ho
      rcases List.mem_cons.mp ho with rfl | ho
      · simp [hg.todo]
      · exact h.once other ho
    case named =>
      exact h.named
    case marked =>
      exact h.marked
    case gone =>
      exact h.gone
    case tracked =>
      intro id hr he
      have ht := h.tracked id hr <| he.imp_right fun ⟨other, ho, hid⟩ => by
        rcases List.mem_cons.mp ho with rfl | ho
        · exact absurd hid (hexposes id)
        · exact ⟨other, ho, hid⟩
      exact ht.mono fun other ho hid => ⟨other, List.mem_cons_of_mem _ ho, hid⟩
    case shown =>
      intro exposed he
      obtain ⟨hhas, huid, hsh⟩ := h.shown exposed he
      exact ⟨hhas, huid, hsh.imp_right (List.mem_cons_of_mem _)⟩
    case doomed =>
      intro other ho id hid
      rcases List.mem_cons.mp ho with rfl | ho
      · exact absurd hid (htodo id)
      · exact h.doomed other ho id hid
    case late =>
      intro other ho id hc hr other' ho' hid
      rcases List.mem_cons.mp ho with rfl | ho
      · rw [hg.creates] at hc
        cases hc
      rcases List.mem_cons.mp ho' with rfl | ho'
      · exact htodo id hid
      · exact h.late other ho id hc hr other' ho' hid
    case expects =>
      intro other ho
      rcases List.mem_cons.mp ho with rfl | ho
      · exact expects_of_quiet hg.toQuiet
      · exact (h.expects other ho).mono fun id handle => List.mem_cons_of_mem _

-- A call goes to another stage while the core stays as it is.
theorem Orderly.restage (h : Orderly lost core (g :: others))
    (hc : ∀ id, g'.creates = some id → g.creates = some id)
    (he : ∀ id, g'.exposes = some id → g.exposes = some id)
    (hl : ∀ id, g'.holds = some id → g.holds = some id ∨ ∀ other ∈ others, other.holds ≠ some id)
    (hw : ∀ id, g'.withdraws = some id → g.withdraws = some id ∨
      ∀ other ∈ others, other.creates ≠ some id)
    (ht : g'.todo = g.todo) (hconf : ∀ id handle, g ≠ .confirming id handle)
    (hself : core.Expects (g' :: others) g') : Orderly lost core (g' :: others) := by
  have hconfirming : ∀ id handle, .confirming id handle ∈ g :: others →
      .confirming id handle ∈ g' :: others := by
    intro id handle hin
    refine List.mem_cons_of_mem _ ((List.mem_cons.mp hin).resolve_left fun heq => ?_)
    exact hconf id handle heq.symm
  -- What a stage has still to retire is the same before and after.
  have htodo : ∀ {other id}, other ∈ g' :: others → id ∈ other.todo →
      ∃ other' ∈ g :: others, id ∈ other'.todo := by
    intro other id ho hid
    rcases List.mem_cons.mp ho with rfl | ho
    · exact ⟨g, List.mem_cons_self, ht ▸ hid⟩
    · exact ⟨other, List.mem_cons_of_mem _ ho, hid⟩
  obtain ⟨happart, hrest⟩ := List.pairwise_cons.mp h.apart
  constructor
  case apart =>
    refine List.pairwise_cons.mpr ⟨fun other ho => ?_, hrest⟩
    have ha := happart other ho
    exact
      { creates := fun id hid => ha.creates id (hc id hid)
        holds := fun id hid => (hl id hid).elim (ha.holds id) fun hne => hne other ho
        todo := fun id hid => ha.todo id (ht ▸ hid)
        created := fun id hid => ha.created id (hc id hid)
        withdrawn := fun id hid => (hw id hid).elim (ha.withdrawn id) fun hne => hne other ho }
  case once =>
    intro other ho
    rcases List.mem_cons.mp ho with rfl | ho
    · rw [ht]
      exact h.once g List.mem_cons_self
    · exact h.once other (List.mem_cons_of_mem _ ho)
  case named =>
    exact h.named
  case marked =>
    exact h.marked
  case gone =>
    exact h.gone
  case tracked =>
    intro id hr hid
    have htr := h.tracked id hr <| hid.imp_right fun ⟨other, ho, hx⟩ => by
      rcases List.mem_cons.mp ho with rfl | ho
      · exact ⟨g, List.mem_cons_self, he id hx⟩
      · exact ⟨other, List.mem_cons_of_mem _ ho, hx⟩
    refine htr.mono fun other ho hid => ?_
    rcases List.mem_cons.mp ho with rfl | ho
    · exact ⟨g', List.mem_cons_self, ht.symm ▸ hid⟩
    · exact ⟨other, List.mem_cons_of_mem _ ho, hid⟩
  case shown =>
    intro exposed hx
    obtain ⟨hhas, huid, hsh⟩ := h.shown exposed hx
    exact ⟨hhas, huid, hsh.imp_right (hconfirming _ _)⟩
  case doomed =>
    intro other ho id hid
    obtain ⟨other', ho', hid'⟩ := htodo ho hid
    exact h.doomed other' ho' id hid'
  case late =>
    intro other ho id hcr hr other' ho' hid
    obtain ⟨last, hlast, hid'⟩ := htodo ho' hid
    rcases List.mem_cons.mp ho with rfl | ho
    · exact h.late g List.mem_cons_self id (hc id hcr) hr last hlast hid'
    · exact h.late other (List.mem_cons_of_mem _ ho) id hcr hr last hlast hid'
  case expects =>
    intro other ho
    rcases List.mem_cons.mp ho with rfl | ho
    · exact hself
    · exact (h.expects other (List.mem_cons_of_mem _ ho)).mono hconfirming

-- A call that is done with its chips leaves nothing behind.
theorem Orderly.settle (h : Orderly lost core (g :: others)) (hg : g.todo = [])
    (hconf : ∀ id handle, g ≠ .confirming id handle) (hg' : g'.Blank) :
    Orderly lost core (g' :: others) := by
  refine h.restage (fun id hc => ?_) (fun id he => absurd he (hg'.exposes_ne id)) (fun id hl => ?_)
    (fun id hw => ?_) (hg'.todo.trans hg.symm) hconf (expects_of_quiet hg'.toQuiet)
  · rw [hg'.creates] at hc
    cases hc
  · rw [hg'.holds] at hl
    cases hl
  · rw [hg'.withdraws] at hw
    cases hw

end Stages

end Core

end GpioBridge
