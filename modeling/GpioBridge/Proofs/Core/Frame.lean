import GpioBridge.Proofs.Core.Overlap

namespace GpioBridge.Core

open Hub (Stage)

section Alike

variable {lost : ChipId → Prop} {core core' : Core} {stages : List Stage} (ha : Alike core core')
include ha

theorem unshown_of_alike {id : ChipId} (h : core.hub.Unshown id) : core'.hub.Unshown id where
  has := (Hub.has_of_outline ha.hub id).mpr h.has
  handle := by
    rw [Hub.handle_of_outline ha.hub]
    exact h.handle
  ready uid hf := by
    rw [Hub.find?_of_outline ha.hub] at hf
    rw [Hub.initialized_of_outline ha.hub]
    exact h.ready uid hf

theorem expects_of_alike {g : Stage} (h : core.Expects stages g) : core'.Expects stages g := by
  refine h.frame (fun id _ hnew => ⟨unshown_of_alike ha hnew, Hub.uid_of_outline ha.hub id⟩)
    (fun id _ hnone uid => ?_) (fun id => (Hub.has_of_outline ha.hub id).mpr)
    (fun id _ => Hub.handle_of_outline ha.hub id) (fun id _ exposed he ho => ?_)
    fun _ _ _ hin => hin
  · rw [Hub.find?_of_outline ha.hub]
    exact hnone uid
  · obtain ⟨other, hother, hh, -, hops⟩ := LineTable.exists_exposed_of_outline ha.table he
    exact .inl ⟨other, hother, hops.trans ho, hh⟩

theorem Orderly.alike (h : Orderly lost core stages) : Orderly lost core' stages where
  apart := h.apart
  once := h.once
  named hf := by
    rw [Hub.find?_of_outline ha.hub] at hf
    rw [Hub.has_of_outline ha.hub, Hub.uid_of_outline ha.hub, Hub.retired_of_outline ha.hub]
    exact h.named hf
  marked id := by
    rw [Hub.registered_of_outline ha.hub, Hub.handle_of_outline ha.hub]
    exact h.marked id
  gone id hr := by
    rw [Hub.retired_of_outline ha.hub] at hr
    rw [Hub.handle_of_outline ha.hub]
    exact h.gone id hr
  tracked id hr he := by
    rw [Hub.retired_of_outline ha.hub] at hr
    rw [Hub.registered_of_outline ha.hub] at he
    unfold Tracked
    rw [Hub.uid_of_outline ha.hub, Hub.find?_of_outline ha.hub]
    exact h.tracked id hr he
  shown exposed he := by
    obtain ⟨other, hother, hh, hd, ho⟩ := LineTable.exists_exposed_of_outline ha.table he
    rw [← hh, ← hd, ← ho, Hub.has_of_outline ha.hub, Hub.uid_of_outline ha.hub,
      Hub.handle_of_outline ha.hub]
    exact h.shown other hother
  doomed g hg id hid := by
    obtain ⟨hhas, hnone⟩ := h.doomed g hg id hid
    refine ⟨(Hub.has_of_outline ha.hub id).mpr hhas, fun uid => ?_⟩
    rw [Hub.find?_of_outline ha.hub]
    exact hnone uid
  late g hg id hc hr := by
    rw [Hub.retired_of_outline ha.hub] at hr
    exact h.late g hg id hc hr
  expects g hg := expects_of_alike ha (h.expects g hg)

end Alike

section Table

variable {lost : ChipId → Prop} {core : Core} {g : Stage} {others stages : List Stage}

-- Taking a chip away from consumers is always safe.
theorem Orderly.remove (h : Orderly lost core stages) (handle : Handle) :
    Orderly lost { core with table := (core.table.remove handle).2 } stages where
  apart := h.apart
  once := h.once
  named := h.named
  marked := h.marked
  gone := h.gone
  tracked := h.tracked
  shown exposed he := h.shown exposed (LineTable.mem_remove.mp he).1
  doomed := h.doomed
  late := h.late
  expects g hg := by
    refine (h.expects g hg).frame (fun _ _ hnew => ⟨hnew, rfl⟩) (fun _ _ hnone => hnone)
      (fun _ hhas => hhas) (fun _ _ => rfl) (fun id _ exposed he ho => ?_) fun _ _ _ hin => hin
    exact .inl ⟨exposed, (LineTable.mem_remove.mp he).1, ho, rfl⟩

-- A chip is exposed, and the call that made it knows its handle.
theorem Orderly.add {id : ChipId} {descriptor : Descriptor} {handle : Handle}
    {table : LineTable ChipId} (h : Orderly lost core (.confirming id handle :: others))
    (huid : descriptor.uid = (core.hub.chip id).uid)
    (ht : core.table.add descriptor id = (.ok handle, table)) :
    Orderly lost { core with table } (.confirming id handle :: others) := by
  have hnew : core.hub.Unshown id := h.expects _ List.mem_cons_self
  -- Only this chip is exposed anew, and its handle is still to be recorded.
  have hmem : ∀ exposed ∈ table.chips, exposed ∈ core.table.chips ∨
      (exposed.ops = id ∧ exposed.handle = handle ∧ exposed.descriptor = descriptor) := by
    intro exposed he
    unfold LineTable.add at ht
    split at ht
    · cases ht
    · cases ht
      rcases List.mem_append.mp he with he | he
      · exact .inl (List.mem_of_mem_filter he)
      · obtain rfl := List.mem_singleton.mp he
        exact .inr ⟨rfl, rfl, rfl⟩
  obtain ⟨happart, -⟩ := List.pairwise_cons.mp h.apart
  exact
    { h with
      shown := by
        intro exposed he
        rcases hmem exposed he with hold | ⟨rfl, rfl, rfl⟩
        · exact h.shown exposed hold
        · exact ⟨hnew.has, huid, .inr List.mem_cons_self⟩
      expects := by
        intro g hg
        refine (h.expects g hg).frame (fun _ _ hnew => ⟨hnew, rfl⟩) (fun _ _ hnone => hnone)
          (fun _ hhas => hhas) (fun _ _ => rfl) (fun other hl exposed he ho => ?_)
          fun _ _ _ hin => hin
        rcases hmem exposed he with hold | ⟨hops, rfl, rfl⟩
        · exact .inl ⟨exposed, hold, ho, rfl⟩
        · rcases List.mem_cons.mp hg with rfl | hg
          · cases hl
          · rw [← ho, hops]
            exact .inr ⟨(happart g hg).created id rfl, List.mem_cons_self⟩ }

end Table

section Touch

variable {lost : ChipId → Prop} {core : Core} {g g' : Stage} {others stages : List Stage}

-- Whether a chip is ready matters only while it is being made.
theorem Orderly.mark {id : ChipId} {value : Bool} (h : Orderly lost core stages)
    (hv : ∀ g ∈ stages, g.creates = some id → value = true ∨ ∀ uid, core.hub.find? uid ≠ some id) :
    Orderly lost { core with
      hub := core.hub.modifyChip id fun chip => { chip with initialized := value } } stages := by
  have huid := Hub.field_modifyChip_of_eq (g := Chip.uid)
    (f := fun chip => { chip with initialized := value }) (by intro chip; rfl) id
  have hretired := Hub.field_modifyChip_of_eq (g := Chip.retired)
    (f := fun chip => { chip with initialized := value }) (by intro chip; rfl) id
  have hregistered := Hub.field_modifyChip_of_eq (g := Chip.registered)
    (f := fun chip => { chip with initialized := value }) (by intro chip; rfl) id
  have hhandle := Hub.field_modifyChip_of_eq (g := Chip.handle)
    (f := fun chip => { chip with initialized := value }) (by intro chip; rfl) id
  constructor
  case apart =>
    exact h.apart
  case once =>
    exact h.once
  case named =>
    intro uid other hf
    rw [Hub.has_modifyChip, huid, hretired]
    exact h.named hf
  case marked =>
    intro other
    rw [hregistered, hhandle]
    exact h.marked other
  case gone =>
    intro other hr
    rw [hretired] at hr
    rw [hhandle]
    exact h.gone other hr
  case tracked =>
    intro other hr he
    rw [hretired] at hr
    rw [hregistered] at he
    unfold Tracked
    rw [huid]
    exact h.tracked other hr he
  case shown =>
    intro exposed he
    rw [Hub.has_modifyChip, huid, hhandle]
    exact h.shown exposed he
  case doomed =>
    intro g hg other ho
    rw [Hub.has_modifyChip]
    exact h.doomed g hg other ho
  case late =>
    intro g hg other hc hr
    rw [hretired] at hr
    exact h.late g hg other hc hr
  case expects =>
    intro g hg
    refine (h.expects g hg).frame (fun other hc hnew => ⟨?_, huid other _⟩) (fun _ _ hnone => hnone)
      (fun other => Hub.has_modifyChip.mpr) (fun other _ => hhandle other _)
      (fun other _ exposed he ho => .inl ⟨exposed, he, ho, rfl⟩) fun _ _ _ hin => hin
    refine ⟨Hub.has_modifyChip.mpr hnew.has, (hhandle other _).trans hnew.handle, fun uid hf => ?_⟩
    by_cases heq : other = id
    · subst heq
      rw [Hub.chip_modifyChip_self hnew.has]
      exact (hv g hg hc).resolve_right fun hnone => hnone uid hf
    · rw [Hub.chip_modifyChip_of_ne heq]
      exact hnew.ready uid hf

-- What the others rely on lasts when a chip changes whose lock they do not have.
theorem Expects.touch {stages' : List Stage} {id : ChipId} {f : Chip → Chip}
    (h : core.Expects stages g) (huid : ∀ chip, (f chip).uid = chip.uid)
    (hmade : g.creates = some id →
      (f (core.hub.chip id)).handle = none ∧ ∀ uid, core.hub.find? uid ≠ some id)
    (hlock : g.holds ≠ some id)
    (hmem : ∀ {other handle}, other ≠ id → .confirming other handle ∈ stages →
      .confirming other handle ∈ stages') :
    ({ core with hub := core.hub.modifyChip id f } : Core).Expects stages' g := by
  have hother : ∀ {other}, other ≠ id →
      (core.hub.modifyChip id f).chip other = core.hub.chip other :=
    fun hne => Hub.chip_modifyChip_of_ne hne f core.hub
  refine h.frame (fun other hc hnew => ?_) (fun _ _ hnone => hnone)
    (fun other => Hub.has_modifyChip.mpr) (fun other hl => ?_)
    (fun other _ exposed he ho => .inl ⟨exposed, he, ho, rfl⟩) fun other handle hl hin => ?_
  · refine ⟨⟨Hub.has_modifyChip.mpr hnew.has, ?_, fun uid hf => ?_⟩,
      Hub.field_modifyChip_of_eq huid id other core.hub⟩
    · by_cases heq : other = id
      · subst heq
        rw [Hub.chip_modifyChip_self hnew.has]
        exact (hmade hc).1
      · rw [hother heq]
        exact hnew.handle
    · by_cases heq : other = id
      · subst heq
        exact absurd hf ((hmade hc).2 uid)
      · rw [hother heq]
        exact hnew.ready uid hf
  · rw [hother]
    rintro rfl
    exact hlock hl
  · refine hmem ?_ hin
    rintro rfl
    exact hlock hl

-- A call that has the lock of a chip changes it and is done with it.
theorem Orderly.touch {id : ChipId} {f : Chip → Chip} (h : Orderly lost core (g :: others))
    (hhas : core.hub.Has id) (huid : ∀ chip, (f chip).uid = chip.uid)
    (hmark : (f (core.hub.chip id)).registered = true ↔
      ((f (core.hub.chip id)).handle).isSome = true)
    (hgone : (f (core.hub.chip id)).retired = true →
      ((f (core.hub.chip id)).handle = none ∨ lost id) ∧ ∀ uid, core.hub.find? uid ≠ some id)
    (hkept : (f (core.hub.chip id)).retired = false → core.Tracked (g' :: others) id)
    (hshown : ∀ exposed ∈ core.table.chips, exposed.ops = id →
      (f (core.hub.chip id)).handle = some exposed.handle ∨
        .confirming id exposed.handle ∈ others)
    (hmade : ∀ other ∈ others, other.creates = some id →
      (f (core.hub.chip id)).handle = none ∧ (∀ uid, core.hub.find? uid ≠ some id) ∧
        ∀ stage ∈ g' :: others, id ∉ stage.todo)
    (hlock : ∀ other ∈ others, other.holds ≠ some id) (hg' : g'.Quiet)
    (ht : g.todo = g'.todo ∨ g.todo = id :: g'.todo)
    (hconf : ∀ other handle, g = .confirming other handle → other = id) :
    Orderly lost { core with hub := core.hub.modifyChip id f } (g' :: others) := by
  have hchip := Hub.chip_modifyChip hhas f
  have hother : ∀ {other}, other ≠ id →
      (core.hub.modifyChip id f).chip other = core.hub.chip other :=
    fun hne => Hub.chip_modifyChip_of_ne hne f core.hub
  have huids : ∀ other, ((core.hub.modifyChip id f).chip other).uid = (core.hub.chip other).uid :=
    fun other => Hub.field_modifyChip_of_eq huid id other core.hub
  have hsub : g'.todo.Sublist g.todo := by
    rcases ht with ht | ht
    · rw [ht]
    · rw [ht]
      exact List.sublist_cons_self id g'.todo
  have hdue : ∀ {stage other}, stage ∈ g' :: others → other ∈ stage.todo →
      ∃ stage' ∈ g :: others, other ∈ stage'.todo := by
    intro stage other hs ho
    rcases List.mem_cons.mp hs with rfl | hs
    · exact ⟨g, List.mem_cons_self, hsub.subset ho⟩
    · exact ⟨stage, List.mem_cons_of_mem _ hs, ho⟩
  have hconfirming : ∀ {other handle}, other ≠ id → .confirming other handle ∈ g :: others →
      .confirming other handle ∈ g' :: others := by
    intro other handle hne hin
    refine List.mem_cons_of_mem _ ((List.mem_cons.mp hin).resolve_left fun heq => hne ?_)
    exact hconf other handle heq.symm
  obtain ⟨happart, hrest⟩ := List.pairwise_cons.mp h.apart
  constructor
  case apart =>
    refine List.pairwise_cons.mpr ⟨fun other ho => ?_, hrest⟩
    exact hg'.apart fun x hx => (happart other ho).todo x (hsub.subset hx)
  case once =>
    intro stage hs
    rcases List.mem_cons.mp hs with rfl | hs
    · exact (h.once g List.mem_cons_self).sublist hsub
    · exact h.once stage (List.mem_cons_of_mem _ hs)
  case named =>
    intro uid other hf
    obtain ⟨hhas', huid', hr⟩ := h.named hf
    rw [Hub.has_modifyChip, huids]
    refine ⟨hhas', huid', ?_⟩
    by_cases heq : other = id
    · subst heq
      rw [hchip, if_pos rfl, ← Bool.not_eq_true]
      exact fun hr' => (hgone hr').2 uid hf
    · rw [hother heq]
      exact hr
  case marked =>
    intro other
    by_cases heq : other = id
    · subst heq
      rw [hchip, if_pos rfl]
      exact hmark
    · rw [hother heq]
      exact h.marked other
  case gone =>
    intro other hr
    by_cases heq : other = id
    · subst heq
      rw [hchip, if_pos rfl] at hr ⊢
      exact (hgone hr).1
    · rw [hother heq] at hr ⊢
      exact h.gone other hr
  case tracked =>
    intro other hr he
    unfold Tracked
    rw [huids]
    by_cases heq : other = id
    · subst heq
      rw [hchip, if_pos rfl] at hr
      exact hkept hr
    rw [hother heq] at hr he
    have htr := h.tracked other hr <| he.imp_right fun ⟨stage, hs, hx⟩ => by
      rcases List.mem_cons.mp hs with rfl | hs
      · exact absurd hx (hg'.exposes_ne other)
      · exact ⟨stage, List.mem_cons_of_mem _ hs, hx⟩
    refine htr.mono fun stage hs ho => ?_
    rcases List.mem_cons.mp hs with rfl | hs
    · refine ⟨g', List.mem_cons_self, ?_⟩
      rcases ht with ht | ht <;> rw [ht] at ho
      · exact ho
      · exact (List.mem_cons.mp ho).resolve_left heq
    · exact ⟨stage, List.mem_cons_of_mem _ hs, ho⟩
  case shown =>
    intro exposed he
    obtain ⟨hhas', huid', hsh⟩ := h.shown exposed he
    rw [Hub.has_modifyChip, huids]
    refine ⟨hhas', huid', ?_⟩
    by_cases heq : exposed.ops = id
    · rw [hchip, if_pos heq, heq]
      exact (hshown exposed he heq).imp_right (List.mem_cons_of_mem _)
    · rw [hother heq]
      exact hsh.imp_right (hconfirming heq)
  case doomed =>
    intro stage hs other ho
    obtain ⟨stage', hs', ho'⟩ := hdue hs ho
    rw [Hub.has_modifyChip]
    exact h.doomed stage' hs' other ho'
  case late =>
    intro stage hs other hc hr stage' hs' ho
    rcases List.mem_cons.mp hs with rfl | hs
    · rw [hg'.creates] at hc
      cases hc
    by_cases heq : other = id
    · subst heq
      exact (hmade stage hs hc).2.2 stage' hs' ho
    · rw [hother heq] at hr
      obtain ⟨last, hlast, ho'⟩ := hdue hs' ho
      exact h.late stage (List.mem_cons_of_mem _ hs) other hc hr last hlast ho'
  case expects =>
    intro stage hs
    rcases List.mem_cons.mp hs with rfl | hs
    · exact expects_of_quiet hg'
    refine (h.expects stage (List.mem_cons_of_mem _ hs)).touch huid (fun hc => ?_) (hlock stage hs)
      hconfirming
    obtain ⟨hnone, hunmapped, -⟩ := hmade stage hs hc
    exact ⟨hnone, hunmapped⟩

-- Uids may be unmapped where the chips they name need no longer be found.
theorem Orderly.forget {hub : Hub} (h : Orderly lost core stages) (hchips : hub.chips = core.hub.chips)
    (hsub : ∀ {uid id}, hub.find? uid = some id → core.hub.find? uid = some id)
    (hkeep : ∀ id, core.hub.find? (core.hub.chip id).uid = some id →
      ((core.hub.chip id).registered = true ∨ ∃ g ∈ stages, g.exposes = some id) →
        hub.find? (core.hub.chip id).uid = some id) :
    Orderly lost { core with hub } stages := by
  have hchip : ∀ id, hub.chip id = core.hub.chip id := by
    intro id
    unfold Hub.chip
    rw [hchips]
  have hhas : ∀ id, hub.Has id ↔ core.hub.Has id := by
    intro id
    unfold Hub.Has
    rw [hchips]
  constructor
  case apart =>
    exact h.apart
  case once =>
    exact h.once
  case named =>
    intro uid id hf
    rw [hhas, hchip]
    exact h.named (hsub hf)
  case marked =>
    intro id
    rw [hchip]
    exact h.marked id
  case gone =>
    intro id hr
    rw [hchip] at hr ⊢
    exact h.gone id hr
  case tracked =>
    intro id hr he
    rw [hchip] at hr he
    unfold Tracked
    rw [hchip]
    exact (h.tracked id hr he).imp_left fun hf => hkeep id hf he
  case shown =>
    intro exposed he
    rw [hhas, hchip]
    exact h.shown exposed he
  case doomed =>
    intro g hg id hid
    rw [hhas]
    obtain ⟨hmade, hnone⟩ := h.doomed g hg id hid
    exact ⟨hmade, fun uid hf => hnone uid (hsub hf)⟩
  case late =>
    intro g hg id hc hr
    rw [hchip] at hr
    exact h.late g hg id hc hr
  case expects =>
    intro g hg
    refine (h.expects g hg).frame (fun id _ hnew => ⟨⟨(hhas id).mpr hnew.has, ?_, fun uid hf => ?_⟩, ?_⟩)
      (fun id _ hnone uid hf => hnone uid (hsub hf)) (fun id => (hhas id).mpr) (fun id _ => ?_)
      (fun id _ exposed he ho => .inl ⟨exposed, he, ho, rfl⟩) fun _ _ _ hin => hin
    · rw [hchip]
      exact hnew.handle
    · rw [hchip]
      exact hnew.ready uid (hsub hf)
    all_goals rw [hchip]

end Touch

end GpioBridge.Core
