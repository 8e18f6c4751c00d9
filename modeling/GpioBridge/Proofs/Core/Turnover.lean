import GpioBridge.Proofs.Core.Frame

namespace GpioBridge.Core

open Hub (Stage)

section Table

variable {lost : ChipId → Prop} {core : Core} {others : List Stage}

theorem orderly_add {r : Registration} {id : ChipId} {descriptor : Descriptor}
    (h : Orderly lost core (.offering r id descriptor :: others)) :
    Orderly lost { core with table := (core.table.add descriptor id).2 }
      (.ofExposure r id (core.table.add descriptor id).1 :: others) := by
  obtain ⟨hnew, huid, hdescriptor⟩ := h.expects _ List.mem_cons_self
  cases ht : core.table.add descriptor id with
  | mk answer table =>
    cases answer with
    | ok handle =>
      refine Orderly.add ?_ (hdescriptor.trans huid.symm) ht
      exact h.restage (fun _ hc => hc) (fun _ he => he) nofun nofun rfl nofun hnew
    | error fault =>
      have hsame : table = core.table := by
        unfold LineTable.add at ht
        split at ht <;> cases ht
        rfl
      subst hsame
      exact h.restage (fun _ hc => hc) nofun nofun nofun rfl nofun ⟨hnew, huid⟩

theorem orderly_withdrawn {id : ChipId} {handle : Handle}
    (h : Orderly lost core (.scanning id handle :: others)) :
    Orderly lost { core with table := (core.table.remove handle).2 } (.releasing id :: others) := by
  have hhandle : (core.hub.chip id).handle = some handle := h.expects _ List.mem_cons_self
  obtain ⟨happart, -⟩ := List.pairwise_cons.mp h.apart
  refine (h.remove handle).restage nofun nofun (fun _ hl => .inl hl) (fun _ hw => .inl hw) rfl nofun
    ⟨by simp [hhandle], fun exposed he ho => ?_⟩
  obtain ⟨hold, hne⟩ := LineTable.mem_remove.mp he
  rcases (h.shown exposed hold).2.2 with hshown | hin
  · rw [ho, hhandle] at hshown
    exact hne (Option.some.inj hshown).symm
  · rcases List.mem_cons.mp hin with heq | hin
    · cases heq
    · rw [ho] at hin
      exact (happart _ hin).withdrawn id rfl rfl

theorem orderly_concealed {id : ChipId} {handle : Handle} {rest : List ChipId}
    (h : Orderly lost core (.concealing id handle rest :: others)) :
    Orderly lost { core with table := (core.table.remove handle).2 } (.finishing id rest :: others) := by
  have hhandle : (core.hub.chip id).handle = some handle := h.expects _ List.mem_cons_self
  refine (h.remove handle).restage nofun nofun (fun _ hl => .inl hl) nofun rfl nofun
    fun exposed he ho => ?_
  obtain ⟨hold, hne⟩ := LineTable.mem_remove.mp he
  rcases (h.shown exposed hold).2.2 with hshown | hin
  · rw [ho, hhandle] at hshown
    exact absurd (Option.some.inj hshown).symm hne
  · rcases List.mem_cons.mp hin with heq | hin
    · cases heq
    · rw [ho] at hin
      exact List.mem_cons_of_mem _ hin

end Table

section Chip

variable {lost : ChipId → Prop} {core : Core} {id : ChipId} {others : List Stage}

theorem Orderly.holds_ne {g : Stage} (h : Orderly lost core (g :: others)) (hg : g.holds = some id) :
    ∀ other ∈ others, other.holds ≠ some id := by
  obtain ⟨happart, -⟩ := List.pairwise_cons.mp h.apart
  exact fun other ho => (happart other ho).holds id hg

theorem holds_ne_of_takes {g : Stage} (hg : g.takes = some id)
    (hfree : ∀ other ∈ others, ¬g.WaitsFor other) : ∀ other ∈ others, other.holds ≠ some id :=
  fun other ho hl => hfree other ho ⟨id, hg, hl⟩

-- A registration is recorded. If the chip has been retired, it is lost.
theorem orderly_confirm {handle : Handle} (h : Orderly lost core (.confirming id handle :: others))
    (hlock : ∀ other ∈ others, other.holds ≠ some id)
    (hlost : (core.hub.chip id).retired = true → lost id) :
    Orderly lost { core with hub := Hub.confirm id handle core.hub } (.recorded id :: others) := by
  have hnew : core.hub.Unshown id := h.expects _ List.mem_cons_self
  obtain ⟨happart, -⟩ := List.pairwise_cons.mp h.apart
  have hmade : ∀ other ∈ others, other.creates ≠ some id :=
    fun other ho => (happart other ho).creates id rfl
  refine h.touch hnew.has (fun _ => rfl) (by simp)
    (fun hr => ⟨.inr (hlost hr), h.find?_ne_of_retired hr⟩)
    (fun hr => (h.tracked id hr (.inr ⟨_, List.mem_cons_self, rfl⟩)).restage rfl)
    (fun exposed he ho => ?_) (fun other ho hc => absurd hc (hmade other ho)) hlock
    ⟨rfl, rfl, rfl⟩ (.inl rfl) fun other handle' heq => ?_
  · -- The chip was exposed under the handle that is recorded now.
    rcases List.mem_cons.mp (h.confirming_of_handle he ho hnew.handle) with heq | hin
    · injection heq with _ hhandle
      exact .inl (congrArg some hhandle.symm)
    · exact .inr hin
  · injection heq with hid _
    exact hid.symm

theorem orderly_abandon (h : Orderly lost core (.abandoning id :: others))
    (hlock : ∀ other ∈ others, other.holds ≠ some id) :
    Orderly lost { core with hub := Hub.abandon id core.hub } (.failed :: others) := by
  obtain ⟨hnew, hnone⟩ := h.expects _ List.mem_cons_self
  obtain ⟨happart, -⟩ := List.pairwise_cons.mp h.apart
  have hmade : ∀ other ∈ others, other.creates ≠ some id :=
    fun other ho => (happart other ho).creates id rfl
  refine h.touch hnew.has (fun _ => rfl) (h.marked id) (fun _ => ⟨.inl hnew.handle, hnone⟩) nofun
    (fun exposed he ho => ?_) (fun other ho hc => absurd hc (hmade other ho)) hlock ⟨rfl, rfl, rfl⟩
    (.inl rfl) nofun
  have hin := h.confirming_of_handle he ho hnew.handle
  exact .inr ((List.mem_cons.mp hin).resolve_left nofun)

theorem orderly_release (h : Orderly lost core (.releasing id :: others)) :
    Orderly lost { core with hub := Hub.release id core.hub } (.plain :: others) := by
  obtain ⟨hsome, hgone⟩ := h.expects _ List.mem_cons_self
  have hhas : core.hub.Has id := (h.expects _ List.mem_cons_self).has rfl
  obtain ⟨happart, -⟩ := List.pairwise_cons.mp h.apart
  have hmade : ∀ other ∈ others, other.creates ≠ some id :=
    fun other ho => (happart other ho).withdrawn id rfl
  exact h.touch hhas (fun _ => rfl) (by simp) (fun hr => ⟨.inl rfl, h.find?_ne_of_retired hr⟩)
    (fun hr => (h.tracked id hr (.inl ((h.marked id).mpr hsome))).restage rfl)
    (fun exposed he ho => absurd ho (hgone exposed he))
    (fun other ho hc => absurd hc (hmade other ho)) (h.holds_ne rfl) ⟨rfl, rfl, rfl⟩ (.inl rfl) nofun

theorem orderly_retire {rest : List ChipId} (h : Orderly lost core (.finishing id rest :: others)) :
    Orderly lost { core with hub := Hub.retire id core.hub } (.ofList rest :: others) := by
  have hconcealed : ∀ exposed ∈ core.table.chips, exposed.ops = id →
      .confirming id exposed.handle ∈ Stage.finishing id rest :: others :=
    h.expects _ List.mem_cons_self
  obtain ⟨hhas, hnone⟩ := h.doomed _ List.mem_cons_self id List.mem_cons_self
  obtain ⟨happart, -⟩ := List.pairwise_cons.mp h.apart
  have honce : id ∉ rest := (List.nodup_cons.mp (h.once _ List.mem_cons_self)).1
  refine h.touch hhas (fun _ => rfl) (by simp) (fun _ => ⟨.inl rfl, hnone⟩) nofun
    (fun exposed he ho => .inr ?_) (fun other ho hc => ⟨rfl, hnone, fun stage hs => ?_⟩)
    (h.holds_ne rfl) (Stage.quiet_ofList rest) (.inr ?_) nofun
  · exact (List.mem_cons.mp (hconcealed exposed he ho)).resolve_left nofun
  · rcases List.mem_cons.mp hs with rfl | hs
    · rwa [Stage.todo_ofList]
    · exact (happart stage hs).todo id List.mem_cons_self
  · rw [Stage.todo_ofList]
    rfl

theorem orderly_suspend (h : Orderly lost core (.suspending id :: others))
    (hlock : ∀ other ∈ others, other.holds ≠ some id) :
    Orderly lost { core with hub := (Hub.suspend id core.hub).2 }
      (.ofSuspension id (Hub.suspend id core.hub).1 :: others) := by
  have hs := Hub.suspends_suspend id core.hub
  generalize (Hub.suspend id core.hub).1 = suspension at hs
  generalize (Hub.suspend id core.hub).2 = hub' at hs
  obtain ⟨happart, hrest⟩ := List.pairwise_cons.mp h.apart
  cases hs with
  | settled => exact h.settle rfl nofun ⟨⟨rfl, rfl, rfl⟩, rfl⟩
  | unexposed hr hh =>
    have hsome := (h.marked id).mp hr
    rw [hh] at hsome
    cases hsome
  | @exposed handle hr hh =>
    have hmarked : Orderly lost { core with
        hub := core.hub.modifyChip id fun chip => { chip with initialized := false } }
        (.suspending id :: others) := by
      refine h.mark fun g hg hc => ?_
      rcases List.mem_cons.mp hg with rfl | hg
      · cases hc
      · exact absurd hc ((happart g hg).withdrawn id rfl)
    refine hmarked.restage nofun nofun (fun other hl => .inr ?_) (fun _ hw => .inl hw) rfl nofun ?_
    · cases hl
      exact hlock
    · exact (Hub.field_modifyChip_of_eq (g := Chip.handle) (by intro chip; rfl) id id core.hub).trans
        hh

theorem orderly_resume {handle : Handle} (h : Orderly lost core (.scanning id handle :: others)) :
    Orderly lost { core with hub := Hub.resume id core.hub } (.plain :: others) := by
  have hsettled : Orderly lost core (.plain :: others) := h.settle rfl nofun ⟨⟨rfl, rfl, rfl⟩, rfl⟩
  exact hsettled.mark fun _ _ _ => .inl rfl

theorem orderly_disable {rest : List ChipId} (h : Orderly lost core (.retiring id rest :: others))
    (hlock : ∀ other ∈ others, other.holds ≠ some id) :
    Orderly lost { core with hub := (Hub.disable id core.hub).2 }
      (.ofHandle id rest (Hub.disable id core.hub).1 :: others) := by
  obtain ⟨-, hnone⟩ := h.doomed _ List.mem_cons_self id List.mem_cons_self
  have hmarked : Orderly lost { core with
      hub := core.hub.modifyChip id fun chip => { chip with initialized := false } }
      (.retiring id rest :: others) := h.mark fun _ _ _ => .inr hnone
  have hhandle : ((core.hub.modifyChip id fun chip => { chip with initialized := false }).chip
      id).handle = (core.hub.chip id).handle :=
    Hub.field_modifyChip_of_eq (g := Chip.handle) (by intro chip; rfl) id id core.hub
  have hd : Hub.disable id core.hub = ((core.hub.chip id).handle,
      core.hub.modifyChip id fun chip => { chip with initialized := false }) := rfl
  rw [hd]
  cases hh : (core.hub.chip id).handle with
  | some handle =>
    refine hmarked.restage nofun nofun (fun other hl => .inr ?_) nofun rfl nofun (hhandle.trans hh)
    cases hl
    exact hlock
  | none =>
    refine hmarked.restage nofun nofun (fun other hl => .inr ?_) nofun rfl nofun
      fun exposed he ho => ?_
    · cases hl
      exact hlock
    · have hin := h.confirming_of_handle he ho hh
      exact List.mem_cons_of_mem _ ((List.mem_cons.mp hin).resolve_left nofun)

end Chip

section Registry

variable {lost : ChipId → Prop} {core : Core} {others : List Stage}

theorem orderly_unmap {uid : UInt64} {id : ChipId} (h : Orderly lost core (.refused uid id :: others)) :
    Orderly lost { core with hub := Hub.unmap uid id core.hub } (.abandoning id :: others) := by
  obtain ⟨hnew, huid⟩ := h.expects _ List.mem_cons_self
  obtain ⟨happart, -⟩ := List.pairwise_cons.mp h.apart
  have hforgotten : Orderly lost { core with hub := Hub.unmap uid id core.hub }
      (.refused uid id :: others) := by
    unfold Hub.unmap
    split
    · next hf =>
      refine h.forget rfl (fun {uid' other} hother => ?_) fun other hother he => ?_
      · rw [Hub.find?, UidMap.get?_erase] at hother
        split at hother
        · cases hother
        · exact hother
      · -- Nobody is going to find the chip that could not be exposed.
        have hne : other ≠ id := by
          rintro rfl
          rcases he with hreg | ⟨stage, hs, hx⟩
          · have hsome := (h.marked other).mp hreg
            rw [hnew.handle] at hsome
            cases hsome
          rcases List.mem_cons.mp hs with rfl | hs
          · cases hx
          · exact (happart stage hs).creates other rfl (Stage.creates_of_exposes hx)
        rw [Hub.find?, UidMap.get?_erase, if_neg]
        · exact hother
        · intro heq
          rw [heq, hf] at hother
          exact hne (Option.some.inj hother).symm
    · exact h
  have hnone : ∀ uid', (Hub.unmap uid id core.hub).find? uid' ≠ some id := by
    intro uid'
    unfold Hub.unmap
    split
    · intro hfound
      rw [Hub.find?, UidMap.get?_erase] at hfound
      split at hfound
      · cases hfound
      · next hne => exact hne ((h.named hfound).2.1.symm.trans huid)
    · next hne =>
      intro hfound
      have heq : uid' = uid := (h.named hfound).2.1.symm.trans huid
      exact hne (heq ▸ hfound)
  refine hforgotten.restage (fun _ hc => hc) nofun nofun nofun rfl nofun ⟨?_, hnone⟩
  exact (hforgotten.expects _ List.mem_cons_self).1

-- A stale chip is unmapped and retired.
theorem orderly_evict {r : Registration} {id : ChipId}
    (h : Orderly lost core (.registering r :: others)) (hf : core.hub.find? r.uid = some id)
    (hi : (core.hub.chip id).initialized = false) (hr : (core.hub.chip id).registered = false) :
    Orderly lost { core with hub := core.hub.evict r.uid id } (.registering r :: others) := by
  have hhas := (h.named hf).1
  have hhandle : (core.hub.chip id).handle = none := by
    have hmarked := h.marked id
    rw [hr] at hmarked
    simpa using hmarked
  have hmade : ∀ stage ∈ Stage.registering r :: others, stage.creates ≠ some id := by
    intro stage hs hc
    have hready := ((h.expects stage hs).unshown hc).ready r.uid hf
    rw [hi] at hready
    cases hready
  have hlock : ∀ other ∈ others, other.holds ≠ some id := by
    intro other ho hl
    rcases (h.expects other (List.mem_cons_of_mem _ ho)).handle_or_todo hl with hsome | hdue
    · rw [hhandle] at hsome
      cases hsome
    · exact (h.doomed other (List.mem_cons_of_mem _ ho) id hdue).2 r.uid hf
  have hforgotten : Orderly lost { core with
      hub := { core.hub with registry := core.hub.registry.erase r.uid } }
      (.registering r :: others) := by
    refine h.forget rfl (fun {uid other} hother => ?_) fun other hother he => ?_
    · rw [Hub.find?, UidMap.get?_erase] at hother
      split at hother
      · cases hother
      · exact hother
    · rw [Hub.find?, UidMap.get?_erase, if_neg]
      · exact hother
      · intro heq
        rw [heq, hf] at hother
        obtain rfl := Option.some.inj hother
        rcases he with hreg | ⟨stage, hs, hx⟩
        · rw [hr] at hreg
          cases hreg
        · exact hmade stage hs (Stage.creates_of_exposes hx)
  have hnone : ∀ uid, ({ core.hub with registry := core.hub.registry.erase r.uid } : Hub).find? uid ≠
      some id := by
    intro uid hfound
    rw [Hub.find?, UidMap.get?_erase] at hfound
    split at hfound
    · cases hfound
    · next hne => exact hne ((h.named hfound).2.1.symm.trans (h.named hf).2.1)
  refine hforgotten.touch hhas (fun _ => rfl) (hforgotten.marked id) (fun _ => ⟨.inl hhandle, hnone⟩)
    nofun (fun exposed he ho => ?_)
    (fun other ho hc => absurd hc (hmade other (List.mem_cons_of_mem _ ho))) hlock
    ⟨rfl, rfl, rfl⟩ (.inl rfl) nofun
  exact absurd rfl (hmade _ (h.confirming_of_handle he ho hhandle))

-- A new chip is mapped, and nobody knows of it yet.
theorem orderly_enlisted {r : Registration} (h : Orderly lost core others)
    (hf : core.hub.find? r.uid = none) :
    Orderly lost { core with hub := core.hub.enlisted r } (.exposing r core.hub.nextId :: others) := by
  have hnew : (core.hub.enlisted r).chip core.hub.nextId = r.chip :=
    Hub.chip_enlisted_nextId core.hub r
  have hframe : ∀ {id}, core.hub.Has id → (core.hub.enlisted r).chip id = core.hub.chip id :=
    fun hhas => Hub.chip_enlisted_of_has hhas r
  have hgrow : ∀ {id}, core.hub.Has id → (core.hub.enlisted r).Has id :=
    fun hhas => Hub.has_enlisted.mpr (.inl hhas)
  -- No chip the hub never made is marked in any way.
  have hchip : ∀ id, (core.hub.enlisted r).chip id = core.hub.chip id ∨
      (id = core.hub.nextId ∧ (core.hub.enlisted r).chip id = r.chip) := by
    intro id
    rw [Hub.chip_enlisted]
    split
    · next heq => exact .inr ⟨heq, rfl⟩
    · exact .inl rfl
  constructor
  case apart =>
    refine List.pairwise_cons.mpr ⟨fun other ho => ?_, h.apart⟩
    have hown : ∀ {id}, Stage.creates (.exposing r core.hub.nextId) = some id →
        ¬core.hub.Has id := by
      intro id hid
      cases hid
      exact core.hub.not_has_nextId
    exact
      { creates := fun id hid hc => hown hid ((h.expects other ho).unshown hc).has
        holds := by rintro _ ⟨⟩
        todo := by rintro _ ⟨⟩
        created := fun id hid hw => hown hid ((h.expects other ho).has hw)
        withdrawn := by rintro _ ⟨⟩ }
  case once =>
    intro stage hs
    rcases List.mem_cons.mp hs with rfl | hs
    · exact .nil
    · exact h.once stage hs
  case named =>
    intro uid id hfound
    rw [Hub.find?_enlisted] at hfound
    split at hfound
    · next huid =>
      cases hfound
      rw [hnew, huid]
      exact ⟨Hub.has_enlisted.mpr (.inr rfl), rfl, rfl⟩
    · obtain ⟨hhas, huid, hr⟩ := h.named hfound
      rw [hframe hhas]
      exact ⟨hgrow hhas, huid, hr⟩
  case marked =>
    intro id
    rcases hchip id with heq | ⟨-, heq⟩ <;> rw [heq]
    · exact h.marked id
    · simp [Registration.chip, Chip.create]
  case gone =>
    intro id hr
    rcases hchip id with heq | ⟨-, heq⟩ <;> rw [heq] at hr ⊢
    · exact h.gone id hr
    · exact .inl rfl
  case tracked =>
    intro id hr he
    by_cases hid : id = core.hub.nextId
    · left
      rw [hid, hnew, Hub.find?_enlisted]
      exact if_pos rfl
    have heq : (core.hub.enlisted r).chip id = core.hub.chip id :=
      (hchip id).resolve_right fun hx => hid hx.1
    rw [heq] at hr he
    have htr := h.tracked id hr <| he.imp_right <| by
      rintro ⟨stage, hs, hx⟩
      rcases List.mem_cons.mp hs with rfl | hs
      · cases hx
        exact absurd rfl hid
      · exact ⟨stage, hs, hx⟩
    unfold Tracked
    rw [heq]
    refine htr.imp (Hub.find?_enlisted_of_find? hf) ?_
    rintro ⟨stage, hs, hx⟩
    exact ⟨stage, List.mem_cons_of_mem _ hs, hx⟩
  case shown =>
    intro exposed he
    obtain ⟨hhas, huid, hsh⟩ := h.shown exposed he
    rw [hframe hhas]
    exact ⟨hgrow hhas, huid, hsh.imp_right (List.mem_cons_of_mem _)⟩
  case doomed =>
    intro stage hs id hid
    rcases List.mem_cons.mp hs with rfl | hs
    · cases hid
    obtain ⟨hhas, hnone⟩ := h.doomed stage hs id hid
    exact ⟨hgrow hhas, fun uid hfound => hnone uid (Hub.find?_of_find?_enlisted hhas hfound)⟩
  case late =>
    intro stage hs id hc hr stage' hs' hid
    rcases List.mem_cons.mp hs' with rfl | hs'
    · cases hid
    rcases List.mem_cons.mp hs with rfl | hs
    · cases hc
      exact core.hub.not_has_nextId (h.doomed stage' hs' _ hid).1
    · rw [hframe (h.doomed stage' hs' _ hid).1] at hr
      exact h.late stage hs id hc hr stage' hs' hid
  case expects =>
    intro stage hs
    rcases List.mem_cons.mp hs with rfl | hs
    · refine ⟨⟨Hub.has_enlisted.mpr (.inr rfl), ?_, fun _ _ => ?_⟩, ?_⟩ <;> rw [hnew] <;> rfl
    refine (h.expects stage hs).frame (fun id _ hun => ?_) (fun id hc hnone uid hfound => ?_)
      (fun _ => hgrow) (fun id hl => ?_) (fun id _ exposed he ho => .inl ⟨exposed, he, ho, rfl⟩)
      fun _ _ _ => List.mem_cons_of_mem _
    · refine ⟨⟨hgrow hun.has, ?_, fun uid hfound => ?_⟩, ?_⟩ <;> rw [hframe hun.has]
      · exact hun.handle
      · exact hun.ready uid (Hub.find?_of_find?_enlisted hun.has hfound)
    · have hhas := ((h.expects stage hs).unshown hc).has
      exact hnone uid (Hub.find?_of_find?_enlisted hhas hfound)
    · rcases (h.expects stage hs).handle_or_todo hl with hsome | hdue
      · rw [hframe (Hub.has_of_handle hsome)]
      · rw [hframe (h.doomed stage hs id hdue).1]

theorem orderly_enlist {r : Registration} (h : Orderly lost core (.registering r :: others)) :
    Orderly lost { core with hub := (Hub.enlist r core.hub).2 }
      (.ofEnlistment r (Hub.enlist r core.hub).1 :: others) := by
  have he := Hub.enlists_enlist r core.hub
  generalize (Hub.enlist r core.hub).1 = enlistment at he
  generalize (Hub.enlist r core.hub).2 = hub' at he
  have hblank : Stage.Blank (.registering r) := ⟨⟨rfl, rfl, rfl⟩, rfl⟩
  have hplain : Stage.Blank .plain := ⟨⟨rfl, rfl, rfl⟩, rfl⟩
  cases he with
  | refused | full => exact h.settle rfl nofun hplain
  | fresh hf => exact orderly_enlisted ((orderly_cons_of_blank hblank).mp h) hf
  | fullAfterEviction hf hi hr => exact (orderly_evict h hf hi hr).settle rfl nofun hplain
  | @replaced id hf hi hr =>
    have hevicted := orderly_evict h hf hi hr
    have hnone : (core.hub.evict r.uid id).find? r.uid = none := by
      rw [Hub.find?_evict, if_pos rfl]
    rw [← Hub.nextId_evict core.hub r.uid id]
    exact orderly_enlisted ((orderly_cons_of_blank hblank).mp hevicted) hnone

-- Every mapped chip is left to the teardown.
theorem orderly_drain (h : Orderly lost core (.tearingDown :: others)) :
    Orderly lost { core with hub := core.hub.drain.2 } (.ofList core.hub.drain.1 :: others) := by
  have hmem : ∀ {id}, id ∈ core.hub.drain.1 ↔ ∃ uid, core.hub.find? uid = some id := by
    intro id
    constructor
    · intro hid
      obtain ⟨⟨uid, id'⟩, hentry, rfl⟩ := List.mem_map.mp hid
      exact ⟨uid, (UidMap.get?_eq_some_iff ..).mpr hentry⟩
    · rintro ⟨uid, hf⟩
      exact List.mem_map.mpr ⟨_, (UidMap.get?_eq_some_iff ..).mp hf, rfl⟩
  have hnodup : core.hub.drain.1.Nodup := by
    refine List.Nodup.map_on (fun entry he entry' he' heq => ?_) ?_
    · obtain ⟨uid, id⟩ := entry
      obtain ⟨uid', id'⟩ := entry'
      obtain rfl : id = id' := heq
      have huid := (h.named ((UidMap.get?_eq_some_iff ..).mpr he)).2.1
      have huid' := (h.named ((UidMap.get?_eq_some_iff ..).mpr he')).2.1
      rw [huid.symm.trans huid']
    · exact core.hub.registry.ascending.imp fun hlt heq => by
        rw [heq] at hlt
        exact UInt64.lt_irrefl _ hlt
  have hquiet := Stage.quiet_ofList core.hub.drain.1
  have hrest : Orderly lost core others := (orderly_cons_of_blank ⟨⟨rfl, rfl, rfl⟩, rfl⟩).mp h
  constructor
  case apart =>
    refine List.pairwise_cons.mpr ⟨fun other ho => ?_, hrest.apart⟩
    refine hquiet.apart fun id hid hid' => ?_
    rw [Stage.todo_ofList] at hid
    obtain ⟨uid, hf⟩ := hmem.mp hid
    exact (hrest.doomed other ho id hid').2 uid hf
  case once =>
    intro stage hs
    rcases List.mem_cons.mp hs with rfl | hs
    · rwa [Stage.todo_ofList]
    · exact hrest.once stage hs
  case named =>
    exact nofun
  case marked =>
    exact h.marked
  case gone =>
    exact h.gone
  case tracked =>
    intro id hr he
    right
    have htr := hrest.tracked id hr <| he.imp_right fun ⟨stage, hs, hx⟩ => by
      rcases List.mem_cons.mp hs with rfl | hs
      · exact absurd hx (hquiet.exposes_ne id)
      · exact ⟨stage, hs, hx⟩
    rcases htr with hf | ⟨stage, hs, hid⟩
    · refine ⟨_, List.mem_cons_self, ?_⟩
      rw [Stage.todo_ofList]
      exact hmem.mpr ⟨_, hf⟩
    · exact ⟨stage, List.mem_cons_of_mem _ hs, hid⟩
  case shown =>
    intro exposed he
    obtain ⟨hhas, huid, hsh⟩ := hrest.shown exposed he
    exact ⟨hhas, huid, hsh.imp_right (List.mem_cons_of_mem _)⟩
  case doomed =>
    intro stage hs id hid
    refine ⟨?_, nofun⟩
    rcases List.mem_cons.mp hs with rfl | hs
    · rw [Stage.todo_ofList] at hid
      obtain ⟨uid, hf⟩ := hmem.mp hid
      exact (h.named hf).1
    · exact (hrest.doomed stage hs id hid).1
  case late =>
    intro stage hs id hc hr stage' hs' hid
    rcases List.mem_cons.mp hs with rfl | hs
    · rw [hquiet.creates] at hc
      cases hc
    rcases List.mem_cons.mp hs' with rfl | hs'
    · rw [Stage.todo_ofList] at hid
      obtain ⟨uid, hf⟩ := hmem.mp hid
      exact h.find?_ne_of_retired hr uid hf
    · exact hrest.late stage hs id hc hr stage' hs' hid
  case expects =>
    intro stage hs
    rcases List.mem_cons.mp hs with rfl | hs
    · exact expects_of_quiet hquiet
    · exact (hrest.expects stage hs).frame
        (fun id _ hnew => ⟨⟨hnew.has, hnew.handle, nofun⟩, rfl⟩) (fun _ _ _ => nofun)
        (fun _ hhas => hhas) (fun _ _ => rfl)
        (fun id _ exposed he ho => .inl ⟨exposed, he, ho, rfl⟩)
        fun _ _ _ => List.mem_cons_of_mem _

theorem orderly_find {uid : UInt64} (h : Orderly lost core (.withdrawing uid :: others)) :
    Orderly lost core (.ofFind (core.hub.find? uid) :: others) := by
  cases core.hub.find? uid with
  | none => exact h.settle rfl nofun ⟨⟨rfl, rfl, rfl⟩, rfl⟩
  | some id => exact h.settle rfl nofun ⟨⟨rfl, rfl, rfl⟩, rfl⟩

-- A chip that is registered is not being made any more.
theorem orderly_check {id : ChipId} (h : Orderly lost core (.found id :: others)) :
    Orderly lost core (.ofFound id (core.hub.chip id).registered :: others) := by
  cases hr : (core.hub.chip id).registered with
  | false => exact h.settle rfl nofun ⟨⟨rfl, rfl, rfl⟩, rfl⟩
  | true =>
    have hsome := (h.marked id).mp hr
    refine h.restage nofun nofun nofun (fun other hw => .inr ?_) rfl nofun (Hub.has_of_handle hsome)
    cases hw
    intro stage hs hc
    rw [((h.expects stage (List.mem_cons_of_mem _ hs)).unshown hc).handle] at hsome
    cases hsome

theorem orderly_read {r : Registration} {id : ChipId} (h : Orderly lost core (.exposing r id :: others)) :
    Orderly lost core (.offering r id (core.hub.chip id).descriptor :: others) := by
  obtain ⟨hnew, huid⟩ := h.expects _ List.mem_cons_self
  exact h.restage (fun _ hc => hc) (fun _ he => he) nofun nofun rfl nofun ⟨hnew, huid, huid⟩

end Registry

end GpioBridge.Core
