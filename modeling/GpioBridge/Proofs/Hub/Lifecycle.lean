import GpioBridge.Hub.Lifecycle

namespace GpioBridge.Hub

-- Changing an element in a way a function does not see.
theorem map_modify_of_eq {β γ : Type} {g : β → γ} {f : β → β} (h : ∀ x, g (f x) = g x)
    (l : List β) (i : Nat) : (l.modify i f).map g = l.map g := by
  induction l generalizing i with
  | nil => simp
  | cons head tail ih =>
    cases i with
    | zero => simp [h]
    | succ i => simp [ih]

-- The hub has made this chip.
def Has (hub : Hub) (id : ChipId) : Prop := id.index < hub.chips.length

@[simp]
theorem has_modifyChip {id other : ChipId} {f : Chip → Chip} {hub : Hub} :
    (hub.modifyChip id f).Has other ↔ hub.Has other := by
  simp [Has, modifyChip]

@[simp]
theorem find?_modifyChip (id : ChipId) (f : Chip → Chip) (hub : Hub) (uid : UInt64) :
    (hub.modifyChip id f).find? uid = hub.find? uid := rfl

theorem chip_modifyChip_self {id : ChipId} {hub : Hub} (h : hub.Has id) (f : Chip → Chip) :
    (hub.modifyChip id f).chip id = f (hub.chip id) := by
  unfold Has at h
  simp [chip, modifyChip, List.getElem?_eq_getElem h]

theorem chip_modifyChip_of_ne {id other : ChipId} (h : other ≠ id) (f : Chip → Chip) (hub : Hub) :
    (hub.modifyChip id f).chip other = hub.chip other := by
  have hi : id.index ≠ other.index := fun e => h (by cases id; cases other; simp_all)
  simp [chip, modifyChip, hi]

@[simp]
theorem length_modifyChip (id : ChipId) (f : Chip → Chip) (hub : Hub) :
    (hub.modifyChip id f).chips.length = hub.chips.length := by
  simp [modifyChip]

-- A chip the hub never made has no line and carries no mark.
theorem chip_of_not_has {hub : Hub} {id : ChipId} (h : ¬hub.Has id) : hub.chip id = default := by
  unfold Has at h
  simp [chip, List.getElem?_eq_none (Nat.le_of_not_lt h)]

theorem has_of_handle {hub : Hub} {id : ChipId} (h : ((hub.chip id).handle).isSome = true) :
    hub.Has id := by
  apply Classical.byContradiction
  intro hnone
  rw [chip_of_not_has hnone] at h
  cases h

-- What a change never takes from a chip it takes from none.
theorem modifyChip_of {P : Chip → Prop} {f : Chip → Chip} (h : ∀ chip, P chip → P (f chip))
    {id other : ChipId} {hub : Hub} (hP : P (hub.chip other)) :
    P ((hub.modifyChip id f).chip other) := by
  by_cases hid : other = id
  · subst hid
    by_cases hhas : hub.Has other
    · rw [chip_modifyChip_self hhas]
      exact h _ hP
    · rw [chip_of_not_has fun hnew => hhas (has_modifyChip.mp hnew)]
      rwa [chip_of_not_has hhas] at hP
  · rwa [chip_modifyChip_of_ne hid]

-- What a change leaves alone in one chip it leaves alone in all.
theorem field_modifyChip_of_eq {β : Type} {g : Chip → β} {f : Chip → Chip}
    (h : ∀ chip, g (f chip) = g chip) (id other : ChipId) (hub : Hub) :
    g ((hub.modifyChip id f).chip other) = g (hub.chip other) := by
  by_cases hid : other = id
  · rw [hid]
    by_cases hhas : hub.Has id
    · rw [chip_modifyChip_self hhas, h]
    · rw [chip_of_not_has hhas, chip_of_not_has fun hnew => hhas (has_modifyChip.mp hnew)]
  · rw [chip_modifyChip_of_ne hid]

theorem chip_modifyChip {hub : Hub} {id : ChipId} (h : hub.Has id) (f : Chip → Chip)
    (other : ChipId) :
    (hub.modifyChip id f).chip other = if other = id then f (hub.chip other) else hub.chip other := by
  split
  · next heq => rw [heq, chip_modifyChip_self h]
  · next hne => exact chip_modifyChip_of_ne hne f hub

-- A chip stands between those made before it and those made after it, and changing it leaves them.
theorem exists_split {hub : Hub} {id : ChipId} (h : hub.Has id) :
    ∃ before after, hub.chips = before ++ hub.chip id :: after ∧ before.length = id.index ∧
      ∀ f, (hub.modifyChip id f).chips = before ++ f (hub.chip id) :: after := by
  unfold Has at h
  have hchip : hub.chip id = hub.chips[id.index] := by simp [chip, List.getElem?_eq_getElem h]
  refine ⟨hub.chips.take id.index, hub.chips.drop (id.index + 1), ?_, ?_, fun f => ?_⟩
  · rw [hchip, ← List.drop_eq_getElem_cons h, List.take_append_drop]
  · exact List.length_take_of_le (Nat.le_of_lt h)
  · rw [hchip, modifyChip, List.modify_eq_take_cons_drop h]

-- A new chip, mapped to its uid.
def enlisted (r : Registration) (hub : Hub) : Hub :=
  { hub with
    chips := hub.chips ++ [r.chip]
    registry := hub.registry.insert r.uid ⟨hub.chips.length⟩ }

-- The id of the next chip a hub makes.
def nextId (hub : Hub) : ChipId := ⟨hub.chips.length⟩

theorem not_has_nextId (hub : Hub) : ¬hub.Has hub.nextId := Nat.lt_irrefl _

theorem chip_enlisted_of_has {hub : Hub} {id : ChipId} (h : hub.Has id) (r : Registration) :
    (hub.enlisted r).chip id = hub.chip id := by
  unfold Has at h
  simp [chip, enlisted, List.getElem?_append_left h]

theorem chip_enlisted_nextId (hub : Hub) (r : Registration) :
    (hub.enlisted r).chip hub.nextId = r.chip := by
  simp [chip, enlisted, nextId]

theorem has_enlisted {hub : Hub} {id : ChipId} {r : Registration} :
    (hub.enlisted r).Has id ↔ hub.Has id ∨ id = hub.nextId := by
  obtain ⟨index⟩ := id
  simp only [Has, enlisted, nextId, List.length_append, List.length_singleton, ChipId.mk.injEq]
  omega

theorem chip_enlisted (hub : Hub) (r : Registration) (id : ChipId) :
    (hub.enlisted r).chip id = if id = hub.nextId then r.chip else hub.chip id := by
  split
  · next heq => rw [heq, chip_enlisted_nextId]
  · next hne =>
    by_cases hhas : hub.Has id
    · exact chip_enlisted_of_has hhas r
    · rw [chip_of_not_has hhas, chip_of_not_has]
      exact fun hnew => (has_enlisted.mp hnew).elim hhas hne

theorem find?_enlisted (hub : Hub) (r : Registration) (uid : UInt64) :
    (hub.enlisted r).find? uid = if uid = r.uid then some hub.nextId else hub.find? uid :=
  UidMap.get?_insert ..

theorem find?_enlisted_of_find? {hub : Hub} {r : Registration} (hf : hub.find? r.uid = none)
    {uid : UInt64} {id : ChipId} (h : hub.find? uid = some id) :
    (hub.enlisted r).find? uid = some id := by
  rw [find?_enlisted, if_neg]
  · exact h
  · rintro rfl
    rw [hf] at h
    cases h

theorem find?_of_find?_enlisted {hub : Hub} {r : Registration} {uid : UInt64} {id : ChipId}
    (hhas : hub.Has id) (h : (hub.enlisted r).find? uid = some id) : hub.find? uid = some id := by
  rw [find?_enlisted] at h
  split at h
  · cases h
    exact absurd hhas hub.not_has_nextId
  · exact h

theorem find?_evict (hub : Hub) (uid other : UInt64) (id : ChipId) :
    (hub.evict uid id).find? other = if other = uid then none else hub.find? other :=
  UidMap.get?_erase ..

-- What the one step of enlisting a chip comes to.
inductive Enlists (r : Registration) (hub : Hub) : Enlistment → Hub → Prop where
  -- The uid names a chip that is ready, or one that is still exposed.
  | refused {id fault} (found : hub.find? r.uid = some id)
      (h : ((hub.chip id).initialized = true ∧ fault = .uidInUse r.uid) ∨
        ((hub.chip id).initialized = false ∧ (hub.chip id).registered = true ∧ fault = .busy)) :
      Enlists r hub ⟨false, .error fault⟩ hub
  | full {limit} (found : hub.find? r.uid = none) (h : hub.limit = some limit)
      (hfull : limit ≤ hub.liveCount) : Enlists r hub ⟨false, .error (.chipLimit limit)⟩ hub
  | fresh (found : hub.find? r.uid = none) : Enlists r hub ⟨false, .ok hub.nextId⟩ (hub.enlisted r)
  -- A stale chip goes even if the limit then stands in the way.
  | fullAfterEviction {id limit} (found : hub.find? r.uid = some id)
      (hi : (hub.chip id).initialized = false) (hr : (hub.chip id).registered = false)
      (h : hub.limit = some limit) (hfull : limit ≤ (hub.evict r.uid id).liveCount) :
      Enlists r hub ⟨true, .error (.chipLimit limit)⟩ (hub.evict r.uid id)
  | replaced {id} (found : hub.find? r.uid = some id)
      (hi : (hub.chip id).initialized = false) (hr : (hub.chip id).registered = false) :
      Enlists r hub ⟨true, .ok hub.nextId⟩ ((hub.evict r.uid id).enlisted r)

theorem enlistFresh_cases (r : Registration) (hub : Hub) :
    (∃ limit, hub.limit = some limit ∧ limit ≤ hub.liveCount ∧
      hub.enlistFresh r = (.error (.chipLimit limit), hub)) ∨
    hub.enlistFresh r = (.ok hub.nextId, hub.enlisted r) := by
  unfold enlistFresh
  cases hl : hub.limit with
  | none => exact .inr rfl
  | some limit =>
    by_cases hfull : limit ≤ hub.liveCount
    · exact .inl ⟨limit, rfl, hfull, by simp [hfull]⟩
    · exact .inr (by simp [hfull, addChip, enlisted, nextId])

theorem nextId_evict (hub : Hub) (uid : UInt64) (id : ChipId) :
    (hub.evict uid id).nextId = hub.nextId := by
  simp [nextId, evict, modifyChip]

theorem enlists_enlist (r : Registration) (hub : Hub) :
    Enlists r hub (enlist r hub).1 (enlist r hub).2 := by
  cases hf : hub.find? r.uid with
  | none =>
    have he : enlist r hub = (⟨false, (hub.enlistFresh r).1⟩, (hub.enlistFresh r).2) := by
      simp [enlist, hf]
    rw [he]
    rcases enlistFresh_cases r hub with ⟨limit, hl, hfull, h⟩ | h
    · rw [h]
      exact .full hf hl hfull
    · rw [h]
      exact .fresh hf
  | some id =>
    by_cases hi : (hub.chip id).initialized = true
    · have he : enlist r hub = (⟨false, .error (.uidInUse r.uid)⟩, hub) := by
        simp [enlist, hf, hi]
      rw [he]
      exact .refused hf (.inl ⟨hi, rfl⟩)
    rw [Bool.not_eq_true] at hi
    by_cases hr : (hub.chip id).registered = true
    · have he : enlist r hub = (⟨false, .error .busy⟩, hub) := by simp [enlist, hf, hi, hr]
      rw [he]
      exact .refused hf (.inr ⟨hi, hr, rfl⟩)
    rw [Bool.not_eq_true] at hr
    have he : enlist r hub = (⟨true, ((hub.evict r.uid id).enlistFresh r).1⟩,
        ((hub.evict r.uid id).enlistFresh r).2) := by
      simp [enlist, hf, hi, hr]
    rw [he]
    rcases enlistFresh_cases r (hub.evict r.uid id) with ⟨limit, hl, hfull, h⟩ | h
    · rw [h]
      exact .fullAfterEviction hf hi hr hl hfull
    · rw [h, nextId_evict]
      exact .replaced hf hi hr

theorem uid_ne_of_check {r : Registration} {done : Unit} (h : r.check = .ok done) :
    r.uid ≠ broadcastUid := by
  intro huid
  simp [Registration.check, huid] at h

theorem length_names_of_check {r : Registration} {done : Unit} (h : r.check = .ok done) :
    r.names.length = r.lineCount.toNat := by
  unfold Registration.check at h
  split at h
  · cases h
  split at h
  · cases h
  split at h
  · cases h
  · next hlength => exact Decidable.not_not.mp hlength

theorem check_ne_framework (r : Registration) (detail : String) :
    r.check ≠ .error (.framework detail) := by
  unfold Registration.check
  repeat' split
  all_goals simp

theorem enlist_ne_framework (r : Registration) (hub : Hub) (detail : String) :
    (enlist r hub).1.outcome ≠ .error (.framework detail) := by
  have h := enlists_enlist r hub
  generalize (enlist r hub).1 = enlistment at h
  generalize (enlist r hub).2 = hub' at h
  cases h with
  | refused _ h => rcases h with ⟨-, rfl⟩ | ⟨-, -, rfl⟩ <;> simp
  | full | fullAfterEviction | fresh | replaced => simp

theorem length_le_enlist (r : Registration) (hub : Hub) :
    hub.chips.length ≤ (enlist r hub).2.chips.length := by
  have hevict : ∀ id, (hub.evict r.uid id).chips.length = hub.chips.length :=
    fun id => length_modifyChip id _ { hub with registry := hub.registry.erase r.uid }
  have h := enlists_enlist r hub
  generalize (enlist r hub).1 = enlistment at h
  generalize (enlist r hub).2 = hub' at h
  cases h with
  | refused | full => exact Nat.le_refl _
  | fresh => simp [enlisted]
  | fullAfterEviction => exact Nat.le_of_eq (hevict _).symm
  | replaced => simp [enlisted, hevict]

-- What the one step that begins a withdrawal comes to.
inductive Suspends (id : ChipId) (hub : Hub) : Suspension → Hub → Prop where
  | settled (h : (hub.chip id).registered = false) : Suspends id hub .settled hub
  | unexposed (h : (hub.chip id).registered = true) (hh : (hub.chip id).handle = none) :
      Suspends id hub .unexposed
        (hub.modifyChip id fun chip => { chip with initialized := false, registered := false })
  | exposed {handle} (h : (hub.chip id).registered = true)
      (hh : (hub.chip id).handle = some handle) :
      Suspends id hub (.exposed handle (hub.chip id).lineCount)
        (hub.modifyChip id fun chip => { chip with initialized := false })

theorem suspends_suspend (id : ChipId) (hub : Hub) :
    Suspends id hub (suspend id hub).1 (suspend id hub).2 := by
  by_cases h : (hub.chip id).registered = true
  · cases hh : (hub.chip id).handle with
    | none => simpa [suspend, h, hh] using Suspends.unexposed h hh
    | some handle => simpa [suspend, h, hh] using Suspends.exposed h hh
  · have he : suspend id hub = (.settled, hub) := by simp [suspend, h]
    rw [he]
    exact .settled (by simpa using h)

theorem suspend_of_registered {id : ChipId} {hub : Hub} {handle : Handle}
    (hr : (hub.chip id).registered = true) (hh : (hub.chip id).handle = some handle) :
    suspend id hub = (.exposed handle (hub.chip id).lineCount,
      hub.modifyChip id fun chip => { chip with initialized := false }) := by
  simp [suspend, hr, hh]

-- A chip that is ready again is as it was.
theorem resume_suspended {id : ChipId} {hub : Hub} (hi : (hub.chip id).initialized = true) :
    resume id (hub.modifyChip id fun chip => { chip with initialized := false }) = hub := by
  obtain ⟨chips, registry, counters, limit, patience⟩ := hub
  simp only [resume, modifyChip, Hub.mk.injEq, and_true]
  refine List.ext_getElem? fun i => ?_
  rw [List.getElem?_modify, List.getElem?_modify]
  by_cases heq : id.index = i
  · cases hchip : chips[i]? with
    | none => simp [heq]
    | some chip =>
      have hready : chip.initialized = true := by
        simpa [Hub.chip, heq, hchip] using hi
      simp [heq, ← hready]
  · simp [heq]

theorem length_suspend (id : ChipId) (hub : Hub) :
    (suspend id hub).2.chips.length = hub.chips.length := by
  have h := suspends_suspend id hub
  generalize (suspend id hub).1 = suspension at h
  generalize (suspend id hub).2 = hub' at h
  cases h with
  | settled => rfl
  | unexposed | exposed => exact length_modifyChip id _ hub

theorem length_unmap (uid : UInt64) (id : ChipId) (hub : Hub) :
    (unmap uid id hub).chips.length = hub.chips.length := by
  unfold unmap
  split <;> rfl

end GpioBridge.Hub
