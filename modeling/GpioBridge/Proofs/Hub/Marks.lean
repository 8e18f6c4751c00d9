import GpioBridge.Proofs.Hub.Roles

namespace GpioBridge.Hub

theorem length_le_of_steps {g g' : Stage} {change : Hub → Hub} {hub : Hub}
    (hs : Stage.Steps g change hub g') : hub.chips.length ≤ (change hub).chips.length := by
  by_cases hidle : g.idle = true
  · exact Nat.le_of_eq (length_of_outline (Stage.outline_of_steps hs hidle).1).symm
  cases hs with
  | enlist => exact length_le_enlist _ _
  | suspend => exact Nat.le_of_eq (length_suspend _ _).symm
  | unmap => exact Nat.le_of_eq (length_unmap _ _ _).symm
  | confirm | abandon | resume | release | disable | retire =>
    exact Nat.le_of_eq (length_modifyChip _ _ _).symm
  | read | find | check | drain => exact Nat.le_refl _
  | _ => exact absurd rfl hidle

-- What a step at a stage may do to the marks of one chip.
structure Marks (g : Stage) (id : ChipId) (before after : Chip) : Prop where
  initialized : after.initialized = true →
    before.initialized = true ∨ ∃ handle, g = .scanning id handle
  registered : after.registered = true →
    before.registered = true ∨ ∃ handle, g = .confirming id handle
  retired : before.retired = true → after.retired = true

section Steps

variable {hub hub' : Hub} {g g' : Stage} {id : ChipId} {change : Hub → Hub}

theorem marks_refl (g : Stage) (id : ChipId) (chip : Chip) : Marks g id chip chip :=
  ⟨.inl, .inl, fun h => h⟩

theorem marks_of_outline (h : hub'.outline = hub.outline) (g : Stage) (id : ChipId) :
    Marks g id (hub.chip id) (hub'.chip id) := by
  constructor
  · rw [initialized_of_outline h]
    exact .inl
  · rw [registered_of_outline h]
    exact .inl
  · rw [retired_of_outline h]
    exact fun hr => hr

-- A change of one chip is none of the others' business.
theorem marks_modifyChip {f : Chip → Chip} {other : ChipId} (hhas : hub.Has id)
    (h : id = other → Marks g id (hub.chip id) (f (hub.chip id))) :
    Marks g id (hub.chip id) ((hub.modifyChip other f).chip id) := by
  by_cases heq : id = other
  · rw [← heq, chip_modifyChip_self hhas]
    exact h heq
  · rw [chip_modifyChip_of_ne heq]
    exact marks_refl g id _

theorem has_evict {uid : UInt64} {stale : ChipId} : (hub.evict uid stale).Has id ↔ hub.Has id :=
  has_modifyChip

theorem marks_enlist (hhas : hub.Has id) (g : Stage) (r : Registration) :
    Marks g id (hub.chip id) ((enlist r hub).2.chip id) := by
  have hevict : ∀ stale, Marks g id (hub.chip id) ((hub.evict r.uid stale).chip id) := by
    intro stale
    have hbare : ({ hub with registry := hub.registry.erase r.uid } : Hub).Has id := hhas
    exact marks_modifyChip hbare fun _ => ⟨.inl, .inl, fun _ => rfl⟩
  have he := enlists_enlist r hub
  generalize (enlist r hub).1 = enlistment at he
  generalize (enlist r hub).2 = hub' at he ⊢
  cases he with
  | refused | full => exact marks_refl g id _
  | fresh =>
    rw [chip_enlisted_of_has hhas]
    exact marks_refl g id _
  | fullAfterEviction => exact hevict _
  | replaced =>
    rw [chip_enlisted_of_has (has_evict.mpr hhas)]
    exact hevict _

theorem marks_suspend (hhas : hub.Has id) (g : Stage) (other : ChipId) :
    Marks g id (hub.chip id) ((suspend other hub).2.chip id) := by
  have hs := suspends_suspend other hub
  generalize (suspend other hub).1 = suspension at hs
  generalize (suspend other hub).2 = hub' at hs ⊢
  cases hs with
  | settled => exact marks_refl g id _
  | unexposed => exact marks_modifyChip hhas fun _ => ⟨nofun, nofun, fun h => h⟩
  | exposed => exact marks_modifyChip hhas fun _ => ⟨nofun, .inl, fun h => h⟩

theorem marks_unmap (g : Stage) (id : ChipId) (uid : UInt64) (other : ChipId) (hub : Hub) :
    Marks g id (hub.chip id) ((unmap uid other hub).chip id) := by
  unfold unmap
  split <;> exact marks_refl g id _

theorem marks_of_steps (hs : Stage.Steps g change hub g') (hhas : hub.Has id) :
    Marks g id (hub.chip id) ((change hub).chip id) := by
  by_cases hidle : g.idle = true
  · exact marks_of_outline (Stage.outline_of_steps hs hidle).1 g id
  cases hs with
  | enlist => exact marks_enlist hhas _ _
  | read | find | check | drain => exact marks_refl _ id _
  | confirm =>
    exact marks_modifyChip hhas fun heq => ⟨.inl, fun _ => .inr ⟨_, by rw [heq]⟩, fun h => h⟩
  | unmap => exact marks_unmap _ id _ _ hub
  | abandon => exact marks_modifyChip hhas fun _ => ⟨nofun, .inl, fun _ => rfl⟩
  | suspend => exact marks_suspend hhas _ _
  | resume =>
    exact marks_modifyChip hhas fun heq => ⟨fun _ => .inr ⟨_, by rw [heq]⟩, .inl, fun h => h⟩
  | release => exact marks_modifyChip hhas fun _ => ⟨.inl, nofun, fun h => h⟩
  | disable => exact marks_modifyChip hhas fun _ => ⟨nofun, .inl, fun h => h⟩
  | retire => exact marks_modifyChip hhas fun _ => ⟨.inl, nofun, fun _ => rfl⟩
  | _ => exact absurd rfl hidle

-- To carry a mark a chip must have been made.
theorem has_of_registered (h : (hub.chip id).registered = true) : hub.Has id := by
  by_contra hnone
  rw [chip_of_not_has hnone] at h
  cases h

theorem has_of_retired (h : (hub.chip id).retired = true) : hub.Has id := by
  by_contra hnone
  rw [chip_of_not_has hnone] at h
  cases h

-- A chip that has been retired stays so.
theorem retired_of_steps (hs : Stage.Steps g change hub g') (h : (hub.chip id).retired = true) :
    ((change hub).chip id).retired = true :=
  (marks_of_steps hs (has_of_retired h)).retired h

theorem find?_of_unmap {uid other : UInt64} {stale : ChipId}
    (hf : (unmap other stale hub).find? uid = some id) : hub.find? uid = some id := by
  unfold unmap at hf
  split at hf
  · have hf : (hub.registry.erase other).get? uid = some id := hf
    rw [UidMap.get?_erase] at hf
    split at hf
    · cases hf
    · exact hf
  · exact hf

theorem find?_of_evict {uid other : UInt64} {stale : ChipId}
    (hf : (hub.evict other stale).find? uid = some id) : hub.find? uid = some id := by
  rw [find?_evict] at hf
  split at hf
  · cases hf
  · exact hf

-- What a uid names after a step it named before, or it is the chip that was made.
theorem find?_of_steps {uid : UInt64} (hs : Stage.Steps g change hub g')
    (hf : (change hub).find? uid = some id) :
    hub.find? uid = some id ∨ ∃ r, g = .registering r ∧ id = hub.nextId := by
  by_cases hidle : g.idle = true
  · rw [find?_of_outline (Stage.outline_of_steps hs hidle).1] at hf
    exact .inl hf
  cases hs with
  | @enlist r =>
    have henlisted : ∀ {hub : Hub}, (hub.enlisted r).find? uid = some id →
        hub.find? uid = some id ∨ id = hub.nextId := by
      intro hub hf
      rw [find?_enlisted] at hf
      split at hf
      · exact .inr (Option.some.inj hf).symm
      · exact .inl hf
    have he := enlists_enlist r hub
    generalize (enlist r hub).1 = enlistment at he
    replace hf : (enlist r hub).2.find? uid = some id := hf
    generalize (enlist r hub).2 = hub' at he hf
    cases he with
    | refused | full => exact .inl hf
    | fresh => exact (henlisted hf).imp_right fun heq => ⟨r, rfl, heq⟩
    | fullAfterEviction => exact .inl (find?_of_evict hf)
    | @replaced stale =>
      refine (henlisted hf).imp find?_of_evict fun heq => ⟨r, rfl, ?_⟩
      rw [heq, nextId_evict]
  | unmap => exact .inl (find?_of_unmap hf)
  | @suspend other =>
    have hsuspends := suspends_suspend other hub
    generalize (Hub.suspend other hub).1 = suspension at hsuspends
    replace hf : (Hub.suspend other hub).2.find? uid = some id := hf
    generalize (Hub.suspend other hub).2 = hub' at hsuspends hf
    cases hsuspends <;> exact .inl hf
  | drain => cases hf
  | read | find | check | confirm | abandon | resume | release | disable | retire => exact .inl hf
  | _ => exact absurd rfl hidle

end Steps

end GpioBridge.Hub
