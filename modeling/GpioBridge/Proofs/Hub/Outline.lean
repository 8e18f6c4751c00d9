import GpioBridge.Hub.Consumer
import GpioBridge.Hub.Reply
import GpioBridge.Proofs.Hub.Lifecycle

namespace GpioBridge

-- The chip as it was made, but for its handle and its marks.
def Chip.outline (chip : Chip) : Chip :=
  { create chip.uid chip.label chip.names with
    handle := chip.handle
    initialized := chip.initialized
    registered := chip.registered
    retired := chip.retired }

namespace Hub

def outline (hub : Hub) : Hub :=
  { hub with chips := hub.chips.map Chip.outline, counters := {} }

theorem chip_outline (hub : Hub) (id : ChipId) : hub.outline.chip id = (hub.chip id).outline := by
  unfold chip outline
  rw [List.getElem?_map]
  cases hub.chips[id.index]? <;> rfl

section Same

variable {hub hub' : Hub} (h : hub'.outline = hub.outline)
include h

theorem find?_of_outline (uid : UInt64) : hub'.find? uid = hub.find? uid := by
  have hfind := congrArg (find? · uid) h
  exact hfind

theorem outline_chip_of_outline (id : ChipId) : (hub'.chip id).outline = (hub.chip id).outline := by
  rw [← chip_outline, ← chip_outline, h]

theorem length_of_outline : hub'.chips.length = hub.chips.length := by
  simpa [outline] using congrArg (·.chips.length) h

theorem has_of_outline (id : ChipId) : hub'.Has id ↔ hub.Has id := by
  unfold Has
  rw [length_of_outline h]

theorem uid_of_outline (id : ChipId) : (hub'.chip id).uid = (hub.chip id).uid := by
  have hchip := congrArg Chip.uid (outline_chip_of_outline h id)
  exact hchip

theorem handle_of_outline (id : ChipId) : (hub'.chip id).handle = (hub.chip id).handle := by
  have hchip := congrArg Chip.handle (outline_chip_of_outline h id)
  exact hchip

theorem initialized_of_outline (id : ChipId) :
    (hub'.chip id).initialized = (hub.chip id).initialized := by
  have hchip := congrArg Chip.initialized (outline_chip_of_outline h id)
  exact hchip

theorem registered_of_outline (id : ChipId) :
    (hub'.chip id).registered = (hub.chip id).registered := by
  have hchip := congrArg Chip.registered (outline_chip_of_outline h id)
  exact hchip

theorem retired_of_outline (id : ChipId) : (hub'.chip id).retired = (hub.chip id).retired := by
  have hchip := congrArg Chip.retired (outline_chip_of_outline h id)
  exact hchip

theorem descriptor_of_outline (id : ChipId) :
    (hub'.chip id).descriptor = (hub.chip id).descriptor := by
  have hchip := congrArg Chip.descriptor (outline_chip_of_outline h id)
  exact hchip

end Same

theorem outline_modifyChip {f : Chip → Chip} (h : ∀ chip, (f chip).outline = chip.outline)
    (id : ChipId) (hub : Hub) : (hub.modifyChip id f).outline = hub.outline := by
  simp only [outline, modifyChip, map_modify_of_eq h]

theorem outline_setLevel (id : ChipId) (pin : UInt32) (level : Bool) (hub : Hub) :
    (setLevel id pin level hub).outline = hub.outline :=
  outline_modifyChip (by intro chip; rfl) id hub

theorem outline_setLineDirection (id : ChipId) (pin : UInt32) (direction : Direction) (hub : Hub) :
    (setLineDirection id pin direction hub).outline = hub.outline :=
  outline_modifyChip (by intro chip; rfl) id hub

theorem outline_collect (id : ChipId) (pin : UInt32) (hub : Hub) :
    (collect id pin hub).2.outline = hub.outline := by
  unfold collect
  split
  · rfl
  split
  · rfl
  · exact outline_modifyChip (by intro chip; rfl) id hub

theorem outline_deliver (m : Message) (hub : Hub) : (deliver m hub).2.outline = hub.outline := by
  unfold deliver
  split
  · exact outline_modifyChip (by intro chip; rfl) _ hub
  · rfl

end Hub

end GpioBridge
