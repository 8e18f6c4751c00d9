import GpioBridge.Proofs.Chip.Lines
import GpioBridge.Proofs.Chip.ReplyCell
import GpioBridge.Proofs.Hub.Outline

namespace GpioBridge.Hub

def cell? (hub : Hub) (id : ChipId) (pin : UInt32) : Option ReplyCell := (hub.chip id).cell? pin

def memoryOf? (hub : Hub) (id : ChipId) (pin : UInt32) : Option Line.Memory :=
  (hub.chip id).memory? pin

-- Nothing differs but counters and cells.
structure Resembles (hub hub' : Hub) : Prop where
  outline : hub'.outline = hub.outline
  memoryOf? : ∀ id pin, hub'.memoryOf? id pin = hub.memoryOf? id pin

theorem resembles_refl (hub : Hub) : hub.Resembles hub := ⟨rfl, fun _ _ => rfl⟩

theorem Resembles.trans {hub mid hub' : Hub} (h : hub.Resembles mid) (h' : mid.Resembles hub') :
    hub.Resembles hub' :=
  ⟨h'.outline.trans h.outline, fun id pin => (h'.memoryOf? id pin).trans (h.memoryOf? id pin)⟩

theorem names_of_outline {hub hub' : Hub} (h : hub'.outline = hub.outline) (id : ChipId) :
    (hub'.chip id).names = (hub.chip id).names := by
  have hchip := congrArg Chip.names (outline_chip_of_outline h id)
  exact hchip

theorem resembles_counters (hub : Hub) (counters : Counters) :
    hub.Resembles { hub with counters } :=
  ⟨rfl, fun _ _ => rfl⟩

section Lines

variable {β : Type} {pin : UInt32} {change : Chip → Chip} {f : β → β}

-- A change at one place of a chip, read back from any place of any chip. A chip the hub never made
-- has no place to change.
theorem read_modifyChip (read : Chip → UInt32 → Option β)
    (hchange : ∀ chip place, read (change chip) place =
      if place = pin then (read chip place).map f else read chip place)
    (hdefault : ∀ place, read default place = none) (hub : Hub) (id other : ChipId)
    (place : UInt32) :
    read ((hub.modifyChip id change).chip other) place =
      if other = id ∧ place = pin then (read (hub.chip other) place).map f
      else read (hub.chip other) place := by
  by_cases hother : other = id
  · rw [hother]
    by_cases hhas : hub.Has id
    · rw [chip_modifyChip_self hhas, hchange]
      simp
    · rw [chip_of_not_has hhas, chip_of_not_has fun hnew => hhas (has_modifyChip.mp hnew)]
      simp [hdefault]
  · rw [chip_modifyChip_of_ne hother, if_neg fun h => hother h.1]

theorem cell?_modifyCell (hub : Hub) (id : ChipId) (pin : UInt32) (f : ReplyCell → ReplyCell)
    (other : ChipId) (place : UInt32) :
    (hub.modifyChip id fun chip => chip.modifyCell pin f).cell? other place =
      if other = id ∧ place = pin then (hub.cell? other place).map f else hub.cell? other place :=
  read_modifyChip Chip.cell? (fun chip place => chip.cell?_modifyCell pin f place) (fun _ => rfl)
    hub id other place

theorem memoryOf?_modifyMemory (hub : Hub) (id : ChipId) (pin : UInt32)
    (f : Line.Memory → Line.Memory) (other : ChipId) (place : UInt32) :
    (hub.modifyChip id fun chip => chip.modifyMemory pin f).memoryOf? other place =
      if other = id ∧ place = pin then (hub.memoryOf? other place).map f
      else hub.memoryOf? other place :=
  read_modifyChip Chip.memory? (fun chip place => chip.memory?_modifyMemory pin f place)
    (fun _ => rfl) hub id other place

-- Cells and what is remembered stand apart.
theorem memoryOf?_modifyCell (hub : Hub) (id : ChipId) (pin : UInt32) (f : ReplyCell → ReplyCell)
    (other : ChipId) (place : UInt32) :
    (hub.modifyChip id fun chip => chip.modifyCell pin f).memoryOf? other place =
      hub.memoryOf? other place :=
  field_modifyChip_of_eq (g := fun chip => chip.memory? place) (by intro chip; rfl) id other hub

theorem resembles_modifyCell (f : ReplyCell → ReplyCell) (hub : Hub) (id : ChipId) (pin : UInt32) :
    hub.Resembles (hub.modifyChip id fun chip => chip.modifyCell pin f) where
  outline := outline_modifyChip (by intro chip; rfl) id hub
  memoryOf? := memoryOf?_modifyCell hub id pin f

theorem resembles_deliver (m : Message) (hub : Hub) : hub.Resembles (deliver m hub).2 := by
  unfold deliver
  split
  · next id reply _ =>
    exact (resembles_modifyCell (·.post reply.status reply.level) hub id reply.pin).trans
      (resembles_counters _ _)
  · exact resembles_counters hub _

theorem resembles_collect (id : ChipId) (pin : UInt32) (hub : Hub) :
    hub.Resembles (collect id pin hub).2 := by
  unfold collect
  split
  · exact resembles_counters hub _
  split
  · exact resembles_counters hub _
  · next outcome cell _ => exact resembles_modifyCell (fun _ => cell) hub id pin

end Lines

end GpioBridge.Hub
