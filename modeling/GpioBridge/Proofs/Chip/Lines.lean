import GpioBridge.Chip.Basic

namespace GpioBridge.Chip

variable {chip : Chip} {pin : UInt32}

theorem length_lines (chip : Chip) : chip.lines.length = chip.names.length := by
  simp [lines, chip.cells_length, chip.memories_length]

-- None of the three lists of a chip is cut short where its lines are put together.
theorem map_cell_lines (chip : Chip) : chip.lines.map Line.cell = chip.cells := by
  refine List.ext_getElem ?_ fun i _ _ => ?_
  · rw [List.length_map, length_lines, chip.cells_length]
  · simp [lines]

theorem map_memory_lines (chip : Chip) : chip.lines.map Line.memory = chip.memories := by
  refine List.ext_getElem ?_ fun i _ _ => ?_
  · rw [List.length_map, length_lines, chip.memories_length]
  · simp [lines]

theorem cell?_eq (chip : Chip) (pin : UInt32) : chip.cell? pin = (chip.line? pin).map Line.cell := by
  rw [cell?, line?, ← map_cell_lines, List.getElem?_map]

theorem memory?_eq (chip : Chip) (pin : UInt32) :
    chip.memory? pin = (chip.line? pin).map Line.memory := by
  rw [memory?, line?, ← map_memory_lines, List.getElem?_map]

-- A pin has a cell, and something remembered, exactly if it has a name.
theorem exists_cell_iff : (∃ cell, chip.cell? pin = some cell) ↔ pin.toNat < chip.names.length := by
  rw [cell?, ← chip.cells_length, ← Option.isSome_iff_exists, isSome_getElem?]

theorem exists_memory_iff :
    (∃ memory, chip.memory? pin = some memory) ↔ pin.toNat < chip.names.length := by
  rw [memory?, ← chip.memories_length, ← Option.isSome_iff_exists, isSome_getElem?]

theorem exists_line_iff : (∃ line, chip.line? pin = some line) ↔ pin.toNat < chip.names.length := by
  rw [line?, ← length_lines, ← Option.isSome_iff_exists, isSome_getElem?]

theorem cell?_eq_none_iff : chip.cell? pin = none ↔ chip.names.length ≤ pin.toNat := by
  rw [cell?, List.getElem?_eq_none_iff, chip.cells_length]

theorem memory?_eq_none_iff : chip.memory? pin = none ↔ chip.names.length ≤ pin.toNat := by
  rw [memory?, List.getElem?_eq_none_iff, chip.memories_length]

theorem getElem?_modify_pin {β : Type} (l : List β) (pin place : UInt32) (f : β → β) :
    (l.modify pin.toNat f)[place.toNat]? =
      if place = pin then l[place.toNat]?.map f else l[place.toNat]? := by
  rw [List.getElem?_modify]
  by_cases hplace : place = pin
  · simp [hplace]
  · have hne : pin.toNat ≠ place.toNat := fun heq => hplace (UInt32.toNat_inj.mp heq).symm
    simp [hplace, hne]

-- Changing the cell of a line leaves the other cells, and likewise what is remembered.
theorem cell?_modifyCell (chip : Chip) (pin : UInt32) (f : ReplyCell → ReplyCell)
    (place : UInt32) :
    (chip.modifyCell pin f).cell? place =
      if place = pin then (chip.cell? place).map f else chip.cell? place :=
  getElem?_modify_pin chip.cells pin place f

theorem memory?_modifyMemory (chip : Chip) (pin : UInt32) (f : Line.Memory → Line.Memory)
    (place : UInt32) :
    (chip.modifyMemory pin f).memory? place =
      if place = pin then (chip.memory? place).map f else chip.memory? place :=
  getElem?_modify_pin chip.memories pin place f

end GpioBridge.Chip
