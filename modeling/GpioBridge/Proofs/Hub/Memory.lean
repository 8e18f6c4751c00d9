import GpioBridge.Proofs.Hub.Cells
import GpioBridge.Proofs.Hub.Unclaimed

namespace GpioBridge.Hub

-- What is remembered of the line a uid and a pin name.
def memory (hub : Hub) (uid : UInt64) (pin : UInt32) : Line.Memory :=
  ((hub.find? uid).bind fun id => hub.memoryOf? id pin).getD {}

-- No cell has a signal left.
def Idle (hub : Hub) : Prop := ∀ chip ∈ hub.chips, ∀ cell ∈ chip.cells, cell.pending = 0

instance (hub : Hub) : Decidable hub.Idle :=
  inferInstanceAs (Decidable (∀ chip ∈ hub.chips, ∀ cell ∈ chip.cells, _))

theorem unclaimed_eq_zero_iff {hub : Hub} : hub.unclaimed = 0 ↔ hub.Idle := by
  simp only [unclaimed, Chip.pending, List.map_map, List.sum_eq_zero_iff, List.forall_mem_map,
    Function.comp_apply, Idle]
  refine forall₄_congr fun chip _ cell _ => ?_
  rw [← UInt32.toNat_inj]
  rfl

-- Every uid names a chip of that uid.
def Keyed (hub : Hub) : Prop := ∀ {uid id}, hub.find? uid = some id → (hub.chip id).uid = uid

section Memory

variable {hub : Hub} {uid : UInt64} {id : ChipId} {pin : UInt32} {cell : ReplyCell}
  {remembered : Line.Memory} {f : Line.Memory → Line.Memory}

theorem Idle.of_cell? (h : hub.Idle) (hc : (hub.chip id).cell? pin = some cell) :
    cell.pending = 0 :=
  h _ (List.mem_of_getElem? (chips_getElem?_of_cell? hc)) cell (List.mem_of_getElem? hc)

theorem memory_of_memoryOf? (hf : hub.find? uid = some id)
    (hm : hub.memoryOf? id pin = some remembered) : hub.memory uid pin = remembered := by
  simp [memory, hf, hm]

-- Changing what is remembered of one line changes it for that line.
theorem memory_modifyMemory (hkeyed : hub.Keyed) (hf : hub.find? uid = some id)
    (hm : hub.memoryOf? id pin = some remembered) (other : UInt64) (place : UInt32) :
    (hub.modifyChip id fun chip => chip.modifyMemory pin f).memory other place =
      if other = uid ∧ place = pin then f remembered else hub.memory other place := by
  unfold memory
  rw [find?_modifyChip]
  cases hother : hub.find? other with
  | none =>
    have hne : other ≠ uid := by
      rintro rfl
      rw [hf] at hother
      cases hother
    simp [hne]
  | some id' =>
    have hsame : id' = id ↔ other = uid := by
      constructor
      · rintro rfl
        exact (hkeyed hother).symm.trans (hkeyed hf)
      · rintro rfl
        exact Option.some.inj (hother.symm.trans hf)
    simp only [Option.bind_some, memoryOf?_modifyMemory, hsame]
    split
    · next hplace => rw [hsame.mpr hplace.1, hplace.2, hm, Option.map_some, Option.getD_some]
    · rfl

end Memory

-- A change of nothing but the counters and what cells say about the latest reply.
structure Settles (hub hub' : Hub) : Prop where
  outline : hub'.outline = hub.outline
  memory : hub'.memory = hub.memory
  unclaimed : hub'.unclaimed = hub.unclaimed

theorem Settles.trans {hub mid hub' : Hub} (h : Settles hub mid) (h' : Settles mid hub') :
    Settles hub hub' :=
  ⟨h'.outline.trans h.outline, h'.memory.trans h.memory, h'.unclaimed.trans h.unclaimed⟩

theorem settles_counters (hub : Hub) (counters : Counters) : Settles hub { hub with counters } :=
  ⟨rfl, rfl, rfl⟩

section RoundTrip

variable {hub : Hub} {uid : UInt64} {id : ChipId} {pin : UInt32} {cell cell' : ReplyCell}
  {m : Message} {status : Status} {level : Option Bool}

-- Putting another cell in the place of one with as many signals.
theorem settles_cell (hc : (hub.chip id).cell? pin = some cell)
    (hpending : cell'.pending = cell.pending) :
    Settles hub (hub.modifyChip id fun chip => chip.modifyCell pin fun _ => cell') where
  outline := outline_modifyChip (by intro chip; rfl) id hub
  memory := by
    funext other place
    unfold memory
    rw [find?_modifyChip]
    simp only [memoryOf?_modifyCell]
  unclaimed := by
    have hsum := unclaimed_modifyCell hc fun _ => cell'
    simp only [hpending] at hsum
    omega

-- A reply to a line on which nothing waits is what the next caller takes.
theorem collect_of_reply (hf : hub.find? uid = some id) (hretired : (hub.chip id).retired = false)
    (hc : (hub.chip id).cell? pin = some cell) (hidle : cell.pending = 0)
    (hm : m.reading = .reply ⟨uid, pin, status, level⟩) :
    ∃ hub', collect id pin (deliver m hub).2.countSent =
        (some ⟨status, if status.isOk then level else cell.level⟩, hub') ∧
      Settles hub hub' := by
  have hdeliver : (deliver m hub).2 =
      (hub.modifyChip id fun chip => chip.post pin status level).countDispatched := by
    simp [deliver, recipient, hm, hf, hretired, hc]
  have hposted : ((deliver m hub).2.countSent.chip id).cell? pin =
      some (cell.post status level) := by
    rw [hdeliver]
    change (hub.modifyChip id fun chip => chip.modifyCell pin _).cell? id pin = _
    rw [cell?_modifyCell, if_pos ⟨rfl, rfl⟩, Hub.cell?, hc, Option.map_some]
  let left : ReplyCell := ⟨0, status, if status.isOk then level else cell.level⟩
  have htake : (cell.post status level).take? = some (⟨left.status, left.level⟩, left) := by
    simp [ReplyCell.post, ReplyCell.take?, hidle, left]
  have hcollect : collect id pin (deliver m hub).2.countSent = (some ⟨left.status, left.level⟩,
      { hub.modifyChip id fun chip => chip.modifyCell pin fun _ => left with
        counters := (deliver m hub).2.countSent.counters }) := by
    rw [collect, hposted, hdeliver]
    simp only [htake, modifyChip, countSent, countDispatched, Chip.post, Chip.modifyCell,
      List.modify_modify_eq, Function.comp_def]
  exact ⟨_, hcollect, (settles_cell hc hidle.symm).trans (settles_counters _ _)⟩

-- A message that is no reply to anybody leaves the next caller waiting in vain.
theorem collect_of_dropped (hc : (hub.chip id).cell? pin = some cell)
    (hidle : cell.pending = 0) {reason : DropReason} (hm : hub.recipient m = .error reason) :
    ∃ hub', collect id pin (deliver m hub).2.countSent = (none, hub') ∧ Settles hub hub' := by
  have htake : cell.take? = none := by simp [ReplyCell.take?, hidle]
  have hchip : ((deliver m hub).2.countSent.chip id).cell? pin = some cell := by
    simpa [deliver, hm, countDropped, countSent, chip] using hc
  have hcollect : collect id pin (deliver m hub).2.countSent =
      (none, hub.countDropped.countSent.countTimedOut) := by
    rw [collect, hchip]
    simp only [htake, deliver, hm]
  exact ⟨_, hcollect, settles_counters hub _⟩

end RoundTrip

end GpioBridge.Hub
