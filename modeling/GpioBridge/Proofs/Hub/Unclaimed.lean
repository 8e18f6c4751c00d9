import GpioBridge.Hub.Reply
import GpioBridge.Hub.Request
import GpioBridge.Proofs.Hub.Lifecycle
import Mathlib

namespace GpioBridge.Hub

-- No cell has as many signals as it can count.
def NotFull (hub : Hub) : Prop :=
  ∀ chip ∈ hub.chips, ∀ cell ∈ chip.cells, cell.pending ≠ 0xFFFFFFFF

instance (hub : Hub) : Decidable hub.NotFull :=
  inferInstanceAs (Decidable (∀ chip ∈ hub.chips, ∀ cell ∈ chip.cells, _))

-- The signals nobody has taken, over the lines of every chip ever made.
def unclaimed (hub : Hub) : Nat :=
  (hub.chips.map fun chip => (chip.pending.map UInt32.toNat).sum).sum

section Sums

variable {β : Type} (g : β → Nat) (f : β → β)

theorem sum_map_modify {l : List β} {i : Nat} {x : β} (h : l[i]? = some x) :
    ((l.modify i f).map g).sum + g x = (l.map g).sum + g (f x) := by
  induction l generalizing i with
  | nil => simp at h
  | cons head tail ih =>
    cases i with
    | zero =>
      obtain rfl : head = x := by simpa using h
      simp only [List.modify_zero_cons, List.map_cons, List.sum_cons]
      omega
    | succ i =>
      have hrest := ih (i := i) (by simpa using h)
      simp only [List.modify_succ_cons, List.map_cons, List.sum_cons]
      omega

end Sums

theorem unclaimed_modifyChip_of_eq {f : Chip → Chip} (h : ∀ chip, (f chip).pending = chip.pending)
    (id : ChipId) (hub : Hub) : (hub.modifyChip id f).unclaimed = hub.unclaimed := by
  unfold unclaimed modifyChip
  rw [map_modify_of_eq fun chip => by rw [h]]

-- A chip that has a cell is one the hub made.
theorem chips_getElem?_of_cell? {hub : Hub} {id : ChipId} {pin : UInt32} {cell : ReplyCell}
    (h : (hub.chip id).cell? pin = some cell) : hub.chips[id.index]? = some (hub.chip id) := by
  unfold chip at h ⊢
  cases hc : hub.chips[id.index]? with
  | none =>
    rw [hc] at h
    cases h
  | some chip => rfl

theorem unclaimed_modifyCell {hub : Hub} {id : ChipId} {pin : UInt32} {cell : ReplyCell}
    (h : (hub.chip id).cell? pin = some cell) (f : ReplyCell → ReplyCell) :
    (hub.modifyChip id fun chip => chip.modifyCell pin f).unclaimed + cell.pending.toNat =
      hub.unclaimed + (f cell).pending.toNat := by
  have hchip := sum_map_modify (fun chip : Chip => (chip.pending.map UInt32.toNat).sum)
    (fun chip => chip.modifyCell pin f) (chips_getElem?_of_cell? h)
  have hcell := sum_map_modify (fun cell : ReplyCell => cell.pending.toNat) f h
  simp only [Chip.pending, Chip.modifyCell, List.map_map, Function.comp_def] at hchip
  simp only [unclaimed, modifyChip, Chip.pending, List.map_map, Function.comp_def]
  simp only [Chip.modifyCell] at hchip ⊢
  omega

-- A change that leaves every count as it is.
def Uncounted (hub hub' : Hub) : Prop :=
  hub'.unclaimed = hub.unclaimed ∧ hub'.counters = hub.counters

theorem uncounted_modifyChip {f : Chip → Chip} (h : ∀ chip, (f chip).pending = chip.pending)
    (id : ChipId) (hub : Hub) : Uncounted hub (hub.modifyChip id f) :=
  ⟨unclaimed_modifyChip_of_eq h id hub, rfl⟩

-- The cells of a new chip are empty.
theorem uncounted_enlisted (r : Registration) (hub : Hub) : Uncounted hub (hub.enlisted r) := by
  have hnew : (r.chip.pending.map UInt32.toNat).sum = 0 := by
    simp [Registration.chip, Chip.create, Chip.pending]
  exact ⟨by simp [unclaimed, enlisted, hnew], rfl⟩

theorem uncounted_evict (uid : UInt64) (id : ChipId) (hub : Hub) :
    Uncounted hub (hub.evict uid id) :=
  uncounted_modifyChip (by intro chip; rfl) id { hub with registry := hub.registry.erase uid }

theorem uncounted_enlist (r : Registration) (hub : Hub) : Uncounted hub (enlist r hub).2 := by
  have h := enlists_enlist r hub
  generalize (enlist r hub).1 = enlistment at h
  generalize (enlist r hub).2 = hub' at h
  cases h with
  | refused | full => exact ⟨rfl, rfl⟩
  | fresh => exact uncounted_enlisted r hub
  | @fullAfterEviction id => exact uncounted_evict r.uid id hub
  | @replaced id =>
    have hevict := uncounted_evict r.uid id hub
    have hnew := uncounted_enlisted r (hub.evict r.uid id)
    exact ⟨hnew.1.trans hevict.1, hnew.2.trans hevict.2⟩

theorem uncounted_suspend (id : ChipId) (hub : Hub) : Uncounted hub (suspend id hub).2 := by
  have h := suspends_suspend id hub
  generalize (suspend id hub).1 = suspension at h
  generalize (suspend id hub).2 = hub' at h
  cases h with
  | settled => exact ⟨rfl, rfl⟩
  | unexposed | exposed => exact uncounted_modifyChip (by intro chip; rfl) id hub

theorem uncounted_unmap (uid : UInt64) (id : ChipId) (hub : Hub) :
    Uncounted hub (unmap uid id hub) := by
  unfold unmap
  split <;> exact ⟨rfl, rfl⟩

theorem NotFull.of_cell? {hub : Hub} {id : ChipId} {pin : UInt32} {cell : ReplyCell}
    (hcells : hub.NotFull) (h : (hub.chip id).cell? pin = some cell) : cell.pending ≠ 0xFFFFFFFF :=
  hcells _ (List.mem_of_getElem? (chips_getElem?_of_cell? h)) cell (List.mem_of_getElem? h)

private theorem toNat_add_one {n : UInt32} (h : n ≠ 0xFFFFFFFF) :
    (n + 1).toNat = n.toNat + 1 := by
  have hlt := n.toNat_lt
  have hne : n.toNat ≠ 4294967295 := fun e => h (UInt32.toNat_inj.mp e)
  rw [UInt32.toNat_add]
  simp only [UInt32.toNat_one]
  omega

private theorem toNat_sub_one {n : UInt32} (h : n ≠ 0) : (n - 1).toNat + 1 = n.toNat := by
  have hlt := n.toNat_lt
  have hne : n.toNat ≠ 0 := fun e => h (UInt32.toNat_inj.mp e)
  rw [UInt32.toNat_sub_of_le n 1 (UInt32.le_iff_toNat_le.mpr (by simp only [UInt32.toNat_one]; omega))]
  simp only [UInt32.toNat_one]
  omega

-- A reply is brought to a cell of the chip its uid names, unless that chip is gone.
theorem of_recipient {hub : Hub} {m : Message} {id : ChipId} {reply : LineReply}
    (h : hub.recipient m = .ok (id, reply)) :
    m.reading = .reply reply ∧ hub.find? reply.uid = some id ∧ (hub.chip id).retired = false ∧
      ∃ cell, (hub.chip id).cell? reply.pin = some cell := by
  unfold recipient at h
  cases hm : m.reading with
  | notReply => simp [hm] at h
  | missingLevel uid pin => simp [hm] at h
  | reply found =>
    cases hf : hub.find? found.uid with
    | none => simp [hm, hf] at h
    | some other =>
      cases hret : (hub.chip other).retired with
      | true => simp [hm, hf, hret] at h
      | false =>
        cases hc : (hub.chip other).cell? found.pin with
        | none => simp [hm, hf, hret, hc] at h
        | some cell =>
          simp only [hm, hf, hret, hc] at h
          obtain ⟨rfl, rfl⟩ : other = id ∧ found = reply := by simpa using h
          exact ⟨rfl, hf, hret, cell, hc⟩

-- A caller takes one signal or is counted as having got none.
theorem collect_counts (id : ChipId) (pin : UInt32) (hub : Hub) :
    ((collect id pin hub).2.unclaimed = hub.unclaimed ∧
      (collect id pin hub).2.counters =
        { hub.counters with timedOut := hub.counters.timedOut + 1 }) ∨
    ((collect id pin hub).2.unclaimed + 1 = hub.unclaimed ∧
      (collect id pin hub).2.counters = hub.counters) := by
  cases hc : (hub.chip id).cell? pin with
  | none => exact .inl (by simp [collect, hc, countTimedOut, unclaimed])
  | some cell =>
    by_cases hp : cell.pending = 0
    · exact .inl (by simp [collect, hc, ReplyCell.take?, hp, countTimedOut, unclaimed])
    · right
      have htake : cell.take? =
          some (⟨cell.status, cell.level⟩, { cell with pending := cell.pending - 1 }) := by
        simp [ReplyCell.take?, hp]
      have hsum := unclaimed_modifyCell hc fun _ => { cell with pending := cell.pending - 1 }
      have hsub := toNat_sub_one hp
      simp only [collect, hc, htake]
      simp only at hsum
      exact ⟨by omega, rfl⟩

-- A message adds one signal or is counted as dropped.
theorem deliver_counts {hub : Hub} (hcells : hub.NotFull) (m : Message) :
    ((deliver m hub).2.unclaimed = hub.unclaimed ∧
      (deliver m hub).2.counters = { hub.counters with dropped := hub.counters.dropped + 1 }) ∨
    ((deliver m hub).2.unclaimed = hub.unclaimed + 1 ∧
      (deliver m hub).2.counters =
        { hub.counters with dispatched := hub.counters.dispatched + 1 }) := by
  cases hr : hub.recipient m with
  | error reason => exact .inl (by simp [deliver, hr, countDropped, unclaimed])
  | ok recipient =>
    obtain ⟨id, reply⟩ := recipient
    obtain ⟨-, -, -, cell, hc⟩ := of_recipient hr
    right
    have hfull := hcells.of_cell? hc
    have hsum := unclaimed_modifyCell hc fun cell => cell.post reply.status reply.level
    have hpost : (cell.post reply.status reply.level).pending = cell.pending + 1 := by
      simp [ReplyCell.post, hfull]
    have hadd := toNat_add_one hfull
    simp only [hpost] at hsum
    have hunclaimed : (deliver m hub).2.unclaimed = (hub.modifyChip id fun chip =>
        chip.post reply.pin reply.status reply.level).unclaimed := by
      simp [deliver, hr, countDispatched, unclaimed]
    refine ⟨?_, by simp [deliver, hr, countDispatched, modifyChip]⟩
    unfold Chip.post at hunclaimed
    omega

end GpioBridge.Hub
