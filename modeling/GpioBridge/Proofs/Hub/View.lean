import GpioBridge.Hub.Reply
import GpioBridge.Proofs.Hub.Lifecycle
import Mathlib.Data.List.Nodup

namespace GpioBridge

namespace Chip

-- All there is to a chip but the number of its handle.
def unnumbered (chip : Chip) : Chip := { chip with handle := chip.handle.map fun _ => default }

variable (chip : Chip)

@[simp]
theorem initialized_unnumbered : chip.unnumbered.initialized = chip.initialized := rfl

@[simp]
theorem registered_unnumbered : chip.unnumbered.registered = chip.registered := rfl

@[simp]
theorem lineCount_unnumbered : chip.unnumbered.lineCount = chip.lineCount := rfl

end Chip

namespace Hub

def uids (hub : Hub) : List UInt64 := hub.chips.map (·.uid)

-- The chips made for a uid, in the order they were made.
def idsOf (uid : UInt64) (hub : Hub) : List ChipId := (hub.uids.idxsOf uid).map ChipId.mk

-- What a chip is called where only the chips of its uid count.
def rank (uid : UInt64) (hub : Hub) (id : ChipId) : ChipId := ⟨(hub.idsOf uid).idxOf id⟩

-- The chip that is called so.
def named? (uid : UInt64) (name : ChipId) (hub : Hub) : Option ChipId := (hub.idsOf uid)[name.index]?

structure View where
  chips : List Chip
  mapped : Option ChipId
  deriving DecidableEq

def view (uid : UInt64) (hub : Hub) : View where
  chips := (hub.idsOf uid).map fun id => (hub.chip id).unnumbered
  mapped := (hub.find? uid).map (hub.rank uid)

namespace View

def change (name : ChipId) (f : Chip → Chip) (view : View) : View :=
  { view with chips := view.chips.modify name.index f }

def enlisted (r : Registration) (view : View) : View :=
  ⟨view.chips ++ [r.chip], some ⟨view.chips.length⟩⟩

-- The chip the uid names, and how it is called.
def current? (view : View) : Option (ChipId × Chip) :=
  view.mapped.bind fun name => view.chips[name.index]?.map fun chip => (name, chip)

-- What enlisting a chip comes to, where there is no limit.
def enlist (r : Registration) (view : View) : Except Fault ChipId × View :=
  match view.current? with
  | none => (.ok ⟨view.chips.length⟩, view.enlisted r)
  | some (name, chip) =>
    if chip.initialized then (.error (.uidInUse r.uid), view)
    else if chip.registered then (.error .busy, view)
    else
      (.ok ⟨view.chips.length⟩,
        (view.change name fun chip => { chip with retired := true }).enlisted r)

end View

section Ids

variable {hub hub' : Hub} {uid : UInt64} {id name : ChipId}

theorem mem_idsOf : id ∈ hub.idsOf uid ↔ hub.Has id ∧ (hub.chip id).uid = uid := by
  have hmem : id ∈ hub.idsOf uid ↔ id.index ∈ hub.uids.idxsOf uid := by
    constructor
    · intro h
      obtain ⟨index, hindex, rfl⟩ := List.mem_map.mp h
      exact hindex
    · exact List.mem_map_of_mem
  rw [hmem, List.mem_idxsOf_iff_exists_getElem_pos]
  simp only [uids, List.length_map, List.getElem_map, beq_iff_eq, Has, chip]
  constructor
  · rintro ⟨hlt, huid⟩
    exact ⟨hlt, by rwa [List.getElem?_eq_getElem hlt]⟩
  · rintro ⟨hlt, huid⟩
    exact ⟨hlt, by rwa [List.getElem?_eq_getElem hlt] at huid⟩

theorem nodup_idsOf (uid : UInt64) (hub : Hub) : (hub.idsOf uid).Nodup :=
  List.nodup_idxsOf.map fun _ _ h => congrArg ChipId.index h

theorem idsOf_of_uids (h : hub'.uids = hub.uids) : hub'.idsOf uid = hub.idsOf uid := by
  rw [idsOf, idsOf, h]

theorem rank_of_named (h : hub.named? uid name = some id) : hub.rank uid id = name := by
  obtain ⟨hlt, rfl⟩ := List.getElem?_eq_some_iff.mp h
  rw [rank, (nodup_idsOf uid hub).idxOf_getElem]

theorem named?_rank (h : id ∈ hub.idsOf uid) : hub.named? uid (hub.rank uid id) = some id :=
  List.getElem?_idxOf h

theorem mem_of_named (h : hub.named? uid name = some id) : id ∈ hub.idsOf uid :=
  List.mem_of_getElem? h

theorem idsOf_enlisted (hub : Hub) (r : Registration) (uid : UInt64) :
    (hub.enlisted r).idsOf uid = hub.idsOf uid ++ if r.uid = uid then [hub.nextId] else [] := by
  have huids : (hub.enlisted r).uids = hub.uids ++ [r.uid] := List.map_append
  rw [idsOf, huids, List.idxsOf_append, List.map_append]
  congr 1
  rw [List.idxsOf_cons, List.idxsOf_nil]
  split
  · next heq => simp [eq_of_beq heq, uids, nextId]
  · next hne => simp [show ¬r.uid = uid from by simpa using hne]

theorem uids_modifyChip {f : Chip → Chip} (hf : ∀ chip, (f chip).uid = chip.uid) (id : ChipId)
    (hub : Hub) : (hub.modifyChip id f).uids = hub.uids :=
  map_modify_of_eq hf hub.chips id.index

-- Every uid names a chip that was made for it.
def Seated (hub : Hub) : Prop := ∀ {uid id}, hub.find? uid = some id → id ∈ hub.idsOf uid

theorem named?_of_mapped (h : hub.Seated) (hf : hub.find? uid = some id) :
    hub.named? uid (hub.rank uid id) = some id :=
  named?_rank (h hf)

end Ids

section View

variable {hub hub' : Hub} {uid : UInt64} {id name : ChipId} {f : Chip → Chip}

theorem current?_view (h : hub.Seated) : (hub.view uid).current? =
    (hub.find? uid).map fun id => (hub.rank uid id, (hub.chip id).unnumbered) := by
  rw [View.current?, view]
  cases hf : hub.find? uid with
  | none => rfl
  | some id =>
    have hnamed : (hub.idsOf uid)[(hub.rank uid id).index]? = some id := named?_of_mapped h hf
    simp [List.getElem?_map, hnamed]

-- Changing a chip made for the uid changes it in the view.
theorem view_modifyChip {g : Chip → Chip} (hname : hub.named? uid name = some id)
    (huid : ∀ chip, (f chip).uid = chip.uid)
    (hf : ∀ chip, (f chip).unnumbered = g chip.unnumbered) :
    (hub.modifyChip id f).view uid = (hub.view uid).change name g := by
  have hids : (hub.modifyChip id f).idsOf uid = hub.idsOf uid :=
    idsOf_of_uids (uids_modifyChip huid id hub)
  have hhas := (mem_idsOf.mp (mem_of_named hname)).1
  have hchips : ((hub.idsOf uid).map fun other => ((hub.modifyChip id f).chip other).unnumbered) =
      ((hub.idsOf uid).map fun other => (hub.chip other).unnumbered).modify name.index g := by
    refine List.ext_getElem? fun i => ?_
    rw [List.getElem?_modify, List.getElem?_map, List.getElem?_map]
    cases hi : (hub.idsOf uid)[i]? with
    | none => simp
    | some other =>
      rw [Option.map_some, Option.map_some, chip_modifyChip hhas]
      by_cases hother : other = id
      · have hthere : hub.named? uid ⟨i⟩ = some other := hi
        have hplace : name.index = i := by
          rw [← rank_of_named hname, ← hother, rank_of_named hthere]
        simp [hother, hplace, hf]
      · have hplace : name.index ≠ i := by
          rintro rfl
          exact hother (Option.some.inj (hi.symm.trans hname))
        simp [hother, hplace]
  rw [view, hids, hchips]
  unfold View.change view rank
  rw [hids]
  rfl

-- Chips made for others do not show.
theorem view_modifyChip_of_not_mem (h : id ∉ hub.idsOf uid)
    (huid : ∀ chip, (f chip).uid = chip.uid) : (hub.modifyChip id f).view uid = hub.view uid := by
  have hids : (hub.modifyChip id f).idsOf uid = hub.idsOf uid :=
    idsOf_of_uids (uids_modifyChip huid id hub)
  unfold view rank
  rw [hids]
  congr 1
  refine List.map_congr_left fun other hother => ?_
  rw [chip_modifyChip_of_ne]
  rintro rfl
  exact h hother

theorem view_enlisted_self (hub : Hub) (r : Registration) :
    (hub.enlisted r).view r.uid = (hub.view r.uid).enlisted r := by
  have hids : (hub.enlisted r).idsOf r.uid = hub.idsOf r.uid ++ [hub.nextId] := by
    rw [idsOf_enlisted, if_pos rfl]
  have hnew : hub.nextId ∉ hub.idsOf r.uid := fun hmem => hub.not_has_nextId (mem_idsOf.mp hmem).1
  have hold : ∀ id ∈ hub.idsOf r.uid,
      ((hub.enlisted r).chip id).unnumbered = (hub.chip id).unnumbered := fun id hid => by
    rw [chip_enlisted_of_has (mem_idsOf.mp hid).1]
  unfold view View.enlisted rank
  rw [hids, find?_enlisted, if_pos rfl, List.map_append, List.map_congr_left hold, List.map_singleton,
    chip_enlisted_nextId, Option.map_some, List.idxOf_append_of_notMem hnew]
  simp [Chip.unnumbered, Registration.chip, Chip.create]

theorem view_enlisted_of_ne (hub : Hub) {r : Registration} (hne : r.uid ≠ uid) :
    (hub.enlisted r).view uid = hub.view uid := by
  have hids : (hub.enlisted r).idsOf uid = hub.idsOf uid := by
    rw [idsOf_enlisted, if_neg hne, List.append_nil]
  have hold : ∀ id ∈ hub.idsOf uid,
      ((hub.enlisted r).chip id).unnumbered = (hub.chip id).unnumbered := fun id hid => by
    rw [chip_enlisted_of_has (mem_idsOf.mp hid).1]
  unfold view rank
  rw [hids, find?_enlisted, if_neg (Ne.symm hne), List.map_congr_left hold]

theorem view_erase (hub : Hub) (other uid : UInt64) :
    { hub with registry := hub.registry.erase other }.view uid =
      if uid = other then { hub.view uid with mapped := none } else hub.view uid := by
  have hf : { hub with registry := hub.registry.erase other }.find? uid =
      if uid = other then none else hub.find? uid := UidMap.get?_erase ..
  split
  · next heq =>
    rw [if_pos heq] at hf
    rw [view, hf]
    rfl
  · next hne =>
    rw [if_neg hne] at hf
    rw [view, hf]
    rfl

theorem view_evict (hname : hub.named? uid name = some id) :
    (hub.evict uid id).view uid =
      { (hub.view uid).change name fun chip => { chip with retired := true } with mapped := none } := by
  have herased : ({ hub with registry := hub.registry.erase uid } : Hub).named? uid name = some id :=
    hname
  unfold evict
  rw [view_modifyChip (f := fun chip => { chip with retired := true })
    (g := fun chip => { chip with retired := true }) herased (fun _ => rfl) fun _ => rfl,
    view_erase, if_pos rfl]
  rfl

theorem uids_evict (hub : Hub) (uid : UInt64) (id : ChipId) : (hub.evict uid id).uids = hub.uids :=
  uids_modifyChip (f := fun chip => { chip with retired := true }) (fun _ => rfl) id
    { hub with registry := hub.registry.erase uid }

-- Without a limit an enlistment that fails changes nothing.
theorem enlist_of_error {r : Registration} {fault : Fault} (hlimit : hub.limit = none)
    (ho : (Hub.enlist r hub).1.outcome = .error fault) : (Hub.enlist r hub).2 = hub := by
  have he := enlists_enlist r hub
  generalize (Hub.enlist r hub).1 = enlistment at he ho
  generalize (Hub.enlist r hub).2 = hub' at he ⊢
  cases he with
  | refused | full => rfl
  | fresh | replaced => cases ho
  | fullAfterEviction _ _ _ h => cases hlimit.symm.trans h

-- The new chip comes after all that were made for its uid.
theorem rank_nextId (hub : Hub) (r : Registration) :
    (hub.enlisted r).rank r.uid hub.nextId = ⟨(hub.view r.uid).chips.length⟩ := by
  have hmapped := congrArg View.mapped (view_enlisted_self hub r)
  rw [view, find?_enlisted, if_pos rfl, Option.map_some] at hmapped
  exact Option.some.inj hmapped

theorem view_enlist {r : Registration} (hlimit : hub.limit = none) (h : hub.Seated) :
    ((enlist r hub).1.outcome.map ((enlist r hub).2.rank r.uid), (enlist r hub).2.view r.uid) =
      (hub.view r.uid).enlist r := by
  have hcurrent : (hub.view r.uid).current? = _ := current?_view h
  have he := enlists_enlist r hub
  generalize (enlist r hub).1 = enlistment at he
  generalize (enlist r hub).2 = hub' at he ⊢
  unfold View.enlist
  rw [hcurrent]
  cases he with
  | full _ hfull | fullAfterEviction _ _ _ hfull => cases hlimit.symm.trans hfull
  | @refused id _ found hrefused =>
    rw [found]
    rcases hrefused with ⟨hi, rfl⟩ | ⟨hi, hr, rfl⟩
    · simp only [Option.map_some, Chip.initialized_unnumbered, hi, if_true]
      rfl
    · simp only [Option.map_some, Chip.initialized_unnumbered, Chip.registered_unnumbered, hi, hr,
        Bool.false_eq_true, if_false, if_true]
      rfl
  | fresh found =>
    rw [found, view_enlisted_self]
    exact congrArg (fun name => (Except.ok name, _)) (rank_nextId hub r)
  | @replaced id found hi hr =>
    have hevicted := view_evict (named?_of_mapped h found)
    have hrank := rank_nextId (hub.evict r.uid id) r
    rw [nextId_evict, hevicted] at hrank
    rw [found, view_enlisted_self, hevicted]
    simp only [Option.map_some, Chip.initialized_unnumbered, Chip.registered_unnumbered, hi, hr,
      Bool.false_eq_true, if_false]
    refine Prod.ext (congrArg Except.ok (hrank.trans ?_)) rfl
    simp [View.change]

-- Enlisting a chip for another uid does not show.
theorem view_enlist_of_ne {r : Registration} (h : hub.Seated) (hne : r.uid ≠ uid) :
    (enlist r hub).2.view uid = hub.view uid ∧ (enlist r hub).2.idsOf uid = hub.idsOf uid := by
  have hevicted : ∀ {id}, hub.find? r.uid = some id →
      (hub.evict r.uid id).view uid = hub.view uid ∧
        (hub.evict r.uid id).idsOf uid = hub.idsOf uid := by
    intro id hf
    refine ⟨?_, idsOf_of_uids (uids_evict hub r.uid id)⟩
    have hother : id ∉ ({ hub with registry := hub.registry.erase r.uid } : Hub).idsOf uid :=
      fun hmem => hne ((mem_idsOf.mp (h hf)).2.symm.trans (mem_idsOf.mp hmem).2)
    refine (view_modifyChip_of_not_mem (f := fun chip => { chip with retired := true }) hother
      fun _ => rfl).trans ?_
    rw [view_erase, if_neg (Ne.symm hne)]
  have henlisted : ∀ hub : Hub, (hub.enlisted r).view uid = hub.view uid ∧
      (hub.enlisted r).idsOf uid = hub.idsOf uid := fun hub =>
    ⟨view_enlisted_of_ne hub hne, by rw [idsOf_enlisted, if_neg hne, List.append_nil]⟩
  have he := enlists_enlist r hub
  generalize (enlist r hub).1 = enlistment at he
  generalize (enlist r hub).2 = hub' at he ⊢
  cases he with
  | refused | full => exact ⟨rfl, rfl⟩
  | fresh => exact henlisted hub
  | fullAfterEviction hf => exact hevicted hf
  | replaced hf =>
    obtain ⟨hview, hids⟩ := henlisted (hub.evict r.uid _)
    exact ⟨hview.trans (hevicted hf).1, hids.trans (hevicted hf).2⟩

end View

end Hub

end GpioBridge
