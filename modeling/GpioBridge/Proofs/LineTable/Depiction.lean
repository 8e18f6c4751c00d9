import GpioBridge.Proofs.LineTable.Board
import GpioBridge.Proofs.LineTable.Entries
import Mathlib

namespace GpioBridge

-- What an entry offers; a pin it does not have is held by nobody.
def Exposed.offer {ω : Type} (exposed : Exposed ω) : Offer ω :=
  ⟨exposed.descriptor, exposed.ops, fun pin => (exposed.held[pin.toNat]?).join⟩

namespace LineTable

structure Sound {ω : Type} (table : LineTable ω) : Prop where
  distinct : table.Distinct
  unambiguous : table.Unambiguous
  slotted : table.Slotted
  earlier : ∀ exposed ∈ table.chips, exposed.handle.number < table.nextHandle

structure Depicts {ω : Type} (board : Board ω) (table : LineTable ω) : Prop where
  sound : table.Sound
  offers : ∀ uid, board.offers.get? uid = (table.find? uid).map Exposed.offer
  uidOf : ∀ handle, board.uidOf handle = (table.exposure? handle).map (·.descriptor.uid)
  issued : table.nextHandle.toNat = board.issued

variable {ω τ : Type} {board : Board ω} {table : LineTable ω} {exposed : Exposed ω}
  {descriptor : Descriptor} {ops : ω} {handle : Handle} {uid other : UInt64} {pin line : UInt32}
  {consumer : String} {holder : Option String} {t : τ}
  {free : FreeDemand ω → τ → Except Fault Unit × τ}

theorem depicts_blank : Depicts ({} : Board ω) {} where
  sound := ⟨List.nodup_nil, List.nodup_nil, nofun, nofun⟩
  offers _ := rfl
  uidOf _ := rfl
  issued := rfl

theorem Depicts.perm (h : Depicts board table) {chips : List (Exposed ω)}
    (hperm : chips.Perm table.chips) : Depicts board { table with chips := chips } where
  sound :=
    { distinct := (hperm.map _).nodup_iff.mpr h.sound.distinct
      unambiguous := (hperm.map _).nodup_iff.mpr h.sound.unambiguous
      slotted := fun exposed he => h.sound.slotted exposed (hperm.mem_iff.mp he)
      earlier := fun exposed he => h.sound.earlier exposed (hperm.mem_iff.mp he) }
  offers uid := (h.offers uid).trans
    (congrArg (Option.map Exposed.offer) (find?_of_perm h.sound.distinct hperm).symm)
  uidOf handle := (h.uidOf handle).trans
    (congrArg (Option.map _) (exposure?_of_perm h.sound.unambiguous hperm).symm)
  issued := h.issued

section Questions

theorem holder?_of_found (h : table.find? uid = some exposed) :
    table.holder? uid pin = exposed.offer.holder pin := by
  simp [holder?, h, Exposed.offer]

theorem Depicts.holder? (h : Depicts board table) :
    board.holder? uid pin = table.holder? uid pin := by
  rw [Board.holder?, h.offers]
  cases hfound : table.find? uid with
  | none => simp [LineTable.holder?, hfound]
  | some exposed => rw [holder?_of_found hfound, Option.map_some, Option.bind_some]

-- Asking about a line by handle is asking about it by uid.
theorem Sound.isHeld_eq (h : table.Sound) (he : exposed ∈ table.chips) (pin : UInt32) :
    table.isHeld exposed.handle pin = (table.holder? exposed.descriptor.uid pin).isSome := by
  rw [holder?_of_found ((find?_eq_some_iff h.distinct).mpr ⟨he, rfl⟩)]
  simp only [isHeld, (exposure?_eq_some_iff h.unambiguous).mpr ⟨he, rfl⟩, Exposed.offer]
  rcases exposed.held[pin.toNat]? with _ | _ | owner <;> rfl

theorem Depicts.isHeld (h : Depicts board table) :
    board.isHeld handle pin = table.isHeld handle pin := by
  unfold Board.isHeld
  cases hfound : table.exposure? handle with
  | none => simp [h.uidOf, hfound, LineTable.isHeld]
  | some exposed =>
    obtain ⟨he, rfl⟩ := (exposure?_eq_some_iff h.sound.unambiguous).mp hfound
    simp only [h.uidOf, hfound, Option.map_some]
    rw [h.holder?, h.sound.isHeld_eq he]

theorem Depicts.ops? (h : Depicts board table) :
    (board.offers.get? uid).map (·.ops) = table.ops? uid := by
  rw [h.offers, Option.map_map]
  rfl

end Questions

section Descriptors

theorem perm_descriptors : table.descriptors.Perm (table.chips.map (·.descriptor)) :=
  (List.mergeSort_perm ..).map _

-- Sorting puts strictly in order what has no two equal keys.
theorem pairwise_descriptors (h : table.Distinct) : table.descriptors.Pairwise (·.uid < ·.uid) := by
  have hsorted : table.descriptors.Pairwise (·.uid ≤ ·.uid) := by
    have hentries : table.sorted.Pairwise fun a b =>
        decide (a.descriptor.uid ≤ b.descriptor.uid) = true :=
      List.pairwise_mergeSort
        (fun a b c hab hbc => by
          simp only [decide_eq_true_eq] at *
          exact UInt64.le_trans hab hbc)
        (fun a b => by simpa using UInt64.le_total a.descriptor.uid b.descriptor.uid) table.chips
    exact List.pairwise_map.mpr (hentries.imp of_decide_eq_true)
  have hdistinct : table.descriptors.Pairwise fun a b => a.uid ≠ b.uid := by
    have hnodup : (table.descriptors.map (·.uid)).Nodup := by
      rw [(perm_descriptors.map _).nodup_iff, List.map_map]
      exact h
    exact List.pairwise_map.mp hnodup
  refine hsorted.imp₂ (fun a b hle hne => ?_) hdistinct
  exact UInt64.lt_of_le_of_ne hle hne

theorem Depicts.uid_of_offer {offer : Offer ω} (h : Depicts board table)
    (hoffer : (uid, offer) ∈ board.offers.entries) : offer.descriptor.uid = uid := by
  have hget := (board.offers.get?_eq_some_iff uid offer).mpr hoffer
  rw [h.offers] at hget
  obtain ⟨exposed, hfound, rfl⟩ := Option.map_eq_some_iff.mp hget
  exact uid_of_find? hfound

theorem Depicts.pairwise_descriptors (h : Depicts board table) :
    board.descriptors.Pairwise (·.uid < ·.uid) := by
  have hentries : board.offers.entries.Pairwise fun a b =>
      a.2.descriptor.uid < b.2.descriptor.uid := by
    refine board.offers.ascending.imp_of_mem fun {a b} ha hb hlt => ?_
    rwa [h.uid_of_offer ha, h.uid_of_offer hb]
  simpa [Board.descriptors, UidMap.values, List.pairwise_map] using hentries

theorem Depicts.mem_descriptors (h : Depicts board table) :
    descriptor ∈ board.descriptors ↔ descriptor ∈ table.descriptors := by
  rw [perm_descriptors.mem_iff]
  simp only [Board.descriptors, UidMap.values, List.map_map, List.mem_map, Function.comp_apply]
  constructor
  · rintro ⟨⟨uid, offer⟩, hoffer, rfl⟩
    have hget := (board.offers.get?_eq_some_iff uid offer).mpr hoffer
    rw [h.offers] at hget
    obtain ⟨exposed, hfound, rfl⟩ := Option.map_eq_some_iff.mp hget
    exact ⟨exposed, List.mem_of_find?_eq_some hfound, rfl⟩
  · rintro ⟨exposed, he, rfl⟩
    refine ⟨(exposed.descriptor.uid, exposed.offer), ?_, rfl⟩
    rw [← UidMap.get?_eq_some_iff, h.offers, (find?_eq_some_iff h.sound.distinct).mpr ⟨he, rfl⟩,
      Option.map_some]

theorem Depicts.descriptors (h : Depicts board table) : board.descriptors = table.descriptors := by
  have hboard := h.pairwise_descriptors
  have htable := LineTable.pairwise_descriptors h.sound.distinct
  have hnodup : ∀ {l : List Descriptor}, l.Pairwise (·.uid < ·.uid) → l.Nodup := by
    intro l hl
    refine hl.imp ?_
    rintro a _ hlt rfl
    exact UInt64.lt_irrefl _ hlt
  have hperm : board.descriptors.Perm table.descriptors :=
    (List.perm_ext_iff_of_nodup (hnodup hboard) (hnodup htable)).mpr fun _ => h.mem_descriptors
  refine hperm.eq_of_pairwise (fun a b _ _ hab hba => ?_) hboard htable
  exact absurd (UInt64.lt_trans hab hba) (UInt64.lt_irrefl _)

end Descriptors

section SetHolder

theorem offer_setHolder (hslot : pin.toNat < exposed.held.length) :
    { exposed with held := exposed.held.set pin.toNat holder }.offer =
      exposed.offer.setHolder pin holder := by
  simp only [Exposed.offer, Offer.setHolder, Offer.mk.injEq, true_and]
  funext line
  by_cases hline : line = pin
  · subst hline
    simp [hslot]
  · have hne : pin.toNat ≠ line.toNat := fun hsame => hline (UInt32.toNat_inj.mp hsame).symm
    rw [Function.update_of_ne hline, List.getElem?_set_ne hne]

theorem Sound.setHolder (h : table.Sound) : (table.setHolder uid pin holder).Sound where
  distinct := distinct_setHolder h.distinct
  unambiguous := by
    rw [Unambiguous, handles_setHolder]
    exact h.unambiguous
  slotted := slotted_setHolder h.slotted uid pin holder
  earlier := by
    intro exposed he
    have hmem := List.mem_map_of_mem (f := (·.handle)) he
    rw [handles_setHolder] at hmem
    obtain ⟨old, hold, hsame⟩ := List.mem_map.mp hmem
    rw [← hsame]
    exact h.earlier old hold

theorem Depicts.setHolder (h : Depicts board table) (hfound : table.find? uid = some exposed)
    (hslot : pin.toNat < exposed.held.length) :
    Depicts (board.post uid (exposed.offer.setHolder pin holder))
      (table.setHolder uid pin holder) where
  sound := h.sound.setHolder
  offers other := by
    rw [Board.post, UidMap.get?_insert, find?_setHolder]
    by_cases hother : other = uid
    · subst hother
      rw [if_pos rfl, hfound, Option.map_some, if_pos (uid_of_find? hfound), Option.map_some,
        offer_setHolder hslot]
    · rw [if_neg hother, h.offers]
      cases hrival : table.find? other with
      | none => rfl
      | some rival =>
        rw [Option.map_some, Option.map_some, if_neg (by rwa [uid_of_find? hrival]),
          Option.map_some]
  uidOf handle := by
    rw [Board.post, exposure?_setHolder, Option.map_map, h.uidOf]
    congr 1
    funext chip
    simp only [Function.comp_apply]
    split <;> rfl
  issued := h.issued

end SetHolder

section Operations

theorem Sound.fresh (h : table.Sound) :
    ∀ exposed ∈ table.chips, exposed.handle ≠ ⟨table.nextHandle⟩ := by
  intro exposed he heq
  have hlt := h.earlier exposed he
  rw [heq] at hlt
  exact UInt64.lt_irrefl _ hlt

theorem toNat_succ_of_room {n : UInt64} (h : n.toNat + 1 < 2 ^ 64) :
    (n + 1).toNat = n.toNat + 1 := by
  rw [UInt64.toNat_add]
  exact Nat.mod_eq_of_lt h

theorem offer_vacant :
    Exposed.offer ⟨handle, descriptor, ops, descriptor.names.map fun _ => none⟩ =
      .vacant descriptor ops := by
  simp only [Exposed.offer, Offer.vacant, Offer.mk.injEq, true_and]
  funext pin
  rw [List.getElem?_map]
  cases descriptor.names[pin.toNat]? <;> rfl

theorem Sound.add (h : table.Sound) (descriptor : Descriptor) (ops : ω)
    (hroom : table.nextHandle.toNat + 1 < 2 ^ 64) :
    (table.add descriptor ops).2.Sound := by
  have hdistinct : (table.add descriptor ops).2.Distinct := distinct_add h.distinct
  have hslotted := slotted_add h.slotted descriptor ops
  cases hfound : table.find? descriptor.uid with
  | some exposed => simpa [LineTable.add, hfound] using h
  | none =>
    rw [add_of_fresh hfound h.fresh] at hdistinct hslotted ⊢
    refine ⟨hdistinct, ?_, hslotted, fun exposed he => ?_⟩
    · rw [Unambiguous, List.map_append, List.map_singleton, List.nodup_append]
      refine ⟨h.unambiguous, List.nodup_singleton _, ?_⟩
      rintro _ hold _ hnew rfl
      obtain ⟨exposed, he, heq⟩ := List.mem_map.mp hold
      exact h.fresh exposed he (heq.trans (List.mem_singleton.mp hnew))
    · rw [UInt64.lt_iff_toNat_lt, toNat_succ_of_room hroom, Nat.lt_succ_iff]
      rcases List.mem_append.mp he with he | he
      · exact Nat.le_of_lt (UInt64.lt_iff_toNat_lt.mp (h.earlier exposed he))
      · obtain rfl := List.mem_singleton.mp he
        exact Nat.le_refl _

theorem Depicts.add (h : Depicts board table) (descriptor : Descriptor) (ops : ω)
    (hroom : board.issued + 1 < 2 ^ 64) :
    (board.add descriptor ops).1 = (table.add descriptor ops).1 ∧
      Depicts (board.add descriptor ops).2 (table.add descriptor ops).2 := by
  rw [← h.issued] at hroom
  have hsound := h.sound.add descriptor ops hroom
  unfold Board.add
  rw [h.offers]
  cases hfound : table.find? descriptor.uid with
  | some exposed =>
    simp only [LineTable.add, hfound, Option.map_some, Option.isSome_some, if_true, true_and]
    exact h
  | none =>
    have hnext := toNat_succ_of_room hroom
    have hhandle : UInt64.ofNat board.issued = table.nextHandle := by
      rw [← h.issued, UInt64.ofNat_toNat]
    rw [add_of_fresh hfound h.sound.fresh] at hsound ⊢
    simp only [Option.map_none, hhandle, true_and]
    refine ⟨hsound, fun uid => ?_, fun handle => ?_, ?_⟩
    · rw [UidMap.get?_insert, find?_append, h.offers]
      by_cases huid : uid = descriptor.uid
      · subst huid
        rw [if_pos rfl, hfound, Option.none_or, if_pos rfl, Option.map_some, offer_vacant]
      · rw [if_neg huid, if_neg (Ne.symm huid), Option.or_none]
    · rw [exposure?_append]
      simp only [Function.update_apply, h.uidOf]
      by_cases hsame : handle = ⟨table.nextHandle⟩
      · subst hsame
        rw [if_pos rfl, exposure?_eq_none_iff.mpr h.sound.fresh, Option.none_or, if_pos rfl]
        rfl
      · rw [if_neg hsame, if_neg (Ne.symm hsame), Option.or_none]
    · rw [← h.issued]
      exact hnext

theorem Sound.remove (h : table.Sound) : (table.remove handle).2.Sound where
  distinct := distinct_remove h.distinct
  unambiguous := unambiguous_remove h.unambiguous
  slotted := slotted_remove h.slotted
  earlier := fun exposed he => h.earlier exposed (mem_remove.mp he).1

theorem Depicts.remove (h : Depicts board table) :
    Depicts (board.remove handle) (table.remove handle).2 := by
  unfold Board.remove
  rw [h.uidOf]
  cases hfound : table.exposure? handle with
  | none =>
    rw [remove_of_absent hfound]
    exact h
  | some exposed =>
    obtain ⟨he, rfl⟩ := (exposure?_eq_some_iff h.sound.unambiguous).mp hfound
    simp only [Option.map_some]
    refine ⟨h.sound.remove, fun uid => ?_, fun handle => ?_, h.issued⟩
    · rw [UidMap.get?_erase, h.offers, find?_remove h.sound.distinct h.sound.unambiguous he]
      split <;> rfl
    · rw [exposure?_remove h.sound.unambiguous]
      simp only [Function.update_apply, h.uidOf]
      split <;> rfl

theorem Depicts.request (h : Depicts board table) (uid : UInt64) (pin : UInt32)
    (consumer : String) :
    (board.request uid pin consumer).1 = (table.grant uid pin consumer).1.result ∧
      Depicts (board.request uid pin consumer).2 (table.grant uid pin consumer).2 := by
  unfold Board.request LineTable.grant
  rw [h.offers]
  cases hfound : table.find? uid with
  | none => exact ⟨rfl, h⟩
  | some exposed =>
    have hlength := h.sound.slotted exposed (List.mem_of_find?_eq_some hfound)
    simp only [Option.map_some, Exposed.offer, ← hlength, ← List.getElem?_eq_none_iff]
    rcases hline : exposed.held[pin.toNat]? with _ | _ | owner
    · exact ⟨rfl, h⟩
    · obtain ⟨hslot, -⟩ := List.getElem?_eq_some_iff.mp hline
      exact ⟨rfl, h.setHolder hfound hslot⟩
    · exact ⟨rfl, h⟩

-- What a release does when nothing happens while the line is being freed.
theorem run_release :
    (Operation.release uid pin).process.run (freeing free) table t =
      match table.releasable uid pin with
      | .error fault => (.released (.error fault), table, t)
      | .ok ops => (.released (.ok ()), table.setHolder uid pin none, (free ⟨ops, pin⟩ t).2) := by
  simp only [Operation.process, LineTable.release, Process.bind_eq, Process.run_bind,
    Process.run_get, Process.run_done]
  cases table.releasable uid pin with
  | error fault => rfl
  | ok ops =>
    simp only [Process.run_bind, Process.run_ask, freeing]
    cases (free ⟨ops, pin⟩ t).1 <;> rfl

theorem Depicts.release (h : Depicts board table) (uid : UInt64) (pin : UInt32)
    (free : FreeDemand ω → τ → Except Fault Unit × τ) (t : τ) :
    ∃ table', (Operation.release uid pin).process.run (freeing free) table t =
        (.released (board.release free uid pin t).1, table', (board.release free uid pin t).2.2) ∧
      Depicts (board.release free uid pin t).2.1 table' := by
  rw [run_release]
  unfold Board.release releasable
  rw [h.offers]
  cases hfound : table.find? uid with
  | none => exact ⟨table, rfl, h⟩
  | some exposed =>
    simp only [Option.map_some, Exposed.offer]
    rcases hline : exposed.held[pin.toNat]? with _ | _ | owner
    · exact ⟨table, rfl, h⟩
    · exact ⟨table, rfl, h⟩
    · obtain ⟨hslot, -⟩ := List.getElem?_eq_some_iff.mp hline
      exact ⟨_, rfl, h.setHolder hfound hslot⟩

theorem run_expose :
    (Operation.expose descriptor ops).process.run (freeing free) table t =
      (.exposed (table.add descriptor ops).1, (table.add descriptor ops).2, t) := by
  simp only [Operation.process, expose, Process.bind_eq, Process.run_bind, Process.run_update,
    Process.run_done]
  cases (table.add descriptor ops).1 <;> rfl

theorem run_conceal :
    (Operation.conceal handle).process.run (freeing free) table t =
      (.concealed, (table.remove handle).2, t) := by
  simp only [Operation.process, conceal, Process.bind_eq, Process.run_bind, Process.run_update,
    Process.run_done]
  cases (table.remove handle).1 <;> rfl

theorem run_request :
    (Operation.request uid pin consumer).process.run (freeing free) table t =
      (.requested (table.grant uid pin consumer).1.result,
        (table.grant uid pin consumer).2, t) := by
  simp only [Operation.process, LineTable.request, Process.bind_eq, Process.run_bind,
    Process.run_update, Process.run_done]
  cases (table.grant uid pin consumer).1 <;> rfl

-- A table and the board that depicts it give the same response to every use.
theorem Depicts.perform {use : Use ω} {response : Response ω} {table' : LineTable ω} {t' : τ}
    (h : Depicts board table) (hroom : use.isExposure = true → board.issued + 1 < 2 ^ 64)
    (hperform : use.perform free table t = (response, table', t')) :
    ∃ board', board.perform free use t = (response, board', t') ∧ Depicts board' table' := by
  cases use with
  | call operation =>
    cases operation with
    | expose descriptor ops =>
      obtain ⟨hresult, hdepicts⟩ := h.add descriptor ops (hroom rfl)
      simp only [Use.perform, run_expose, Prod.mk.injEq] at hperform
      obtain ⟨rfl, rfl, rfl⟩ := hperform
      exact ⟨_, by rw [Board.perform, hresult], hdepicts⟩
    | conceal handle =>
      simp only [Use.perform, run_conceal, Prod.mk.injEq] at hperform
      obtain ⟨rfl, rfl, rfl⟩ := hperform
      exact ⟨_, rfl, h.remove⟩
    | request uid pin consumer =>
      obtain ⟨hresult, hdepicts⟩ := h.request uid pin consumer
      simp only [Use.perform, run_request, Prod.mk.injEq] at hperform
      obtain ⟨rfl, rfl, rfl⟩ := hperform
      exact ⟨_, by rw [Board.perform, hresult], hdepicts⟩
    | release uid pin =>
      obtain ⟨table', hrun, hdepicts⟩ := h.release uid pin free t
      simp only [Use.perform, hrun, Prod.mk.injEq] at hperform
      obtain ⟨rfl, rfl, rfl⟩ := hperform
      exact ⟨_, rfl, hdepicts⟩
  | isHeld handle pin =>
    obtain ⟨rfl, rfl, rfl⟩ := hperform
    exact ⟨board, by rw [Board.perform, h.isHeld], h⟩
  | holder uid pin =>
    obtain ⟨rfl, rfl, rfl⟩ := hperform
    exact ⟨board, by rw [Board.perform, h.holder?], h⟩
  | ops uid =>
    obtain ⟨rfl, rfl, rfl⟩ := hperform
    exact ⟨board, by rw [Board.perform, h.ops?], h⟩
  | descriptors =>
    obtain ⟨rfl, rfl, rfl⟩ := hperform
    exact ⟨board, by rw [Board.perform, h.descriptors], h⟩

end Operations

end LineTable

end GpioBridge
