import GpioBridge.LineTable
import Mathlib.Data.List.Nodup

namespace GpioBridge.LineTable

variable {ω : Type}

-- What granting a line can do.
inductive Grants (uid : UInt64) (pin : UInt32) (consumer : String) (table : LineTable ω) :
    Grant ω → LineTable ω → Prop where
  | refused {fault} : Grants uid pin consumer table (.refused fault) table
  | heldBy {owner} : Grants uid pin consumer table (.heldBy owner) table
  | granted {exposed} (hfound : table.find? uid = some exposed)
      (hfree : exposed.held[pin.toNat]? = some none) :
      Grants uid pin consumer table (.granted exposed.ops)
        (table.setHolder uid pin (some consumer))

variable {table : LineTable ω} {exposed : Exposed ω} {descriptor : Descriptor} {ops : ω}
  {handle : Handle} {uid other : UInt64} {pin line : UInt32} {consumer : String}
  {holder : Option String}

-- No uid is exposed twice.
def Distinct (table : LineTable ω) : Prop := (table.chips.map (·.descriptor.uid)).Nodup

theorem uid_of_find? (h : table.find? uid = some exposed) : exposed.descriptor.uid = uid := by
  simpa using List.find?_some h

theorem find?_of_mem (h : table.Distinct) (hmem : exposed ∈ table.chips) :
    table.find? exposed.descriptor.uid = some exposed := by
  cases hfound : table.find? exposed.descriptor.uid with
  | none => exact absurd (List.find?_eq_none.mp hfound exposed hmem) (by simp)
  | some found =>
    have hsame := uid_of_find? hfound
    rw [List.inj_on_of_nodup_map h (List.mem_of_find?_eq_some hfound) hmem hsame]

section SetHolder

theorem find?_setHolder :
    (table.setHolder other line holder).find? uid = (table.find? uid).map fun chip =>
      if chip.descriptor.uid = other then { chip with held := chip.held.set line.toNat holder }
      else chip := by
  unfold find? setHolder
  rw [List.find?_map]
  congr 2
  funext chip
  simp only [Function.comp_apply]
  split <;> rfl

@[simp]
theorem find?_setHolder_eq_none :
    (table.setHolder other line holder).find? uid = none ↔ table.find? uid = none := by
  rw [find?_setHolder, Option.map_eq_none_iff]

theorem distinct_setHolder (h : table.Distinct) : (table.setHolder other line holder).Distinct := by
  have huids : (table.setHolder other line holder).chips.map (·.descriptor.uid) =
      table.chips.map (·.descriptor.uid) := by
    simp only [setHolder, List.map_map]
    refine List.map_congr_left fun chip _ => ?_
    simp only [Function.comp_apply]
    split <;> rfl
  rwa [Distinct, huids]

theorem holder?_setHolder_none : (table.setHolder uid pin none).holder? uid pin = none := by
  unfold holder?
  rw [find?_setHolder]
  cases hfound : table.find? uid with
  | none => rfl
  | some chip =>
    simp only [Option.map_some, uid_of_find? hfound, if_true, List.getElem?_set_self']
    cases chip.held[pin.toNat]? <;> rfl

theorem holder?_setHolder_of_slot (hfound : table.find? uid = some exposed)
    (hslot : pin.toNat < exposed.held.length) :
    (table.setHolder uid pin holder).holder? uid pin = holder := by
  unfold holder?
  rw [find?_setHolder, hfound]
  simp only [Option.map_some, uid_of_find? hfound, if_true]
  rw [List.getElem?_set_self hslot, Option.join_some]

theorem holder?_setHolder_of_ne (h : (other, line) ≠ (uid, pin)) :
    (table.setHolder other line holder).holder? uid pin = table.holder? uid pin := by
  unfold holder?
  rw [find?_setHolder]
  cases hfound : table.find? uid with
  | none => rfl
  | some chip =>
    simp only [Option.map_some, uid_of_find? hfound]
    split
    · next heq =>
      have hline : line.toNat ≠ pin.toNat := by
        intro hline
        exact h (Prod.ext heq.symm (UInt32.toNat_inj.mp hline))
      rw [List.getElem?_set_ne hline]
    · rfl

end SetHolder

section Grant

theorem grants_grant (uid : UInt64) (pin : UInt32) (consumer : String) (table : LineTable ω) :
    Grants uid pin consumer table (table.grant uid pin consumer).1
      (table.grant uid pin consumer).2 := by
  unfold grant
  cases hfound : table.find? uid with
  | none => exact .refused
  | some exposed =>
    rcases hline : exposed.held[pin.toNat]? with _ | _ | owner <;> simp only [hline]
    · exact .refused
    · exact .granted hfound hline
    · exact .heldBy

theorem holder?_of_free (hfound : table.find? uid = some exposed)
    (hfree : exposed.held[pin.toNat]? = some none) : table.holder? uid pin = none := by
  simp [holder?, hfound, hfree]

theorem exists_of_releasable (h : table.releasable uid pin = .ok ops) :
    ∃ exposed, table.find? uid = some exposed ∧ exposed.ops = ops := by
  unfold releasable at h
  cases hfound : table.find? uid with
  | none =>
    rw [hfound] at h
    cases h
  | some exposed =>
    rw [hfound] at h
    rcases hline : exposed.held[pin.toNat]? with _ | _ | owner <;> simp only [hline] at h <;> cases h
    exact ⟨exposed, rfl, rfl⟩

-- A line that is granted is not one that somebody holds.
theorem holder?_setHolder_of_held {rival : String} (h : table.holder? uid pin = some consumer)
    (hfound : table.find? other = some exposed) (hfree : exposed.held[line.toNat]? = some none) :
    (table.setHolder other line (some rival)).holder? uid pin = some consumer := by
  rw [holder?_setHolder_of_ne, h]
  rintro hsame
  obtain ⟨rfl, rfl⟩ := Prod.mk.inj hsame
  rw [holder?_of_free hfound hfree] at h
  cases h

end Grant

section Exposures

theorem distinct_add (h : table.Distinct) : (table.add descriptor ops).2.Distinct := by
  unfold add
  split
  · exact h
  · next hunused =>
    have hnew : table.find? descriptor.uid = none := by simpa using hunused
    rw [Distinct, List.map_append, List.map_singleton, List.nodup_append]
    refine ⟨h.sublist (List.filter_sublist.map _), List.nodup_singleton _, ?_⟩
    rintro _ hused _ hdescriptor rfl
    obtain rfl := List.mem_singleton.mp hdescriptor
    obtain ⟨chip, hchip, huid⟩ := List.mem_map.mp hused
    exact List.find?_eq_none.mp hnew chip (List.mem_of_mem_filter hchip) (by simp [huid])

theorem distinct_remove (h : table.Distinct) : (table.remove handle).2.Distinct :=
  h.sublist (List.filter_sublist.map _)

-- A uid that is exposed afterwards too is exposed as it was.
theorem find?_of_remove (h : table.Distinct)
    (hfound : (table.remove handle).2.find? uid = some exposed) :
    table.find? uid = some exposed := by
  have hmem : exposed ∈ table.chips :=
    List.mem_of_mem_filter (List.mem_of_find?_eq_some hfound)
  rw [← uid_of_find? hfound]
  exact find?_of_mem h hmem

theorem find?_of_add (h : table.Distinct) (hexposed : table.find? uid ≠ none)
    (hfound : (table.add descriptor ops).2.find? uid = some exposed) :
    table.find? uid = some exposed := by
  have huid := uid_of_find? hfound
  unfold add at hfound
  split at hfound
  · exact hfound
  · next hunused =>
    rcases List.mem_append.mp (List.mem_of_find?_eq_some hfound) with hmem | hmem
    · rw [← huid]
      exact find?_of_mem h (List.mem_of_mem_filter hmem)
    · -- The new exposure has a uid that was not exposed.
      obtain rfl := List.mem_singleton.mp hmem
      subst huid
      exact absurd (by simpa using hunused) hexposed

theorem find?_ne_none_of_holder? (h : table.holder? uid pin = some consumer) :
    table.find? uid ≠ none := by
  intro hnone
  simp [holder?, hnone] at h

theorem holder?_remove (h : table.Distinct) (hstays : (table.remove handle).2.find? uid ≠ none) :
    (table.remove handle).2.holder? uid pin = table.holder? uid pin := by
  obtain ⟨exposed, hfound⟩ := Option.ne_none_iff_exists'.mp hstays
  rw [holder?, holder?, hfound, find?_of_remove h hfound]

theorem holder?_add (h : table.Distinct) (hexposed : table.find? uid ≠ none)
    (hstays : (table.add descriptor ops).2.find? uid ≠ none) :
    (table.add descriptor ops).2.holder? uid pin = table.holder? uid pin := by
  obtain ⟨exposed, hfound⟩ := Option.ne_none_iff_exists'.mp hstays
  rw [holder?, holder?, hfound, find?_of_add h hexposed hfound]

end Exposures

end GpioBridge.LineTable
