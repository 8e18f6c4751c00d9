import GpioBridge.Proofs.LineTable.Holder

namespace GpioBridge

theorem find?_eq_some_iff_of_nodup {α κ : Type} [DecidableEq κ] {key : α → κ} {l : List α}
    (h : (l.map key).Nodup) {k : κ} {a : α} :
    l.find? (fun a => key a == k) = some a ↔ a ∈ l ∧ key a = k := by
  constructor
  · intro hfound
    exact ⟨List.mem_of_find?_eq_some hfound, by simpa using List.find?_some hfound⟩
  · rintro ⟨hmem, rfl⟩
    cases hfound : l.find? (fun b => key b == key a) with
    | none => exact absurd (List.find?_eq_none.mp hfound a hmem) (by simp)
    | some found =>
      have hkey : key found = key a := by simpa using List.find?_some hfound
      rw [List.inj_on_of_nodup_map h (List.mem_of_find?_eq_some hfound) hmem hkey]

namespace LineTable

variable {ω : Type} {table table' : LineTable ω} {exposed : Exposed ω} {descriptor : Descriptor}
  {ops : ω} {handle : Handle} {uid : UInt64} {pin : UInt32} {holder : Option String}

-- No handle stands for two entries.
def Unambiguous (table : LineTable ω) : Prop := (table.chips.map (·.handle)).Nodup

-- There is one place for each line of an exposed chip.
def Slotted (table : LineTable ω) : Prop :=
  ∀ exposed ∈ table.chips, exposed.held.length = exposed.descriptor.names.length

section Search

theorem find?_eq_some_iff (h : table.Distinct) :
    table.find? uid = some exposed ↔ exposed ∈ table.chips ∧ exposed.descriptor.uid = uid :=
  find?_eq_some_iff_of_nodup h

theorem exposure?_eq_some_iff (h : table.Unambiguous) :
    table.exposure? handle = some exposed ↔ exposed ∈ table.chips ∧ exposed.handle = handle :=
  find?_eq_some_iff_of_nodup h

theorem exposure?_eq_none_iff :
    table.exposure? handle = none ↔ ∀ exposed ∈ table.chips, exposed.handle ≠ handle := by
  simp [exposure?]

-- The order of the entries does not matter.
theorem find?_of_perm (h : table.Distinct) (hperm : table'.chips.Perm table.chips) :
    table'.find? uid = table.find? uid := by
  have h' : table'.Distinct := (hperm.map _).nodup_iff.mpr h
  apply Option.ext
  intro exposed
  rw [find?_eq_some_iff h', find?_eq_some_iff h, hperm.mem_iff]

theorem exposure?_of_perm (h : table.Unambiguous) (hperm : table'.chips.Perm table.chips) :
    table'.exposure? handle = table.exposure? handle := by
  have h' : table'.Unambiguous := (hperm.map _).nodup_iff.mpr h
  apply Option.ext
  intro exposed
  rw [exposure?_eq_some_iff h', exposure?_eq_some_iff h, hperm.mem_iff]

end Search

section SetHolder

theorem exposure?_setHolder :
    (table.setHolder uid pin holder).exposure? handle = (table.exposure? handle).map fun chip =>
      if chip.descriptor.uid = uid then { chip with held := chip.held.set pin.toNat holder }
      else chip := by
  unfold exposure? setHolder
  rw [List.find?_map]
  congr 2
  funext chip
  simp only [Function.comp_apply]
  split <;> rfl

theorem handles_setHolder :
    (table.setHolder uid pin holder).chips.map (·.handle) = table.chips.map (·.handle) := by
  simp only [setHolder, List.map_map]
  refine List.map_congr_left fun chip _ => ?_
  simp only [Function.comp_apply]
  split <;> rfl

theorem slotted_setHolder (h : table.Slotted) (uid : UInt64) (pin : UInt32)
    (holder : Option String) : (table.setHolder uid pin holder).Slotted := by
  intro exposed he
  obtain ⟨old, hold, rfl⟩ := List.mem_map.mp he
  have hlength := h old hold
  split
  · simpa using hlength
  · exact hlength

theorem slotted_grant (h : table.Slotted) (uid : UInt64) (pin : UInt32) (consumer : String) :
    (table.grant uid pin consumer).2.Slotted := by
  unfold grant
  repeat' split
  · exact h
  · exact h
  · exact h
  · exact slotted_setHolder h uid pin (some consumer)

end SetHolder

section Exposures

theorem add_of_fresh (h : table.find? descriptor.uid = none)
    (hold : ∀ exposed ∈ table.chips, exposed.handle ≠ ⟨table.nextHandle⟩) :
    table.add descriptor ops = (.ok ⟨table.nextHandle⟩,
      { nextHandle := table.nextHandle + 1
        chips := table.chips ++
          [⟨⟨table.nextHandle⟩, descriptor, ops, descriptor.names.map fun _ => none⟩] }) := by
  have hkept : table.chips.filter (·.handle != ⟨table.nextHandle⟩) = table.chips :=
    List.filter_eq_self.mpr fun exposed he => bne_iff_ne.mpr (hold exposed he)
  simp [add, h, hkept]

theorem find?_append (new : Exposed ω) (next : UInt64) :
    LineTable.find? ⟨next, table.chips ++ [new]⟩ uid =
      (table.find? uid).or (if new.descriptor.uid = uid then some new else none) := by
  simp only [find?, List.find?_append, List.find?_singleton, beq_iff_eq]

theorem exposure?_append (new : Exposed ω) (next : UInt64) :
    LineTable.exposure? ⟨next, table.chips ++ [new]⟩ handle =
      (table.exposure? handle).or (if new.handle = handle then some new else none) := by
  simp only [exposure?, List.find?_append, List.find?_singleton, beq_iff_eq]

theorem slotted_add (h : table.Slotted) (descriptor : Descriptor) (ops : ω) :
    (table.add descriptor ops).2.Slotted := by
  unfold add
  split
  · exact h
  · intro exposed he
    rcases List.mem_append.mp he with he | he
    · exact h exposed (List.mem_of_mem_filter he)
    · obtain rfl := List.mem_singleton.mp he
      exact List.length_map ..

theorem mem_remove :
    exposed ∈ (table.remove handle).2.chips ↔ exposed ∈ table.chips ∧ exposed.handle ≠ handle := by
  simp [remove]

theorem unambiguous_remove (h : table.Unambiguous) : (table.remove handle).2.Unambiguous :=
  h.sublist (List.filter_sublist.map _)

theorem slotted_remove (h : table.Slotted) : (table.remove handle).2.Slotted :=
  fun exposed he => h exposed (mem_remove.mp he).1

theorem exposure?_remove (h : table.Unambiguous) (other : Handle) :
    (table.remove handle).2.exposure? other =
      if other = handle then none else table.exposure? other := by
  split
  · next heq =>
    subst heq
    exact exposure?_eq_none_iff.mpr fun rival hrival => (mem_remove.mp hrival).2
  · next hne =>
    apply Option.ext
    intro rival
    rw [exposure?_eq_some_iff (unambiguous_remove h), exposure?_eq_some_iff h, mem_remove]
    refine and_congr_left fun hhandle => and_iff_left_of_imp fun _ => ?_
    rwa [hhandle]

-- Concealing an entry ends what is exposed under its uid and nothing else.
theorem find?_remove (h : table.Distinct) (h' : table.Unambiguous) (he : exposed ∈ table.chips)
    (uid : UInt64) :
    (table.remove exposed.handle).2.find? uid =
      if uid = exposed.descriptor.uid then none else table.find? uid := by
  split
  · next heq =>
    subst heq
    refine List.find?_eq_none.mpr fun rival hrival => ?_
    obtain ⟨hmem, hne⟩ := mem_remove.mp hrival
    intro hsame
    rw [List.inj_on_of_nodup_map h hmem he (by simpa using hsame)] at hne
    exact hne rfl
  · next hne =>
    apply Option.ext
    intro rival
    rw [find?_eq_some_iff (distinct_remove h), find?_eq_some_iff h, mem_remove]
    refine and_congr_left fun huid => and_iff_left_of_imp fun hmem hsame => hne ?_
    rw [← huid, List.inj_on_of_nodup_map h' hmem he hsame]

theorem remove_of_absent (h : table.exposure? handle = none) :
    table.remove handle = (none, table) := by
  have hkept : table.chips.filter (·.handle != handle) = table.chips :=
    List.filter_eq_self.mpr fun exposed he => bne_iff_ne.mpr (exposure?_eq_none_iff.mp h exposed he)
  simp [remove, h, hkept]

end Exposures

end LineTable

end GpioBridge
