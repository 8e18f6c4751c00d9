import GpioBridge.Proofs.LineTable.Depiction

namespace GpioBridge.LineTable

variable {ω τ : Type}

-- Between two uses the entries may come to stand in any order.
inductive History (free : FreeDemand ω → τ → Except Fault Unit × τ) (start : τ) :
    List (Use ω × Response ω) → LineTable ω → τ → Prop where
  | blank : History free start [] {} start
  | reordered {history table t chips} (h : History free start history table t)
      (hperm : chips.Perm table.chips) :
      History free start history { table with chips := chips } t
  | use {history table t use response table' t'} (h : History free start history table t)
      (hperform : use.perform free table t = (response, table', t')) :
      History free start (history ++ [(use, response)]) table' t'

def issued? : Use ω × Response ω → Option Handle
  | (_, .outcome (.exposed (.ok handle))) => some handle
  | _ => none

-- The handles given out so far.
def issues (history : List (Use ω × Response ω)) : List Handle := history.filterMap issued?

def exposures (history : List (Use ω × Response ω)) : Nat := history.countP (·.1.isExposure)

-- A handle that was not given out so far, or was taken back after it had been.
def Spent (history : List (Use ω × Response ω)) (handle : Handle) : Prop :=
  handle ∉ issues history ∨
    ∃ before response after, history = before ++ (.call (.conceal handle), response) :: after ∧
      handle ∈ issues before

-- What is always true of a table with such a history.
structure Orderly (free : FreeDemand ω → τ → Except Fault Unit × τ)
    (history : List (Use ω × Response ω)) (table : LineTable ω) (t : τ) : Prop where
  distinct : table.Distinct
  slotted : table.Slotted
  issues : (issues history).Nodup
  spent : ∀ handle, Spent history handle → (∀ pin, table.isHeld handle pin = false) ∧
    (Operation.conceal handle).process.run (freeing free) table t = (.concealed, table, t)
  isHeld : ∀ exposed ∈ table.chips, ∀ pin,
    table.isHeld exposed.handle pin = (table.holder? exposed.descriptor.uid pin).isSome
  listed : table.descriptors.Perm (table.chips.map (·.descriptor))
  sorted : table.descriptors.Pairwise (·.uid < ·.uid)
  release : ∀ uid pin consumer, table.holder? uid pin = some consumer →
    ∃ exposed ∈ table.chips, exposed.descriptor.uid = uid ∧
      (Operation.release uid pin).process.run (freeing free) table t =
        (.released (.ok ()), table.setHolder uid pin none, (free ⟨exposed.ops, pin⟩ t).2) ∧
      (table.setHolder uid pin none).holder? uid pin = none

variable {free : FreeDemand ω → τ → Except Fault Unit × τ} {start t t' : τ}
  {history : List (Use ω × Response ω)} {entry : Use ω × Response ω} {use : Use ω}
  {response : Response ω} {board board' : Board ω} {table table' : LineTable ω} {handle : Handle}

section Issues

theorem issues_append :
    issues (history ++ [entry]) = issues history ++ (issued? entry).toList := by
  rw [issues, List.filterMap_append, issues]
  cases hissued : issued? entry <;> simp [hissued]

theorem exposures_append :
    exposures (history ++ [entry]) = exposures history + if entry.1.isExposure then 1 else 0 := by
  simp [exposures, List.countP_append, List.countP_singleton]

theorem spent_of_append (h : Spent (history ++ [entry]) handle) :
    entry.1 = .call (.conceal handle) ∨
      (Spent history handle ∧ (issued? entry = some handle → handle ∈ issues history)) := by
  rcases h with hnever | ⟨before, response, after, hsplit, hbefore⟩
  · rw [issues_append, List.mem_append, not_or] at hnever
    refine .inr ⟨.inl hnever.1, fun hissued => absurd ?_ hnever.2⟩
    simp [hissued]
  · rcases List.eq_nil_or_concat after with rfl | ⟨after', last, rfl⟩
    · obtain ⟨-, hentry⟩ := List.append_inj' hsplit rfl
      left
      rw [List.head_eq_of_cons_eq hentry]
    · rw [List.concat_eq_append, ← List.cons_append, ← List.append_assoc] at hsplit
      obtain ⟨rfl, -⟩ := List.append_inj' hsplit rfl
      refine .inr ⟨.inr ⟨before, response, after', rfl, hbefore⟩, fun _ => ?_⟩
      rw [issues, List.filterMap_append]
      exact List.mem_append_left _ hbefore

-- A use gives out the next handle or none.
theorem issued_of_perform (hperform : board.perform free use t = (response, board', t')) :
    (issued? (use, response) = none ∧ board'.issued = board.issued) ∨
      (use.isExposure = true ∧ issued? (use, response) = some ⟨UInt64.ofNat board.issued⟩ ∧
        board'.issued = board.issued + 1) := by
  cases use with
  | call operation =>
    cases operation with
    | expose descriptor ops =>
      obtain ⟨rfl, rfl, rfl⟩ := hperform
      unfold Board.add
      cases board.offers.get? descriptor.uid with
      | some offer => exact .inl ⟨rfl, rfl⟩
      | none => exact .inr ⟨rfl, rfl, rfl⟩
    | conceal handle =>
      obtain ⟨rfl, rfl, rfl⟩ := hperform
      refine .inl ⟨rfl, ?_⟩
      unfold Board.remove
      cases board.uidOf handle <;> rfl
    | request uid pin consumer =>
      obtain ⟨rfl, rfl, rfl⟩ := hperform
      refine .inl ⟨rfl, ?_⟩
      unfold Board.request
      repeat' split
      all_goals rfl
    | release uid pin =>
      obtain ⟨rfl, rfl, rfl⟩ := hperform
      refine .inl ⟨rfl, ?_⟩
      repeat' split
      all_goals rfl
  | isHeld | holder | ops | descriptors =>
    obtain ⟨rfl, rfl, rfl⟩ := hperform
    exact .inl ⟨rfl, rfl⟩

-- A handle that stands for nothing is not made to stand for something but by giving it out.
theorem uidOf_of_perform (hperform : board.perform free use t = (response, board', t'))
    (hnone : board.uidOf handle = none) (hother : issued? (use, response) ≠ some handle) :
    board'.uidOf handle = none := by
  cases use with
  | call operation =>
    cases operation with
    | expose descriptor ops =>
      obtain ⟨rfl, rfl, rfl⟩ := hperform
      unfold Board.add at hother ⊢
      cases hoffer : board.offers.get? descriptor.uid with
      | some offer => exact hnone
      | none =>
        simp only [hoffer] at hother ⊢
        rw [Function.update_of_ne, hnone]
        rintro rfl
        exact hother rfl
    | conceal other =>
      obtain ⟨rfl, rfl, rfl⟩ := hperform
      unfold Board.remove
      cases board.uidOf other with
      | none => exact hnone
      | some uid =>
        simp only [Function.update_apply, hnone]
        split <;> rfl
    | request uid pin consumer =>
      obtain ⟨rfl, rfl, rfl⟩ := hperform
      unfold Board.request
      repeat' split
      all_goals exact hnone
    | release uid pin =>
      obtain ⟨rfl, rfl, rfl⟩ := hperform
      repeat' split
      all_goals exact hnone
  | isHeld | holder | ops | descriptors =>
    obtain ⟨rfl, rfl, rfl⟩ := hperform
    exact hnone

theorem uidOf_remove : (board.remove handle).uidOf handle = none := by
  unfold Board.remove
  cases huid : board.uidOf handle with
  | none => exact huid
  | some uid => exact Function.update_self ..

end Issues

section Run

-- What a board knows of a history it followed.
structure Kept (free : FreeDemand ω → τ → Except Fault Unit × τ) (start : τ)
    (history : List (Use ω × Response ω)) (board : Board ω) (t : τ) : Prop where
  responses : Board.performAll free (history.map (·.1)) {} start = (history.map (·.2), board, t)
  counted : board.issued ≤ exposures history
  numbered : (issues history).map (·.number.toNat) = List.range board.issued
  spent : ∀ handle, Spent history handle → board.uidOf handle = none

theorem kept_blank : Kept free start [] {} start where
  responses := rfl
  counted := Nat.le_refl 0
  numbered := rfl
  spent _ _ := rfl

theorem toNat_ofNat_of_room {n : Nat} (h : n + 1 < 2 ^ 64) : (UInt64.ofNat n).toNat = n :=
  UInt64.toNat_ofNat_of_lt' (by rw [UInt64.size]; omega)

theorem Kept.perform (h : Kept free start history board t)
    (hfew : exposures (history ++ [(use, response)]) < 2 ^ 64)
    (hperform : board.perform free use t = (response, board', t')) :
    Kept free start (history ++ [(use, response)]) board' t' where
  responses := by
    rw [List.map_append, List.map_append, Board.performAll_append, h.responses]
    simp [Board.performAll, hperform]
  counted := by
    rw [exposures_append]
    have hcounted := h.counted
    rcases issued_of_perform hperform with ⟨-, hissued⟩ | ⟨hexposure, -, hissued⟩
    · omega
    · simp only [hexposure, if_true]
      omega
  numbered := by
    rw [exposures_append] at hfew
    have hcounted := h.counted
    rw [issues_append, List.map_append, h.numbered]
    rcases issued_of_perform hperform with ⟨hnone, hissued⟩ | ⟨hexposure, hsome, hissued⟩
    · rw [hnone, hissued, Option.toList_none, List.map_nil, List.append_nil]
    · simp only [hexposure, if_true] at hfew
      have hnumber := toNat_ofNat_of_room (n := board.issued) (by omega)
      rw [hsome, hissued, Option.toList_some, List.map_singleton, hnumber, List.range_succ]
  spent handle hspent := by
    rcases spent_of_append hspent with hconceal | ⟨hbefore, hissued⟩
    · obtain rfl : use = .call (.conceal handle) := hconceal
      obtain ⟨-, rfl, -⟩ := hperform
      exact uidOf_remove
    · refine uidOf_of_perform hperform (h.spent handle hbefore) fun hsame => ?_
      -- A handle that was given out before has a smaller number.
      have hmem := List.mem_map_of_mem (f := (·.number.toNat)) (hissued hsame)
      rw [h.numbered, List.mem_range] at hmem
      rw [exposures_append] at hfew
      have hcounted := h.counted
      rcases issued_of_perform hperform with ⟨hnone, -⟩ | ⟨hexposure, hsome, -⟩
      · rw [hnone] at hsame
        cases hsame
      · simp only [hexposure, if_true] at hfew
        obtain rfl := Option.some_inj.mp (hsome.symm.trans hsame)
        rw [toNat_ofNat_of_room (n := board.issued) (by omega)] at hmem
        exact Nat.lt_irrefl _ hmem

theorem exists_kept (h : History free start history table t) (hfew : exposures history < 2 ^ 64) :
    ∃ board, Kept free start history board t ∧ Depicts board table := by
  induction h with
  | blank => exact ⟨{}, kept_blank, depicts_blank⟩
  | reordered _ hperm ih =>
    obtain ⟨board, hkept, hdepicts⟩ := ih hfew
    exact ⟨board, hkept, hdepicts.perm hperm⟩
  | @use history table t use response table' t' _ hperform ih =>
    rw [exposures_append] at hfew
    obtain ⟨board, hkept, hdepicts⟩ := ih (by omega)
    have hroom : use.isExposure = true → board.issued + 1 < 2 ^ 64 := by
      intro hexposure
      have hcounted := hkept.counted
      simp only [hexposure, if_true] at hfew
      omega
    obtain ⟨board', hboard, hdepicts'⟩ := hdepicts.perform hroom hperform
    exact ⟨board', hkept.perform (by rwa [exposures_append]) hboard, hdepicts'⟩

theorem isHeld_of_absent (h : table.exposure? handle = none) (pin : UInt32) :
    table.isHeld handle pin = false := by
  simp [isHeld, h]

theorem orderly_of_kept (h : Kept free start history board t) (hd : Depicts board table) :
    Orderly free history table t where
  distinct := hd.sound.distinct
  slotted := hd.sound.slotted
  issues := by
    have hnodup : ((issues history).map (·.number.toNat)).Nodup := by
      rw [h.numbered]
      exact List.nodup_range
    exact List.Nodup.of_map _ hnodup
  spent handle hspent := by
    have hnone := h.spent handle hspent
    rw [hd.uidOf, Option.map_eq_none_iff] at hnone
    exact ⟨isHeld_of_absent hnone, by rw [run_conceal, remove_of_absent hnone]⟩
  isHeld exposed he pin := hd.sound.isHeld_eq he pin
  listed := perm_descriptors
  sorted := pairwise_descriptors hd.sound.distinct
  release uid pin consumer hheld := by
    obtain ⟨exposed, hfound⟩ := Option.ne_none_iff_exists'.mp (find?_ne_none_of_holder? hheld)
    have hline : exposed.held[pin.toNat]? = some (some consumer) := by
      rw [holder?_of_found hfound] at hheld
      exact Option.join_eq_some_iff.mp hheld
    refine ⟨exposed, List.mem_of_find?_eq_some hfound, uid_of_find? hfound, ?_,
      holder?_setHolder_none⟩
    simp only [run_release, releasable, hfound, hline]

-- A table is used like a map from uids to offers.
theorem orderly_of_history (h : History free start history table t)
    (hfew : exposures history < 2 ^ 64) :
    (∃ board, Board.performAll free (history.map (·.1)) {} start =
        (history.map (·.2), board, t) ∧ Depicts board table) ∧
      Orderly free history table t := by
  obtain ⟨board, hkept, hdepicts⟩ := exists_kept h hfew
  exact ⟨⟨board, hkept.responses, hdepicts⟩, orderly_of_kept hkept hdepicts⟩

end Run

section Reexposure

def opened : Descriptor := ⟨5, "left", ["reset", "boot"]⟩

def added : Descriptor := ⟨3, "right", []⟩

-- Freeing a line fails, but it is remembered that it was tried.
def failing (demand : FreeDemand Bool) (tried : List UInt32) :
    Except Fault Unit × List UInt32 :=
  (.error .brokenPipe, demand.pin :: tried)

def reexposure : List (Use Bool × Response Bool) :=
  [(.call (.expose opened true), .outcome (.exposed (.ok ⟨0⟩))),
    (.call (.request 5 1 "tool"), .outcome (.requested (.ok true))),
    (.isHeld ⟨0⟩ 1, .isHeld true),
    (.call (.release 5 1), .outcome (.released (.ok ()))),
    (.call (.conceal ⟨0⟩), .outcome .concealed),
    (.call (.expose opened false), .outcome (.exposed (.ok ⟨1⟩))),
    (.call (.expose added true), .outcome (.exposed (.ok ⟨2⟩))),
    (.call (.request 5 0 "tool"), .outcome (.requested (.ok false)))]

def reexposed : LineTable Bool :=
  ⟨3, [⟨⟨2⟩, added, true, []⟩, ⟨⟨1⟩, opened, false, [some "tool", none]⟩]⟩

theorem history_reexposure : History failing [] reexposure reexposed [1] := by
  have hpushed : History failing [] reexposure ⟨3, reexposed.chips.reverse⟩ [1] :=
    .use (.use (.use (.use (.use (.use (.use (.use .blank rfl) rfl) rfl) rfl) rfl) rfl) rfl) rfl
  exact hpushed.reordered (List.reverse_perm _).symm

theorem spent_reexposure : Spent reexposure ⟨0⟩ :=
  .inr ⟨reexposure.take 4, .outcome .concealed, reexposure.drop 5, rfl, by decide⟩

-- The handle of the first exposure says nothing about the second.
theorem orderly_reexposure :
    History failing [] reexposure reexposed [1] ∧ exposures reexposure < 2 ^ 64 ∧
      (∃ board, Board.performAll failing (reexposure.map (·.1)) {} [] =
          (reexposure.map (·.2), board, [1]) ∧ Depicts board reexposed) ∧
      (Spent reexposure ⟨0⟩ ∧ reexposed.isHeld ⟨0⟩ 0 = false) ∧
      reexposed.isHeld ⟨1⟩ 0 = true := by
  have hfew : exposures reexposure < 2 ^ 64 := by decide
  obtain ⟨hboard, horderly⟩ := orderly_of_history history_reexposure hfew
  exact ⟨history_reexposure, hfew, hboard,
    ⟨spent_reexposure, (horderly.spent ⟨0⟩ spent_reexposure).1 0⟩, by decide⟩

end Reexposure

end GpioBridge.LineTable
