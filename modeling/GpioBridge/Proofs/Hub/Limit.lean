import GpioBridge.Proofs.Hub.Order

namespace GpioBridge.Hub

-- The uids that name a chip that counts, each with that chip.
def liveEntries (hub : Hub) : List (UInt64 × ChipId) :=
  hub.registry.entries.filter fun entry => (hub.chip entry.2).isLive

theorem length_liveEntries (hub : Hub) : hub.liveEntries.length = hub.liveCount := by
  simp [liveEntries, liveCount, mapped, UidMap.values, List.countP_eq_length_filter, List.filter_map,
    Function.comp_def]

theorem mem_liveEntries {hub : Hub} {uid : UInt64} {id : ChipId} :
    (uid, id) ∈ hub.liveEntries ↔ hub.find? uid = some id ∧ (hub.chip id).isLive = true := by
  rw [liveEntries, List.mem_filter, find?, UidMap.get?_eq_some_iff]

theorem nodup_liveEntries (hub : Hub) : hub.liveEntries.Nodup := by
  have hkeys : hub.registry.entries.Nodup := hub.registry.ascending.imp fun {a b} hlt heq => by
    rw [heq] at hlt
    exact UInt64.lt_irrefl _ hlt
  exact hkeys.filter _

-- Entries are distinct, so a hub has at most as many as it is known to have them among others.
theorem liveCount_le_of_subset {hub : Hub} {entries : List (UInt64 × ChipId)}
    (h : hub.liveEntries ⊆ entries) : hub.liveCount ≤ entries.length := by
  rw [← length_liveEntries]
  exact hub.nodup_liveEntries.length_le_of_subset h

section Steps

variable {hub hub' : Hub} {g g' : Stage} {others : List Stage}

theorem isLive_eq_of_keeps (h : Keeps hub hub') (id : ChipId) :
    (hub'.chip id).isLive = (hub.chip id).isLive := by
  rw [Chip.isLive, Chip.isLive, h.initialized, h.registered]

theorem liveEntries_subset_of_keeps (h : Keeps hub hub') : hub'.liveEntries ⊆ hub.liveEntries := by
  rintro ⟨uid, id⟩ hentry
  obtain ⟨hf, hlive⟩ := mem_liveEntries.mp hentry
  rw [isLive_eq_of_keeps h] at hlive
  exact mem_liveEntries.mpr ⟨h.mapped hf, hlive⟩

-- Only an enlistment adds to what counts. A chip that comes to be recorded as exposed is ready
-- while it is mapped, and one that is made ready again is still recorded as exposed.
theorem liveEntries_subset_of_steps {change : Hub → Hub} (hs : Stage.Steps g change hub g')
    (h : Ordered hub (g :: others)) (hg : ∀ r, g ≠ .registering r) :
    (change hub).liveEntries ⊆ hub.liveEntries := by
  rintro ⟨uid, id⟩ hentry
  obtain ⟨hf', hlive⟩ := mem_liveEntries.mp hentry
  have hf : hub.find? uid = some id :=
    (find?_of_steps hs hf').resolve_right fun ⟨r, heq, _⟩ => hg r heq
  have hmarks := marks_of_steps hs (h.named hf)
  refine mem_liveEntries.mpr ⟨hf, ?_⟩
  rw [Chip.isLive, Bool.or_eq_true] at hlive ⊢
  rcases hlive with hi | hr
  · rcases hmarks.initialized hi with hi | ⟨handle, rfl⟩
    · exact .inl hi
    · exact .inr ((h.suspended _ List.mem_cons_self id rfl).2.2 rfl)
  · rcases hmarks.registered hr with hr | ⟨handle, rfl⟩
    · exact .inr hr
    · exact .inl ((h.made _ List.mem_cons_self id rfl).ready uid hf)

theorem limit_enlist (r : Registration) (hub : Hub) : (enlist r hub).2.limit = hub.limit := by
  have he := enlists_enlist r hub
  generalize (enlist r hub).1 = enlistment at he
  generalize (enlist r hub).2 = hub' at he ⊢
  cases he <;> rfl

theorem limit_suspend (id : ChipId) (hub : Hub) : (suspend id hub).2.limit = hub.limit := by
  have hs := suspends_suspend id hub
  generalize (suspend id hub).1 = suspension at hs
  generalize (suspend id hub).2 = hub' at hs ⊢
  cases hs <;> rfl

theorem limit_unmap (uid : UInt64) (id : ChipId) (hub : Hub) :
    (unmap uid id hub).limit = hub.limit := by
  unfold unmap
  split <;> rfl

-- The limit is there to stay.
theorem limit_of_steps {change : Hub → Hub} (hs : Stage.Steps g change hub g') :
    (change hub).limit = hub.limit := by
  by_cases hidle : g.idle = true
  · have hlimit := congrArg Hub.limit (Stage.outline_of_steps hs hidle).1
    exact hlimit
  cases hs with
  | @enlist r => exact limit_enlist r hub
  | @unmap uid id => exact limit_unmap uid id hub
  | @suspend id => exact limit_suspend id hub
  | _ => first | rfl | exact absurd rfl hidle

end Steps

section Enlistment

variable {hub : Hub} {r : Registration} {n : Nat}

-- The uid names no chip that counts.
def Vacant (hub : Hub) (uid : UInt64) : Prop :=
  ∀ id, hub.find? uid = some id → (hub.chip id).isLive = false

-- The hub without the chip its uid names.
def cleared (uid : UInt64) (hub : Hub) : Hub :=
  match hub.find? uid with
  | some id => hub.evict uid id
  | none => hub

theorem keeps_cleared (uid : UInt64) (hub : Hub) : Keeps hub (hub.cleared uid) := by
  unfold cleared
  split
  · exact keeps_evict uid _ hub
  · exact ⟨fun _ => Iff.rfl, fun _ => rfl, fun _ => rfl, fun hf => hf⟩

theorem find?_cleared (uid other : UInt64) (hub : Hub) :
    (hub.cleared uid).find? other = if other = uid then none else hub.find? other := by
  unfold cleared
  split
  · exact find?_evict ..
  · next hnone =>
    split
    · next heq => rw [heq, hnone]
    · rfl

theorem nextId_cleared (uid : UInt64) (hub : Hub) : (hub.cleared uid).nextId = hub.nextId := by
  unfold cleared
  split
  · exact nextId_evict ..
  · rfl

theorem limit_cleared (uid : UInt64) (hub : Hub) : (hub.cleared uid).limit = hub.limit := by
  unfold cleared
  split <;> rfl

-- A chip that is cleared away did not count.
theorem liveCount_cleared {uid : UInt64} (h : hub.Vacant uid) :
    (hub.cleared uid).liveCount = hub.liveCount := by
  have hkeeps := keeps_cleared uid hub
  apply Nat.le_antisymm
  · rw [← length_liveEntries hub]
    exact liveCount_le_of_subset (liveEntries_subset_of_keeps hkeeps)
  rw [← length_liveEntries (hub.cleared uid)]
  refine liveCount_le_of_subset ?_
  rintro ⟨other, id⟩ hentry
  obtain ⟨hf, hlive⟩ := mem_liveEntries.mp hentry
  refine mem_liveEntries.mpr ⟨?_, (isLive_eq_of_keeps hkeeps id).trans hlive⟩
  rw [find?_cleared, if_neg]
  · exact hf
  · rintro rfl
    rw [h id hf] at hlive
    cases hlive

theorem enlist_of_vacant (h : hub.Vacant r.uid) :
    enlist r hub = (⟨(hub.find? r.uid).isSome, ((hub.cleared r.uid).enlistFresh r).1⟩,
      ((hub.cleared r.uid).enlistFresh r).2) := by
  unfold enlist cleared
  cases hf : hub.find? r.uid with
  | none => rfl
  | some id =>
    obtain ⟨hi, hr⟩ := Bool.or_eq_false_iff.mp (h id hf)
    simp [hi, hr]

theorem enlist_of_not_vacant (h : ¬hub.Vacant r.uid) :
    ∃ fault, enlist r hub = (⟨false, .error fault⟩, hub) := by
  obtain ⟨id, hf, hlive⟩ : ∃ id, hub.find? r.uid = some id ∧ (hub.chip id).isLive = true := by
    simpa [Vacant] using h
  by_cases hi : (hub.chip id).initialized = true
  · exact ⟨.uidInUse r.uid, by simp [enlist, hf, hi]⟩
  · rw [Chip.isLive, Bool.or_eq_true, or_iff_right hi] at hlive
    exact ⟨.busy, by simp [enlist, hf, hi, hlive]⟩

-- While there is room, the uid is given a new chip.
theorem enlist_of_room (h : hub.Vacant r.uid) (hlimit : hub.limit = some n)
    (hroom : hub.liveCount < n) :
    (enlist r hub).1.outcome = .ok hub.nextId ∧ (enlist r hub).2 = (hub.cleared r.uid).enlisted r := by
  rw [enlist_of_vacant h]
  rcases enlistFresh_cases r (hub.cleared r.uid) with ⟨limit, hl, hfull, -⟩ | hfresh
  · rw [limit_cleared, hlimit] at hl
    rw [liveCount_cleared h] at hfull
    cases hl
    omega
  · rw [hfresh, nextId_cleared]
    exact ⟨rfl, rfl⟩

theorem enlist_of_full (h : hub.Vacant r.uid) (hlimit : hub.limit = some n)
    (hfull : n ≤ hub.liveCount) :
    (enlist r hub).1.outcome = .error (.chipLimit n) ∧ (enlist r hub).2 = hub.cleared r.uid := by
  have hcleared := liveCount_cleared h
  rw [enlist_of_vacant h, enlistFresh, limit_cleared, hlimit]
  simp [hcleared, hfull]

-- A new chip is one more that counts.
theorem liveCount_enlisted_le (hnamed : ∀ {uid id}, hub.find? uid = some id → hub.Has id) :
    (hub.enlisted r).liveCount ≤ hub.liveCount + 1 := by
  have hsub : (hub.enlisted r).liveEntries ⊆ (r.uid, hub.nextId) :: hub.liveEntries := by
    rintro ⟨uid, id⟩ hentry
    obtain ⟨hf, hlive⟩ := mem_liveEntries.mp hentry
    rw [find?_enlisted] at hf
    split at hf
    · next huid =>
      cases hf
      rw [huid]
      exact List.mem_cons_self
    · rw [chip_enlisted_of_has (hnamed hf)] at hlive
      exact List.mem_cons_of_mem _ (mem_liveEntries.mpr ⟨hf, hlive⟩)
  have hle := liveCount_le_of_subset hsub
  rwa [List.length_cons, length_liveEntries] at hle

theorem liveCount_enlist_le (hnamed : ∀ {uid id}, hub.find? uid = some id → hub.Has id)
    (hlimit : hub.limit = some n) (h : hub.liveCount ≤ n) : (enlist r hub).2.liveCount ≤ n := by
  by_cases hvacant : hub.Vacant r.uid
  · rcases Nat.lt_or_ge hub.liveCount n with hroom | hfull
    · rw [(enlist_of_room hvacant hlimit hroom).2]
      have hkeeps := keeps_cleared r.uid hub
      have hnew := liveCount_enlisted_le (r := r) fun {uid id} hf =>
        (hkeeps.has id).mpr (hnamed (hkeeps.mapped hf))
      rw [liveCount_cleared hvacant] at hnew
      omega
    · rw [(enlist_of_full hvacant hlimit hfull).2, liveCount_cleared hvacant]
      exact h
  · obtain ⟨fault, he⟩ := enlist_of_not_vacant hvacant
    rw [he]
    exact h

-- The first thing a registration that passes the rules does is to enlist its chip; it ends there if
-- that fails.
theorem process_register (hcheck : r.check = .ok ()) :
    ∃ next, (Operation.register r).process = .step (fun hub => (enlist r hub).2) next ∧
      ∀ hub, (next hub).result? = match (enlist r hub).1.outcome with
        | .error fault => some (.chip (.error fault))
        | .ok _ => none := by
  simp only [Operation.process, register, hcheck, Process.bind_eq, Process.pure_eq,
    Process.update_bind, Process.log_bind]
  refine ⟨_, rfl, fun hub => ?_⟩
  dsimp only
  cases (enlist r hub).1.outcome with
  | error fault => cases (enlist r hub).1.evicted <;> rfl
  | ok id => cases (enlist r hub).1.evicted <;> rfl

end Enlistment

section Run

variable {τ : Type} {answers : (demand : Demand) → τ → demand.Answer → τ → Prop} {n : Nat}

-- What is within the limit stays so.
theorem Ordered.within {hub hub' : Hub} {t t' : τ} {g g' : Stage} {others : List Stage}
    (h : Ordered hub (g :: others)) (hgoes : plan.Goes answers g hub t g' hub' t')
    (hlimit : hub.limit = some n) (hn : hub.liveCount ≤ n) :
    hub'.limit = some n ∧ hub'.liveCount ≤ n := by
  cases hgoes with
  | ask => exact ⟨hlimit, hn⟩
  | step hs =>
    refine ⟨(limit_of_steps hs).trans hlimit, ?_⟩
    by_cases hg : ∃ r, g = .registering r
    · obtain ⟨r, rfl⟩ := hg
      cases hs with
      | enlist => exact liveCount_enlist_le h.named hlimit hn
    · have hle := liveCount_le_of_subset
        (liveEntries_subset_of_steps hs h fun r heq => hg ⟨r, heq⟩)
      rw [length_liveEntries] at hle
      exact hle.trans hn

theorem within_of_advances {hub hub' : Hub} {t t' : τ} {calls calls' : List (Operation × Stage)}
    (h : Ordered hub (calls.map (·.2)))
    (hstep : plan.Advances answers Operation.stage Stage.WaitsFor calls hub t calls' hub' t')
    (hlimit : hub.limit = some n) (hn : hub.liveCount ≤ n) :
    hub'.limit = some n ∧ hub'.liveCount ≤ n := by
  cases hstep with
  | call => exact ⟨hlimit, hn⟩
  | note => exact ⟨hlimit, hn⟩
  | @move before after i g _ _ _ _ _ hgoes _ =>
    exact (h.perm (Plan.perm_middle before after i g)).within hgoes hlimit hn

theorem within_of_run {patience : UInt64} {around : τ}
    {last : Pool Hub τ Demand Demand.Answer Operation Outcome}
    (hrun : Relation.ReflTransGen (Pool.Step (rules answers WaitsFor))
      ⟨{ limit := some n, patience }, around, []⟩ last) :
    last.state.limit = some n ∧ last.state.liveCount ≤ n ∧
      ∃ stages, plan.Stands Ended last.calls stages ∧
        Ordered last.state (stages.map (·.2)) := by
  induction hrun with
  | refl => exact ⟨rfl, Nat.zero_le n, [], .nil, ordered_empty (some n) patience⟩
  | tail _ hstep ih =>
    obtain ⟨hlimit, hn, stages, hstands, hordered⟩ := ih
    obtain ⟨stages', hstands', hadvances⟩ :=
      Plan.advances_of_step follows_process waitsFor_of_follows hstep hstands
    obtain ⟨hlimit', hn'⟩ := within_of_advances hordered hadvances hlimit hn
    exact ⟨hlimit', hn', stages', hstands', hordered.advance hadvances⟩

-- Whatever operations are under way and however the framework answers them, no more chips than the
-- limit allows are ready or exposed. A registration of a uid that names no such chip is decided by
-- its first step: it is refused if there are as many as the limit allows, and otherwise the uid is
-- given a new chip.
theorem liveCount_le_limit {patience : UInt64} {around : τ}
    {last : Pool Hub τ Demand Demand.Answer Operation Outcome}
    (hrun : Relation.ReflTransGen (Pool.Step (rules answers WaitsFor))
      ⟨{ limit := some n, patience }, around, []⟩ last) :
    last.state.liveCount ≤ n ∧
    ∀ r : Registration, r.check = .ok () → last.state.Vacant r.uid →
      ∃ change next, (Operation.register r).process = .step change next ∧
        ((next last.state).result? = some (.chip (.error (.chipLimit n))) ↔
          last.state.liveCount = n) ∧
        (last.state.liveCount ≠ n →
          (next last.state).result? = none ∧
            (change last.state).find? r.uid = some last.state.nextId) := by
  obtain ⟨hlimit, hn, -⟩ := within_of_run hrun
  refine ⟨hn, fun r hcheck hvacant => ?_⟩
  obtain ⟨next, hprocess, hresult⟩ := process_register hcheck
  refine ⟨_, next, hprocess, ?_⟩
  rw [hresult]
  rcases Nat.lt_or_eq_of_le hn with hroom | hfull
  · obtain ⟨houtcome, hhub⟩ := enlist_of_room hvacant hlimit hroom
    rw [houtcome, hhub, find?_enlisted, if_pos rfl, nextId_cleared]
    exact ⟨⟨nofun, fun h => absurd h hroom.ne⟩, fun _ => ⟨rfl, rfl⟩⟩
  · obtain ⟨houtcome, -⟩ := enlist_of_full hvacant hlimit hfull.ge
    rw [houtcome]
    exact ⟨⟨fun _ => hfull, fun _ => rfl⟩, fun h => absurd hfull h⟩

-- One chip is being withdrawn and another one being made, and there is room for two.
def halfWay : List (Pool.Turn Operation) :=
  List.flatten [
    .call (.register ⟨5, "relay", 1, ["coil"]⟩) :: List.replicate 9 (.move 0),
    .call (.withdraw 5) :: List.replicate 4 (.move 1),
    [.call (.register ⟨7, "", 1, ["lamp"]⟩), .move 2]]

theorem liveCount_le_limit_halfWay :
    ∃ last : Pool Hub Unit Demand Demand.Answer Operation Outcome,
      Relation.ReflTransGen (Pool.Step (rules (fun _ _ _ _ => True) WaitsFor))
        ⟨{ limit := some 2 }, (), []⟩ last ∧
      last.state.mapped.map Chip.initialized = [false, true] ∧
      last.state.mapped.map Chip.registered = [true, false] ∧
      ∃ change next, (Operation.register ⟨9, "", 1, ["pump"]⟩).process = .step change next ∧
        (next last.state).result? = some (.chip (.error (.chipLimit 2))) := by
  have hplay : (Pool.play ⟨Operation.process, obliging, mayBlock⟩
      (fun _ _ => true) halfWay ⟨{ limit := some 2 }, (), []⟩).any fun run =>
        run.getLast?.any fun last =>
          last.state.mapped.map Chip.initialized = [false, true] ∧
          last.state.mapped.map Chip.registered = [true, false] ∧
          last.state.find? 9 = none ∧ last.state.liveCount = 2 := by
    decide +kernel
  obtain ⟨run, hturns, hends⟩ := (Option.any_eq_true ..).mp hplay
  obtain ⟨last, hlast, hends⟩ := (Option.any_eq_true ..).mp hends
  obtain ⟨hinitialized, hregistered, hnone, hlive⟩ := of_decide_eq_true hends
  have hrun : Relation.ReflTransGen (Pool.Step (rules (fun _ _ _ _ => True) WaitsFor))
      ⟨{ limit := some 2 }, (), []⟩ last :=
    Pool.reaches_of_play
      (fun turn pool next hturn _ => Pool.step_of_turn? rfl (fun _ _ => trivial)
        (fun _ _ => not_waitsFor_of_mayBlock) hturn)
      hturns hlast
  have hvacant : last.state.Vacant 9 := fun id hf => by
    rw [hnone] at hf
    cases hf
  obtain ⟨-, hdecided⟩ := liveCount_le_limit hrun
  obtain ⟨change, next, hprocess, hrefused, -⟩ :=
    hdecided ⟨9, "", 1, ["pump"]⟩ (by decide) hvacant
  exact ⟨last, hrun, hinitialized, hregistered, change, next, hprocess, hrefused.mpr hlive⟩

end Run

end GpioBridge.Hub
