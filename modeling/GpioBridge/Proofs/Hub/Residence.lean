import GpioBridge.Proofs.Hub.Demise
import GpioBridge.Proofs.Hub.Standing

namespace GpioBridge.Hub

section Displacement

variable {hub : Hub} {g g' : Stage} {change : Hub → Hub} {operation : Operation} {uid : UInt64}
  {id : ChipId}

-- What takes a withdrawn chip from its uid: a registration of the uid that keeps the rules comes to
-- enlist a chip, or a teardown begins.
inductive Displaces (uid : UInt64) : Operation → (Hub → Hub) → Prop where
  | register {r} (h : r.uid = uid) : Displaces uid (.register r) fun hub => (enlist r hub).2
  | teardown : Displaces uid .teardown fun hub => hub.drain.2

theorem find?_enlist_of_ne {r : Registration} (hub : Hub) (hne : uid ≠ r.uid) :
    (enlist r hub).2.find? uid = hub.find? uid := by
  have he := enlists_enlist r hub
  generalize (enlist r hub).1 = enlistment at he
  generalize (enlist r hub).2 = hub' at he ⊢
  cases he with
  | refused | full => rfl
  | fresh => rw [find?_enlisted, if_neg hne]
  | fullAfterEviction => rw [find?_evict, if_neg hne]
  | replaced => rw [find?_enlisted, if_neg hne, find?_evict, if_neg hne]

-- Whatever comes of it, a registration that finds a chip neither ready nor exposed evicts it.
theorem find?_enlist_ne {r : Registration} (hf : hub.find? r.uid = some id)
    (hi : (hub.chip id).initialized = false) (hr : (hub.chip id).registered = false)
    (hhas : hub.Has id) : (enlist r hub).2.find? r.uid ≠ some id := by
  have he := enlists_enlist r hub
  generalize (enlist r hub).1 = enlistment at he
  generalize (enlist r hub).2 = hub' at he ⊢
  cases he with
  | refused found h =>
    rw [hf] at found
    cases found
    rcases h with ⟨hi', -⟩ | ⟨-, hr', -⟩
    · rw [hi] at hi'
      cases hi'
    · rw [hr] at hr'
      cases hr'
  | full found | fresh found =>
    rw [hf] at found
    cases found
  | fullAfterEviction =>
    rw [find?_evict, if_pos rfl]
    exact nofun
  | replaced =>
    rw [find?_enlisted, if_pos rfl, nextId_evict]
    rintro ⟨rfl⟩
    exact hub.not_has_nextId hhas

theorem registered_enlist (r : Registration) (hhas : hub.Has id) :
    ((enlist r hub).2.chip id).registered = (hub.chip id).registered := by
  have he := enlists_enlist r hub
  generalize (enlist r hub).1 = enlistment at he
  generalize (enlist r hub).2 = hub' at he ⊢
  cases he with
  | refused | full => rfl
  | fresh => rw [chip_enlisted_of_has hhas]
  | @fullAfterEviction stale => exact (keeps_evict r.uid stale hub).registered id
  | @replaced stale =>
    rw [chip_enlisted_of_has (has_evict.mpr hhas)]
    exact (keeps_evict r.uid stale hub).registered id

theorem Displaces.find?_ne (h : Displaces uid operation change) (hf : hub.find? uid = some id)
    (hi : (hub.chip id).initialized = false) (hr : (hub.chip id).registered = false)
    (hhas : hub.Has id) : (change hub).find? uid ≠ some id := by
  cases h with
  | register huid =>
    subst huid
    exact find?_enlist_ne hf hi hr hhas
  | teardown => exact nofun

theorem Displaces.registered (h : Displaces uid operation change) (hhas : hub.Has id) :
    ((change hub).chip id).registered = (hub.chip id).registered := by
  cases h with
  | register => exact registered_enlist _ hhas
  | teardown => rfl

-- A uid keeps a chip nobody is still to expose, unless it is displaced.
theorem mapped_of_steps (hs : Stage.Steps g change hub g') (hf : hub.find? uid = some id)
    (hcreates : g.creates ≠ some id) :
    (change hub).find? uid = some id ∨
      ∃ operation, g.owner = some operation ∧ Displaces uid operation change := by
  by_cases hidle : g.idle = true
  · left
    rw [find?_of_outline (Stage.outline_of_steps hs hidle).1]
    exact hf
  cases hs with
  | @enlist r =>
    by_cases huid : r.uid = uid
    · exact .inr ⟨.register r, rfl, .register huid⟩
    · exact .inl ((find?_enlist_of_ne hub (Ne.symm huid)).trans hf)
  | @unmap refused other =>
    -- A registration that was refused unmaps the chip it made, and no other.
    left
    unfold Hub.unmap
    split
    · next hother =>
      have hne : uid ≠ refused := by
        rintro rfl
        rw [hf] at hother
        exact hcreates hother.symm
      have herase : ({ hub with registry := hub.registry.erase refused } : Hub).find? uid =
          if uid = refused then none else hub.find? uid := UidMap.get?_erase ..
      rw [herase, if_neg hne, hf]
    · exact hf
  | @suspend other =>
    left
    have hsuspends := suspends_suspend other hub
    change (Hub.suspend other hub).2.find? uid = some id
    generalize (Hub.suspend other hub).1 = suspension at hsuspends
    generalize (Hub.suspend other hub).2 = hub' at hsuspends ⊢
    cases hsuspends <;> exact hf
  | drain => exact .inr ⟨.teardown, rfl, .teardown⟩
  | read | find | check | confirm | abandon | resume | release | disable | retire => exact .inl hf
  | _ => exact absurd rfl hidle

theorem Dead.unregistered {stages : List Stage} (h : Dead hub stages id)
    (hf : hub.find? uid = some id) : (hub.chip id).registered = false :=
  h.apart.elim (·.1) fun ⟨hnone, _⟩ => absurd hf (hnone uid)

-- A registration does not come to expose a chip that is mapped and not ready.
theorem Ordered.creates_ne_of_dead {stages : List Stage} (h : Ordered hub stages)
    (hdead : Dead hub stages id) (hf : hub.find? uid = some id) :
    ∀ stage ∈ stages, stage.creates ≠ some id := by
  intro stage hs hc
  have hready := (h.made stage hs id hc).ready uid hf
  rw [hdead.initialized] at hready
  cases hready

end Displacement

section Run

variable {τ : Type} {answers : (demand : Demand) → τ → demand.Answer → τ → Prop}
  {pool next : Pool Hub τ Demand Demand.Answer Operation Outcome}
  {stages : List (Operation × Stage)} {uid : UInt64} {id : ChipId}

-- A call goes on in a way that takes a withdrawn chip from the uid.
inductive Displaced (uid : UInt64) : Pool Hub τ Demand Demand.Answer Operation Outcome →
    Pool Hub τ Demand Demand.Answer Operation Outcome → Prop where
  | move {operation change go hub t before after} (h : Displaces uid operation change) :
      Displaced uid ⟨hub, t, before ++ (operation, .step change go) :: after⟩
        ⟨change hub, t, before ++ (operation, go hub) :: after⟩

theorem mapped_of_step (hstep : Pool.Step (rules answers WaitsFor) pool next)
    (hstands : plan.Stands Ended pool.calls stages) (hsteady : Steady pool.state stages)
    (hf : pool.state.find? uid = some id)
    (hcreates : ∀ g ∈ stages.map (·.2), g.creates ≠ some id) :
    next.state.find? uid = some id ∨ Displaced uid pool next := by
  cases hstep with
  | call => exact .inl hf
  | @move operation _ _ hub _ _ _ before after hmoves _ =>
    cases hmoves with
    | note | ask => exact .inl hf
    | @step change go =>
      have hmem : (operation, Process.step change go) ∈
          before ++ (operation, .step change go) :: after := by simp
      obtain ⟨⟨owner, g⟩, hstage, hsame, hfollows⟩ := hstands.exists_stage hmem
      obtain rfl : operation = owner := hsame
      cases hfollows with
      | step onward ht _ =>
        rcases mapped_of_steps (ht hub) hf (hcreates g (List.mem_map_of_mem hstage)) with
          hkept | ⟨owner, howner, hdisplaces⟩
        · exact .inl hkept
        · obtain rfl : operation = owner := hsteady.owned _ hstage owner howner
          exact .inr (.move hdisplaces)

theorem find?_of_advances {hub hub' : Hub} {t t' : τ} {calls calls' : List (Operation × Stage)}
    {waits : Stage → Stage → Prop}
    (hstep : plan.Advances answers Operation.stage waits calls hub t calls' hub' t')
    (hhas : hub.Has id) (hf : hub'.find? uid = some id) : hub.find? uid = some id := by
  cases hstep with
  | call | note => exact hf
  | move hgoes _ =>
    cases hgoes with
    | ask => exact hf
    | step hs =>
      refine (find?_of_steps hs hf).elim (fun hf => hf) fun ⟨_, _, hnew⟩ => ?_
      rw [hnew] at hhas
      exact absurd hhas (not_has_nextId _)

-- The chip has been withdrawn, and the calls under way are such that it stays so.
def Withdrawn (pool : Pool Hub τ Demand Demand.Answer Operation Outcome) (id : ChipId) : Prop :=
  ∃ stages, plan.Stands Ended pool.calls stages ∧ Steady pool.state stages ∧
    Dead pool.state (stages.map (·.2)) id

-- A chip that stops counting as exposed while it is mapped stays mapped by that.
theorem withdrawn_of_step (hstep : Pool.Step (rules answers WaitsFor) pool next)
    (hstands : plan.Stands Ended pool.calls stages) (hsteady : Steady pool.state stages)
    (hf : pool.state.find? uid = some id) (hr : (pool.state.chip id).registered = true)
    (hr' : (next.state.chip id).registered = false) :
    Withdrawn next id ∧ next.state.find? uid = some id := by
  obtain ⟨stages', hstands', hadvances⟩ :=
    Plan.advances_of_step follows_process waitsFor_of_follows hstep hstands
  have hdead := hsteady.ordered.dead (fun hnone => absurd hf (hnone uid)) hadvances (.inl ⟨hr, hr'⟩)
  refine ⟨⟨stages', hstands', hsteady.advance hadvances, hdead⟩, ?_⟩
  refine (mapped_of_step hstep hstands hsteady hf
    (hsteady.ordered.creates_ne_of_registered hr)).resolve_right fun hdisplaced => ?_
  cases hdisplaced with
  | move hdisplaces =>
    have hsame := hdisplaces.registered (has_of_registered hr)
    rw [hr'] at hsame
    rw [← hsame] at hr
    cases hr

theorem Withdrawn.find?_ne (h : Withdrawn pool id) (hf : pool.state.find? uid = some id)
    (hdisplaced : Displaced uid pool next) : next.state.find? uid ≠ some id := by
  obtain ⟨stages, -, -, hdead⟩ := h
  cases hdisplaced with
  | move hdisplaces =>
    exact hdisplaces.find?_ne hf hdead.initialized (hdead.unregistered hf) hdead.has

theorem Withdrawn.step (h : Withdrawn pool id) (uid : UInt64)
    (hstep : next = pool ∨ Pool.Step (rules answers WaitsFor) pool next) :
    Withdrawn next id ∧ (next.state.find? uid = some id ↔
      pool.state.find? uid = some id ∧ ¬Displaced uid pool next) := by
  rcases hstep with rfl | hstep
  · exact ⟨h, fun hf => ⟨hf, fun hdisplaced => h.find?_ne hf hdisplaced hf⟩, fun hf => hf.1⟩
  have ⟨stages, hstands, hsteady, hdead⟩ := h
  obtain ⟨stages', hstands', hadvances⟩ :=
    Plan.advances_of_step follows_process waitsFor_of_follows hstep hstands
  refine ⟨⟨stages', hstands', hsteady.advance hadvances, hdead.advance hadvances⟩, ?_, ?_⟩
  · intro hf'
    have hf := find?_of_advances hadvances hdead.has hf'
    exact ⟨hf, fun hdisplaced => h.find?_ne hf hdisplaced hf'⟩
  · rintro ⟨hf, hnot⟩
    exact (mapped_of_step hstep hstands hsteady hf
      (hsteady.ordered.creates_ne_of_dead hdead hf)).resolve_right hnot

variable {limit : Option Nat} {patience : UInt64} {around : τ}
  {run : Nat → Pool Hub τ Demand Demand.Answer Operation Outcome}

-- From where a withdrawal ends, the chip is what its uid names, and it is not retired, exactly as
-- long as no registration of the uid has come to enlist a chip and no teardown has begun. Whether
-- such a registration then succeeds makes no difference.
theorem resident_iff_of_run
    (hrun : Pool.Run (rules answers WaitsFor) ⟨{ limit, patience }, around, []⟩ run) {k : Nat}
    (hmapped : (run k).state.find? uid = some id)
    (hexposed : ((run k).state.chip id).registered = true)
    (hwithdrawn : ((run (k + 1)).state.chip id).registered = false) {n : Nat} (hn : k + 1 ≤ n) :
    ((run n).state.find? uid = some id ∧ ((run n).state.chip id).retired = false) ↔
      ∀ m, k + 1 ≤ m → m < n → ¬Displaced uid (run m) (run (m + 1)) := by
  -- The chip stays withdrawn all along, so each step leaves it to its uid unless it displaces it.
  have hstay : Withdrawn (run n) id ∧ ((run n).state.find? uid = some id ↔
      ∀ m, k + 1 ≤ m → m < n → ¬Displaced uid (run m) (run (m + 1))) := by
    induction n, hn using Nat.le_induction with
    | base =>
      obtain ⟨stages, hstands, hsteady⟩ := steady_of_run (hrun.reaches k)
      have hstep : Pool.Step (rules answers WaitsFor) (run k) (run (k + 1)) := by
        refine (hrun.step k).resolve_left fun heq => ?_
        rw [heq, hexposed] at hwithdrawn
        cases hwithdrawn
      obtain ⟨hnext, hf⟩ := withdrawn_of_step hstep hstands hsteady hmapped hexposed hwithdrawn
      exact ⟨hnext, fun _ m hm hlt => absurd hlt (by omega), fun _ => hf⟩
    | succ n hn ih =>
      obtain ⟨hw, hiff⟩ := ih
      obtain ⟨hnext, hstep⟩ := hw.step uid (hrun.step n)
      refine ⟨hnext, ?_⟩
      rw [hstep, hiff]
      constructor
      · rintro ⟨hbefore, hnow⟩ m hm hlt
        rcases Nat.lt_succ_iff_lt_or_eq.mp hlt with hlt | rfl
        · exact hbefore m hm hlt
        · exact hnow
      · exact fun hall => ⟨fun m hm hlt => hall m hm (Nat.lt_succ_of_lt hlt),
          hall n hn (Nat.lt_succ_self n)⟩
  obtain ⟨⟨stages, -, hsteady, -⟩, hiff⟩ := hstay
  rw [← hiff]
  exact ⟨fun h => h.1, fun hf => ⟨hf, hsteady.standing.present hf⟩⟩

end Run

section CrowdedOut

-- The call was a registration that the limit stood in the way of.
def hitsLimit (limit : Nat) (p : HubProcess Outcome) : Bool :=
  match p.result? with
  | some (.chip (.error (.chipLimit reached))) => reached == limit
  | _ => false

theorem result?_of_hitsLimit {limit : Nat} {p : HubProcess Outcome} (h : hitsLimit limit p = true) :
    p.result? = some (.chip (.error (.chipLimit limit))) := by
  unfold hitsLimit at h
  split at h
  · next hp => rw [hp, eq_of_beq h]
  · cases h

-- A chip is withdrawn, another one takes the only place there is, and then the uid of the first is
-- registered again.
def crowdedOut : List (Pool.Turn Operation) :=
  List.flatten [
    .call (.register ⟨5, "relay", 1, ["coil"]⟩) :: List.replicate 5 (.move 0),
    .call (.withdraw 5) :: List.replicate 7 (.move 1),
    .call (.register ⟨7, "", 1, ["lamp"]⟩) :: List.replicate 5 (.move 2),
    .call (.register ⟨5, "relay", 1, ["coil"]⟩) :: List.replicate 2 (.move 3)]

-- The registration fails, and the withdrawn chip is gone.
theorem resident_iff_of_run_crowdedOut :
    ∃ run : Nat → Pool Hub Unit Demand Demand.Answer Operation Outcome,
      Pool.Run (rules (fun _ _ _ _ => True) WaitsFor) ⟨{ limit := some 1 }, (), []⟩ run ∧
      (run 12).state.find? 5 = some ⟨0⟩ ∧ ((run 12).state.chip ⟨0⟩).registered = true ∧
      ((run 13).state.chip ⟨0⟩).registered = false ∧
      ((run 21).state.find? 5 = some ⟨0⟩ ∧ ((run 21).state.chip ⟨0⟩).retired = false) ∧
      ((run 23).calls[3]?.bind fun call => call.2.result?) =
        some (.chip (.error (.chipLimit 1))) ∧
      (run 23).state.find? 5 = none ∧
      ∃ m, 13 ≤ m ∧ m < 23 ∧ Displaced 5 (run m) (run (m + 1)) := by
  have hplay : (Pool.play ⟨Operation.process, obliging, mayBlock⟩ (fun _ _ => true) crowdedOut
      ⟨{ limit := some 1 }, (), []⟩).any fun pools => pools.getLast?.any fun last =>
        (pools.getD 12 last).state.find? 5 = some ⟨0⟩ ∧
        ((pools.getD 12 last).state.chip ⟨0⟩).registered = true ∧
        ((pools.getD 13 last).state.chip ⟨0⟩).registered = false ∧
        ((pools.getD 21 last).state.find? 5 = some ⟨0⟩ ∧
          ((pools.getD 21 last).state.chip ⟨0⟩).retired = false) ∧
        ((pools.getD 23 last).calls[3]?.any fun call => hitsLimit 1 call.2) = true ∧
        (pools.getD 23 last).state.find? 5 = none := by
    decide +kernel
  obtain ⟨pools, hturns, hends⟩ := (Option.any_eq_true ..).mp hplay
  obtain ⟨last, hlast, hends⟩ := (Option.any_eq_true ..).mp hends
  obtain ⟨hmapped, hexposed, hwithdrawn, hresident, hrefused, hgone⟩ := of_decide_eq_true hends
  obtain ⟨hchain, hfirst⟩ := Pool.isChain_of_play
    (R := Pool.Step (rules (fun _ _ _ _ => True) WaitsFor))
    (fun turn pool next hturn _ => Pool.step_of_turn? rfl (fun _ _ => trivial)
      (fun _ _ => not_waitsFor_of_mayBlock) hturn) hturns
  have hrun := Pool.run_of_isChain hchain hfirst hlast
  have hresult : ((pools.getD 23 last).calls[3]?.bind fun call => call.2.result?) =
      some (.chip (.error (.chipLimit 1))) := by
    obtain ⟨call, hcall, hlimit⟩ := (Option.any_eq_true ..).mp hrefused
    rw [hcall]
    exact result?_of_hitsLimit hlimit
  have hiff := resident_iff_of_run hrun hmapped hexposed hwithdrawn (n := 23) (by omega)
  refine ⟨_, hrun, hmapped, hexposed, hwithdrawn, hresident, hresult, hgone, ?_⟩
  by_contra hnone
  have hstays := hiff.mpr fun m hm hlt hdisplaced => hnone ⟨m, hm, hlt, hdisplaced⟩
  rw [hgone] at hstays
  cases hstays.1

end CrowdedOut

end GpioBridge.Hub
