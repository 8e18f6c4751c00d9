import GpioBridge.Proofs.Hub.Demise
import GpioBridge.Proofs.Hub.Standing

namespace GpioBridge.Hub

open Process

section Refused

variable {υ : Type} (framework : Surroundings Hub υ Demand Demand.Answer) {r : Registration}
  {hub hub' : Hub} {u u' : υ} {fault : Fault}

-- The framework refused the chip of this registration, and the chip was taken back.
def RefusedBy (framework : Surroundings Hub υ Demand Demand.Answer) (r : Registration) (hub : Hub)
    (fault : Fault) (hub' : Hub) (u' : υ) : Prop :=
  ∃ descriptor before answered after event,
    framework.answer (.expose descriptor hub.nextId) (enlist r hub).2 before =
      ((.error fault : Except Fault Handle), answered, after) ∧
    hub' = abandon hub.nextId (unmap r.uid hub.nextId answered) ∧ u' = framework.hear event after

-- No chip that could be evicted is mapped.
def Unevictable (hub : Hub) (uid : UInt64) : Prop :=
  ∀ id, hub.find? uid = some id →
    (hub.chip id).initialized = true ∨ (hub.chip id).registered = true

-- How a registration can fail.
theorem unchanged_or_refusedBy
    (hrun : (register r).run framework hub u = (.error fault, hub', u'))
    (hstale : ∀ limit, fault = .chipLimit limit → Unevictable hub r.uid) :
    (hub' = hub ∧ u' = u) ∨ RefusedBy framework r hub fault hub' u' := by
  simp only [register, bind_eq, pure_eq, get_bind, update_bind, log_bind, modify_bind,
    HubProcess.expose_bind] at hrun
  cases hc : r.check with
  | error broken =>
    simp only [hc, run_done, Prod.mk.injEq] at hrun
    obtain ⟨-, rfl, rfl⟩ := hrun
    exact .inl ⟨rfl, rfl⟩
  | ok done =>
    have he := enlists_enlist r hub
    simp only [hc, Process.run] at hrun
    unfold RefusedBy
    generalize (enlist r hub).1 = enlistment at he hrun
    generalize (enlist r hub).2 = enlisted at he hrun ⊢
    cases he with
    | refused | full =>
      simp only [Bool.false_eq_true, if_false, run_done, Prod.mk.injEq] at hrun
      obtain ⟨-, rfl, rfl⟩ := hrun
      exact .inl ⟨rfl, rfl⟩
    | @fullAfterEviction id limit hf hi hr =>
      simp only [if_true, Process.run, Prod.mk.injEq] at hrun
      obtain ⟨hfault, -⟩ := hrun
      rcases hstale limit (Except.error.inj hfault).symm id hf with h | h
      · rw [hi] at h
        cases h
      · rw [hr] at h
        cases h
    | fresh | replaced =>
      simp only [Bool.false_eq_true, if_false, if_true, Process.run, id_eq] at hrun
      split at hrun
      · simp only [Process.run, Prod.mk.injEq] at hrun
        cases hrun.1
      · next refusal hrefusal =>
        simp only [Process.run, Prod.mk.injEq] at hrun
        obtain ⟨hfault, rfl, rfl⟩ := hrun
        cases hfault
        exact .inr ⟨_, _, _, _, _, Prod.ext hrefusal rfl, rfl, rfl⟩

end Refused

section TakenBack

-- What is left of a registration when its chip is refused.
def retreat (uid : UInt64) (id : ChipId) (event : Event) (fault : Fault) : HubProcess Outcome :=
  .note event (.step (unmap uid id) fun _ => .step (abandon id) fun _ =>
    .done (.chip (.error fault)))

-- A demand that is answered by a refusal, if it is one to expose a chip, is answered by a retreat.
def Retreats (uid : UInt64) : (demand : Demand) → (demand.Answer → HubProcess Outcome) → Prop
  | .expose _ id, next => ∀ fault, ∃ event,
      next (.error fault : Except Fault Handle) = retreat uid id event fault
  | _, _ => True

def TakesBack (uid : UInt64) : HubProcess Outcome → Prop
  | .done _ => True
  | .step _ next => ∀ hub, TakesBack uid (next hub)
  | .note _ next => TakesBack uid next
  | .ask demand next => Retreats uid demand next ∧ ∀ answer, TakesBack uid (next answer)

theorem takesBack_logged {p : HubProcess (Except Fault ChipId)} {uid : UInt64} {event : Event}
    (h : TakesBack uid (p.bind fun result => .done (.chip result))) (logged : Bool) :
    TakesBack uid ((if logged = true then .note event p else p).bind fun result =>
      .done (.chip result)) := by
  cases logged <;> exact h

theorem takesBack_register (r : Registration) :
    TakesBack r.uid (Operation.register r).process := by
  simp only [Operation.process, register, bind_eq, pure_eq, get_bind, update_bind, log_bind,
    modify_bind, HubProcess.expose_bind]
  cases r.check with
  | error fault => trivial
  | ok done =>
    refine fun hub => (takesBack_logged ?_ _)
    cases (enlist r hub).1.outcome with
    | error fault => trivial
    | ok id =>
      refine fun hub => ⟨fun fault => ⟨_, rfl⟩, fun answer => ?_⟩
      cases answer with
      | ok handle => exact fun _ => trivial
      | error fault => exact fun _ _ => trivial

variable {τ : Type} {answers : (demand : Demand) → τ → demand.Answer → τ → Prop}
  {pool next last : Pool Hub τ Demand Demand.Answer Operation Outcome} {uid : UInt64}
  {p p' : HubProcess Outcome} {hub hub' : Hub} {t t' : τ}

theorem TakesBack.moves (h : TakesBack uid p) (hmoves : p.Moves answers hub t p' hub' t') :
    TakesBack uid p' := by
  cases hmoves with
  | step => exact h hub
  | note => exact h
  | ask => exact h.2 _

-- Every registration that is under way takes its chip back if it is refused.
def Reversible (calls : List (Operation × HubProcess Outcome)) : Prop :=
  ∀ call ∈ calls, ∀ r, call.1 = .register r → TakesBack r.uid call.2

theorem Reversible.step
    {waits : HubProcess Outcome → HubProcess Outcome → Prop} (h : Reversible pool.calls)
    (hstep : Pool.Step ⟨Operation.process, answers, waits⟩ pool next) : Reversible next.calls := by
  cases hstep with
  | call operation =>
    intro call hcall r hr
    rcases List.mem_append.mp hcall with hcall | hcall
    · exact h call hcall r hr
    · obtain rfl := List.mem_singleton.mp hcall
      obtain rfl : operation = .register r := hr
      exact takesBack_register r
  | @move operation p p' _ _ _ _ before after hmoves _ =>
    intro call hcall r hr
    rcases List.mem_cons.mp (List.perm_middle.mem_iff.mp hcall) with rfl | hcall
    · exact (h (operation, p) (by simp) r hr).moves hmoves
    · exact h call (List.perm_middle.mem_iff.mpr (List.mem_cons_of_mem _ hcall)) r hr

end TakenBack

section Undone

-- The chip is mapped no more and in no state to be used; all else is as it was.
structure Undone (id : ChipId) (hub hub' : Hub) : Prop where
  find? : ∀ uid, hub'.find? uid = if hub.find? uid = some id then none else hub.find? uid
  initialized : (hub'.chip id).initialized = false
  registered : (hub'.chip id).registered = false
  retired : (hub'.chip id).retired = true
  handle : (hub'.chip id).handle = none
  others : ∀ other, other ≠ id → hub'.chip other = hub.chip other
  made : ∀ other, hub'.Has other ↔ hub.Has other
  counters : hub'.counters = hub.counters
  settings : hub'.limit = hub.limit ∧ hub'.patience = hub.patience

variable {hub : Hub} {uid : UInt64} {id : ChipId}

theorem undone_abandon (hkeyed : ∀ other, hub.find? other = some id → other = uid)
    (hunconfirmed : hub.Unconfirmed id) (hhandle : (hub.chip id).handle = none) :
    Undone id hub (abandon id (unmap uid id hub)) := by
  have hchip : ∀ other, (unmap uid id hub).chip other = hub.chip other := fun _ => by
    unfold unmap
    split <;> rfl
  have hhas : ∀ other, (unmap uid id hub).Has other ↔ hub.Has other := fun _ => by
    rw [Has, Has, length_unmap]
  have hself : (abandon id (unmap uid id hub)).chip id =
      { hub.chip id with initialized := false, retired := true } := by
    rw [abandon, chip_modifyChip_self ((hhas id).mpr hunconfirmed.has), hchip]
  constructor
  case find? => exact find?_unmap hkeyed
  case initialized => rw [hself]
  case registered =>
    rw [hself]
    exact hunconfirmed.unregistered
  case retired => rw [hself]
  case handle =>
    rw [hself]
    exact hhandle
  case others =>
    intro other hne
    rw [abandon, chip_modifyChip_of_ne hne, hchip]
  case made =>
    intro other
    rw [abandon, has_modifyChip, hhas]
  case counters =>
    unfold abandon unmap
    split <;> rfl
  case settings =>
    unfold abandon unmap
    split <;> exact ⟨rfl, rfl⟩

end Undone

section Run

variable {τ : Type} {answers : (demand : Demand) → τ → demand.Answer → τ → Prop}
  {limit : Option Nat} {patience : UInt64} {around : τ}
  {last : Pool Hub τ Demand Demand.Answer Operation Outcome}

theorem reversible_of_run
    (hrun : Relation.ReflTransGen (Pool.Step (rules answers WaitsFor))
      ⟨{ limit, patience }, around, []⟩ last) : Reversible last.calls := by
  induction hrun with
  | refl => exact fun _ hcall => absurd hcall List.not_mem_nil
  | tail _ hstep ih => exact ih.step hstep

-- The framework has been asked to expose a chip and has not answered.
theorem undone_of_offering {r : Registration} {descriptor : Descriptor} {id : ChipId}
    {next : Except Fault Handle → HubProcess Outcome}
    (hrun : Relation.ReflTransGen (Pool.Step (rules answers WaitsFor))
      ⟨{ limit, patience }, around, []⟩ last)
    (hcall : (.register r, .ask (.expose descriptor id) next) ∈ last.calls) (fault : Fault)
    {υ : Type} (framework : Surroundings Hub υ Demand Demand.Answer) (u : υ) :
    ∃ hub' event, (next (.error fault)).run framework last.state u =
        (.chip (.error fault), hub', framework.hear event u) ∧ Undone id last.state hub' := by
  obtain ⟨stages, hstands, hsteady⟩ := steady_of_run hrun
  obtain ⟨event, hnext⟩ := (reversible_of_run hrun _ hcall r rfl).1 fault
  refine ⟨abandon id (unmap r.uid id last.state), event, by rw [hnext]; rfl, ?_⟩
  obtain ⟨⟨operation, g⟩, hstage, hsame, hfollows⟩ := hstands.exists_stage hcall
  obtain rfl : .register r = operation := hsame
  have hmem : g ∈ stages.map (·.2) := List.mem_map_of_mem hstage
  cases hfollows with
  | ask onward ht _ =>
    have hask := ht (.error fault : Except Fault Handle)
    generalize onward (.error fault : Except Fault Handle) = g' at hask
    cases hask with
    | @expose r' =>
      obtain rfl : r = r' := Operation.register.inj (hsteady.owned _ hstage (.register r') rfl)
      have hunconfirmed := hsteady.ordered.made _ hmem id rfl
      have huid := hsteady.standing.offered _ hmem r.uid id rfl
      refine undone_abandon (fun other hf => ?_) hunconfirmed ?_
      · rw [← hsteady.standing.keyed hf, huid]
      · have hmarked := hsteady.standing.marked id
        rw [hunconfirmed.unregistered] at hmarked
        simpa using hmarked.symm

-- A registration that fails by itself changes nothing, unless a stale chip could go and the limit
-- is reached. One that the framework fails reports what the framework said and takes back its chip,
-- and what operations did meanwhile stays done.
theorem failure_undone_of_run
    (hrun : Relation.ReflTransGen (Pool.Step (rules answers WaitsFor))
      ⟨{ limit, patience }, around, []⟩ last) :
    (∀ (r : Registration) {υ : Type} (framework : Surroundings Hub υ Demand Demand.Answer) (u : υ)
        fault hub' u',
      (register r).run framework last.state u = (.error fault, hub', u') →
      (∀ limit, fault = .chipLimit limit → Unevictable last.state r.uid) →
      (hub' = last.state ∧ u' = u) ∨ RefusedBy framework r last.state fault hub' u') ∧
    ∀ r descriptor id (next : Except Fault Handle → HubProcess Outcome),
      (.register r, .ask (.expose descriptor id) next) ∈ last.calls →
      ∀ fault {υ : Type} (framework : Surroundings Hub υ Demand Demand.Answer) (u : υ),
        ∃ hub' event, (next (.error fault)).run framework last.state u =
          (.chip (.error fault), hub', framework.hear event u) ∧ Undone id last.state hub' := by
  refine ⟨fun r υ framework u fault hub' u' hfails hstale => ?_, ?_⟩
  · exact unchanged_or_refusedBy framework hfails hstale
  · intro r descriptor id next hcall fault υ framework u
    exact undone_of_offering hrun hcall fault framework u

end Run

section Supplanted

def uidFive : Hub := { registry := (∅ : UidMap ChipId).insert 5 ⟨0⟩ }

-- Whether the next thing a call does is to take a chip from its uid.
def unmaps (p : HubProcess Outcome) : Bool :=
  match p with
  | .step change _ => (change uidFive).registry.isEmpty
  | _ => false

-- Who does that needs no lock for it.
theorem not_takes_of_unmaps {id : ChipId} {p : HubProcess Outcome} (h : unmaps p = true) :
    ¬Takes id p := by
  rintro ⟨change, next, rfl, hchange⟩
  have hregistry : (change uidFive).registry = uidFive.registry := by
    rcases hchange with ⟨handle, rfl⟩ | rfl | rfl | rfl
    · rfl
    · rfl
    · have hs := suspends_suspend id uidFive
      generalize (suspend id uidFive).1 = suspension at hs
      change (suspend id uidFive).2.registry = _
      generalize (suspend id uidFive).2 = hub' at hs ⊢
      cases hs <;> rfl
    · rfl
  rw [unmaps, hregistry] at h
  cases h

def mayHinder (p q : HubProcess Outcome) : Bool := mayBlock p q && !unmaps p

theorem not_waitsFor_of_mayHinder {p q : HubProcess Outcome} (h : mayHinder p q = false) :
    ¬WaitsFor p q := by
  rw [mayHinder, Bool.and_eq_false_iff, Bool.not_eq_false'] at h
  rcases h with h | h
  · exact not_waitsFor_of_mayBlock h
  · rintro ⟨id, htakes, -⟩
    exact not_takes_of_unmaps h htakes

def relay : Registration := ⟨5, "relay", 1, ["coil"]⟩

-- A chip is being exposed when everything is torn down and its uid is registered again.
def supplanted : List (Pool.Turn Operation) :=
  [.call (.register relay), .move 0, .move 0, .call .teardown, .move 1, .call (.register relay),
    .move 2]

-- The chip that is being exposed for a registration.
def offered? : Operation × HubProcess Outcome → Option (Registration × ChipId)
  | (.register r, .ask (.expose _ id) _) => some (r, id)
  | _ => none

theorem exists_of_offered? {call : Operation × HubProcess Outcome} {r : Registration} {id : ChipId}
    (h : offered? call = some (r, id)) :
    ∃ descriptor, ∃ next : Except Fault Handle → HubProcess Outcome,
      call = (.register r, .ask (.expose descriptor id) next) := by
  unfold offered? at h
  split at h
  · cases h
    exact ⟨_, _, rfl⟩
  · cases h

-- The refusal of the first chip leaves the uid to the second.
theorem failure_undone_of_run_supplanted :
    ∃ last : Pool Hub Unit Demand Demand.Answer Operation Outcome,
      Relation.ReflTransGen (Pool.Step (rules (fun _ _ _ _ => True) WaitsFor)) ⟨{}, (), []⟩ last ∧
      ∃ descriptor, ∃ next : Except Fault Handle → HubProcess Outcome,
        (.register relay, .ask (.expose descriptor ⟨0⟩) next) ∈ last.calls ∧
        ∀ (framework : Surroundings Hub Unit Demand Demand.Answer), ∃ hub',
          (next (.error .busy)).run framework last.state () = (.chip (.error .busy), hub', ()) ∧
          hub'.find? 5 = some ⟨1⟩ ∧ (hub'.chip ⟨0⟩).retired = true ∧
          (hub'.chip ⟨1⟩).initialized = true := by
  have hplay : (Pool.play ⟨Operation.process, obliging, mayHinder⟩ (fun _ _ => true) supplanted
      ⟨{}, (), []⟩).any fun run => run.getLast?.any fun last =>
        last.calls[0]?.bind offered? = some (relay, ⟨0⟩) ∧ last.state.find? 5 = some ⟨1⟩ ∧
          (last.state.chip ⟨1⟩).initialized = true := by
    decide +kernel
  obtain ⟨run, hturns, hends⟩ := (Option.any_eq_true ..).mp hplay
  obtain ⟨last, hlast, hends⟩ := (Option.any_eq_true ..).mp hends
  obtain ⟨hcalls, hmapped, hready⟩ := of_decide_eq_true hends
  obtain ⟨call, hcall, hoffered⟩ := Option.bind_eq_some_iff.mp hcalls
  obtain ⟨descriptor, next, rfl⟩ := exists_of_offered? hoffered
  have hmem := List.mem_of_getElem? hcall
  have hrun : Relation.ReflTransGen (Pool.Step (rules (fun _ _ _ _ => True) WaitsFor))
      ⟨{}, (), []⟩ last :=
    Pool.reaches_of_play (fun turn pool next hturn _ => Pool.step_of_turn? rfl
      (fun _ _ => trivial) (fun _ _ => not_waitsFor_of_mayHinder) hturn) hturns hlast
  refine ⟨last, hrun, descriptor, next, hmem, fun framework => ?_⟩
  obtain ⟨hub', event, hfails, hundone⟩ :=
    (failure_undone_of_run hrun).2 relay descriptor ⟨0⟩ next hmem .busy framework ()
  refine ⟨hub', hfails, ?_, hundone.retired, ?_⟩
  · rw [hundone.find?, hmapped, if_neg (by decide)]
  · rw [hundone.others ⟨1⟩ (by decide), hready]

end Supplanted

end GpioBridge.Hub
