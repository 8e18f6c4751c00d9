import GpioBridge.Proofs.Core.Slots
import GpioBridge.Proofs.Hub.Extent
import GpioBridge.Proofs.Process.Play

namespace GpioBridge.Core

open Hub (Stage)

-- All that is asked of a pin of the chip, here and in the line table, is whether it is below this
-- number.
structure Bounded (core : Core) (id : ChipId) (n : UInt32) : Prop where
  chip : (core.hub.chip id).Bounded n
  announced : ∀ exposed ∈ core.table.chips, exposed.ops = id → exposed.descriptor.lineCount = n
  slot : ∀ exposed ∈ core.table.chips, exposed.ops = id →
    ∀ pin : UInt32, (exposed.held[pin.toNat]?).isSome ↔ pin < n
  refused : ∀ uid exposed, core.table.find? uid = some exposed → exposed.ops = id →
    ∀ pin consumer, (core.table.grant uid pin consumer).1 = .refused (.noSuchLine pin n) ↔ ¬pin < n

-- What is exposed is a chip of the hub, and it is shown as it is.
def Truthful (core : Core) : Prop :=
  ∀ exposed ∈ core.table.chips, core.hub.Has exposed.ops ∧
    exposed.descriptor = (core.hub.chip exposed.ops).descriptor

-- The table turns down a pin exactly where it has no place for one.
theorem grant_eq_noSuchLine {table : LineTable ChipId} {uid : UInt64} {pin n : UInt32}
    {consumer : String} {exposed : Exposed ChipId} (hfound : table.find? uid = some exposed)
    (hcount : exposed.descriptor.lineCount = n) :
    (table.grant uid pin consumer).1 = .refused (.noSuchLine pin n) ↔
      exposed.held[pin.toNat]? = none := by
  rcases hslot : exposed.held[pin.toNat]? with _ | _ | owner <;>
    simp [LineTable.grant, hfound, hslot, hcount]

theorem bounded_of_made {core : Core} {id : ChipId} {r : Registration} (h : Hub.Made r core.hub id)
    (htruthful : core.Truthful) (hslots : core.table.Slotted) : core.Bounded id r.lineCount := by
  have hchip := h.bounded
  have hannounced : ∀ exposed ∈ core.table.chips, exposed.ops = id →
      exposed.descriptor.lineCount = r.lineCount := by
    rintro exposed he rfl
    rw [(htruthful exposed he).2, hchip.announced]
  have hslot : ∀ exposed ∈ core.table.chips, exposed.ops = id →
      ∀ pin : UInt32, (exposed.held[pin.toNat]?).isSome ↔ pin < r.lineCount := by
    rintro exposed he rfl pin
    have hnames : exposed.descriptor.names.length = (core.hub.chip exposed.ops).names.length := by
      rw [(htruthful exposed he).2]
      rfl
    rw [isSome_getElem?, hslots exposed he, hnames, hchip.names, UInt32.lt_iff_toNat_lt]
  refine ⟨hchip, hannounced, hslot, fun uid exposed hfound hops pin consumer => ?_⟩
  have he : exposed ∈ core.table.chips := List.mem_of_find?_eq_some hfound
  rw [grant_eq_noSuchLine hfound (hannounced exposed he hops), ← hslot exposed he hops pin]
  cases exposed.held[pin.toNat]? <;> simp

-- What a call knows of the chip it is about to make or to expose.
def Builds (hub : Hub) (operation : Operation) : Stage → Prop
  | .registering r => operation = .hub (.register r) ∧ r.check = .ok ()
  | .exposing _ id => hub.Has id
  | .offering _ id descriptor => hub.Has id ∧ descriptor = (hub.chip id).descriptor
  | _ => True

section Builds

variable {hub hub' : Hub} {operation : Operation} {g g' : Stage}

theorem Builds.extends (h : Builds hub operation g) (he : hub.Extends hub') :
    Builds hub' operation g := by
  cases g with
  | registering => exact h
  | exposing => exact he.has h
  | offering => exact ⟨he.has h.1, h.2.trans (he.descriptor h.1).symm⟩
  | _ => trivial

theorem builds_stage (operation : Operation) : Builds hub operation operation.stage := by
  cases operation with
  | hub operation =>
    cases operation with
    | register r =>
      change Builds hub _ (.ofRegistration r)
      unfold Stage.ofRegistration
      split
      · next hcheck => exact ⟨rfl, hcheck⟩
      · trivial
    | _ => trivial
  | _ => trivial

-- No chip is taken away, and one that is added is what the call registers.
structure Grows (operation : Operation) (hub hub' : Hub) (g' : Stage) : Prop where
  extension : hub.Extends hub'
  builds : Builds hub' operation g'
  registered : ∀ id, hub'.Has id →
    hub.Has id ∨ ∃ r, operation = .hub (.register r) ∧ Hub.Made r hub' id

theorem grows_refl (h : Builds hub operation g) : Grows operation hub hub g :=
  ⟨(Hub.sameChips_refl hub).extends, h, fun _ => .inl⟩

theorem grows_of_steps {change : Hub → Hub} (hs : Stage.Steps g change hub g')
    (h : Builds hub operation g) : Grows operation hub (change hub) g' := by
  by_cases hg : ∃ r, g = .registering r
  · obtain ⟨r, rfl⟩ := hg
    obtain ⟨hoperation, hcheck⟩ := h
    cases hs with
    | enlist =>
      obtain ⟨hmade, hnew⟩ := Hub.made_of_enlist hcheck hub
      refine ⟨Hub.extends_enlist r hub, ?_, fun id hhas => (hnew id hhas).imp_right fun h =>
        ⟨r, hoperation, h⟩⟩
      unfold Stage.ofEnlistment
      split
      · next id hid => exact (hmade id hid).has
      · trivial
  · have hsame := Hub.sameChips_of_steps hs fun r hr => hg ⟨r, hr⟩
    refine ⟨hsame.extends, ?_, fun id hhas => .inl ((hsame.has id).mp hhas)⟩
    cases hs with
    | enlist => exact absurd ⟨_, rfl⟩ hg
    | read => exact ⟨h, rfl⟩
    | @find uid => cases hub.find? uid <;> trivial
    | @check id => cases (hub.chip id).registered <;> trivial
    | @suspend id => cases (Hub.suspend id hub).1 <;> trivial
    | drain => cases hub.drain.1 <;> trivial
    | @disable id => cases (Hub.disable id hub).1 <;> trivial
    | @retire id rest => cases rest <;> trivial
    | _ => trivial

end Builds

-- Every chip was registered by some call, and what is shown of chips is what they are.
structure Sized (core : Core) (calls : List (Operation × Stage)) : Prop where
  builds : ∀ call ∈ calls, Builds core.hub call.1 call.2
  made : ∀ id, core.hub.Has id →
    ∃ r, (∃ call ∈ calls, call.1 = .hub (.register r)) ∧ Hub.Made r core.hub id
  truthful : core.Truthful

section Step

variable {core core' : Core} {g g' : Stage} {operation : Operation}

theorem Truthful.extends (h : core.Truthful) (he : core.hub.Extends core'.hub)
    (htable : ∀ exposed ∈ core'.table.chips, ∃ other ∈ core.table.chips,
      other.descriptor = exposed.descriptor ∧ other.ops = exposed.ops) : core'.Truthful := by
  intro exposed hexposed
  obtain ⟨other, hother, hdescriptor, hops⟩ := htable exposed hexposed
  obtain ⟨hhas, hsame⟩ := h other hother
  rw [hops] at hhas hsame
  exact ⟨he.has hhas, by rw [← hdescriptor, hsame, he.descriptor hhas]⟩

theorem truthful_of_outline {table : LineTable ChipId} (h : core.Truthful)
    (htable : table.outline = core.table.outline) : Truthful { core with table } :=
  h.extends (Hub.sameChips_refl core.hub).extends fun exposed hexposed => by
    obtain ⟨other, hother, -, hd, ho⟩ := LineTable.exists_exposed_of_outline htable hexposed
    exact ⟨other, hother, hd, ho⟩

theorem truthful_remove (h : core.Truthful) (handle : Handle) :
    Truthful { core with table := (core.table.remove handle).2 } :=
  h.extends (Hub.sameChips_refl core.hub).extends fun exposed hexposed =>
    ⟨exposed, (LineTable.mem_remove.mp hexposed).1, rfl, rfl⟩

theorem truthful_add {id : ChipId} (h : core.Truthful) (hhas : core.hub.Has id) :
    Truthful { core with table := (core.table.add (core.hub.chip id).descriptor id).2 } := by
  intro exposed hexposed
  unfold LineTable.add at hexposed
  split at hexposed
  · exact h exposed hexposed
  · rcases List.mem_append.mp hexposed with hexposed | hexposed
    · exact h exposed (List.mem_of_mem_filter hexposed)
    · obtain rfl := List.mem_singleton.mp hexposed
      exact ⟨hhas, rfl⟩

theorem Truthful.step {change : Core → Core} (htruthful : core.Truthful)
    (hs : Steps g change core g') (h : Builds core.hub operation g) :
    Grows operation core.hub (change core).hub g' ∧ (change core).Truthful := by
  cases hs with
  | hub hs =>
    have hgrows := grows_of_steps hs h
    exact ⟨hgrows, htruthful.extends hgrows.extension fun exposed he => ⟨exposed, he, rfl, rfl⟩⟩
  | look => exact ⟨grows_refl trivial, htruthful⟩
  | grant uid pin consumer =>
    exact ⟨grows_refl trivial,
      truthful_of_outline htruthful (LineTable.outline_grant uid pin consumer core.table)⟩
  | giveBack uid pin =>
    exact ⟨grows_refl trivial,
      truthful_of_outline htruthful (LineTable.outline_setHolder uid pin none core.table)⟩
  | @expose r id descriptor =>
    obtain ⟨hhas, rfl⟩ := h
    refine ⟨grows_refl ?_, truthful_add htruthful hhas⟩
    cases (core.table.add (core.hub.chip id).descriptor id).1 <;> trivial
  | isHeld => exact ⟨grows_refl trivial, htruthful⟩
  | withdraw | conceal => exact ⟨grows_refl trivial, truthful_remove htruthful _⟩

variable {τ : Type} {answers : Message → τ → Except TransportFault Unit → τ → Prop}
  {waits : Stage → Stage → Prop} {t t' : τ} {calls calls' : List (Operation × Stage)}

theorem Sized.advance (h : Sized core calls)
    (hstep : plan.Advances answers Operation.stage waits calls core t calls' core' t') :
    core.hub.Extends core'.hub ∧ Sized core' calls' := by
  have hkept : core.hub.Extends core.hub := (Hub.sameChips_refl core.hub).extends
  cases hstep with
  | call operation =>
    refine ⟨hkept, ⟨fun call hcall => ?_, fun id hhas => ?_, h.truthful⟩⟩
    · rcases List.mem_append.mp hcall with hcall | hcall
      · exact h.builds call hcall
      · obtain rfl := List.mem_singleton.mp hcall
        exact builds_stage operation
    · obtain ⟨r, ⟨call, hcall, hr⟩, hmade⟩ := h.made id hhas
      exact ⟨r, ⟨call, List.mem_append_left _ hcall, hr⟩, hmade⟩
  | note => exact ⟨hkept, h⟩
  | @move before after operation g g' _ _ _ _ hgoes _ =>
    have hmoved : Grows operation core.hub core'.hub g' ∧ core'.Truthful := by
      have hg := h.builds (operation, g) (by simp)
      cases hgoes with
      | step hs => exact h.truthful.step hs hg
      | ask ha _ =>
        cases ha with
        | send => exact ⟨grows_refl hg, h.truthful⟩
    obtain ⟨hgrows, htruthful⟩ := hmoved
    -- The calls are the same as before, but for the stage of the one that moved.
    have hcalls : ∀ operation', (∃ call ∈ before ++ (operation, g) :: after, call.1 = operation') →
        ∃ call ∈ before ++ (operation, g') :: after, call.1 = operation' := by
      rintro _ ⟨call, hcall, rfl⟩
      rcases List.mem_cons.mp (List.perm_middle.mem_iff.mp hcall) with rfl | hcall
      · exact ⟨(operation, g'), by simp, rfl⟩
      · exact ⟨call, List.perm_middle.mem_iff.mpr (List.mem_cons_of_mem _ hcall), rfl⟩
    refine ⟨hgrows.extension, ⟨fun call hcall => ?_, fun id hhas => ?_, htruthful⟩⟩
    · rcases List.mem_cons.mp (List.perm_middle.mem_iff.mp hcall) with rfl | hcall
      · exact hgrows.builds
      · have hother := List.perm_middle.mem_iff.mpr (List.mem_cons_of_mem (operation, g) hcall)
        exact (h.builds call hother).extends hgrows.extension
    · rcases hgrows.registered id hhas with hold | ⟨r, hr, hmade⟩
      · obtain ⟨r, hregisters, hmade⟩ := h.made id hold
        exact ⟨r, hcalls _ hregisters, hmade.extends hgrows.extension⟩
      · exact ⟨r, ⟨(operation, g'), by simp, hr⟩, hmade⟩

end Step

-- What the hub's own process comes to, the call of it on the core comes to.
theorem leads_operation {P Q : Hub → Prop} {R : Hub.Outcome → Prop} {operation : Hub.Operation}
    (h : operation.process.Leads P Q R) :
    (Operation.hub operation).process.Leads (fun core => P core.hub) (fun core => Q core.hub)
      fun outcome => ∀ done, outcome = .hub done → R done := by
  refine (h.serve fun _ _ => rfl).bind fun done hdone => ?_
  rintro _ ⟨⟩
  exact hdone

section Run

variable {τ : Type} {answers : Message → τ → Except TransportFault Unit → τ → Prop}
  {processWaits : CoreProcess Outcome → CoreProcess Outcome → Prop}
  {limit : Option Nat} {patience : UInt64} {around : τ} {pool next last : Calls τ}
  {run : Nat → Calls τ} {id : ChipId} {r : Registration} {first k : Nat}

theorem sized_blank : Sized { hub := { limit, patience } } [] where
  builds _ hcall := absurd hcall List.not_mem_nil
  made _ hhas := absurd hhas (Nat.not_lt_zero _)
  truthful _ he := absurd he List.not_mem_nil

-- What the stages of all calls say.
def SizedPool (pool : Calls τ) : Prop :=
  ∃ stages, plan.Stands Ended pool.calls stages ∧ Sized pool.state stages

theorem SizedPool.step (h : SizedPool pool)
    (hstep : Pool.Step (rules answers processWaits) pool next) :
    pool.state.hub.Extends next.state.hub ∧ SizedPool next := by
  obtain ⟨stages, hstands, hsized⟩ := h
  obtain ⟨stages', hstands', hadvances⟩ := Plan.advances_of_step (w := fun _ _ => False)
    follows_process (fun _ _ h _ _ => h.elim) hstep hstands
  obtain ⟨hextends, hsized'⟩ := hsized.advance hadvances
  exact ⟨hextends, stages', hstands', hsized'⟩

theorem sized_of_run
    (hrun : Relation.ReflTransGen (Pool.Step (rules answers processWaits))
      ⟨{ hub := { limit, patience } }, around, []⟩ last) : SizedPool last := by
  induction hrun with
  | refl => exact ⟨[], .nil, sized_blank⟩
  | tail _ hstep ih => exact (ih.step hstep).2

theorem exists_made_of_run
    (hrun : Relation.ReflTransGen (Pool.Step (rules answers processWaits))
      ⟨{ hub := { limit, patience } }, around, []⟩ last) (hhas : last.state.hub.Has id) :
    ∃ r, (∃ call ∈ last.calls, call.1 = .hub (.register r)) ∧ Hub.Made r last.state.hub id := by
  obtain ⟨stages, hstands, hsized⟩ := sized_of_run hrun
  obtain ⟨r, ⟨stage, hstage, hr⟩, hmade⟩ := hsized.made id hhas
  obtain ⟨call, hcall, hsame, -⟩ := hstands.exists_call hstage
  exact ⟨r, ⟨call, hcall, hsame.trans hr⟩, hmade⟩

section Play

variable (hrun : Pool.Run (rules answers processWaits) ⟨{ hub := { limit, patience } }, around, []⟩
  run)

include hrun

theorem extends_of_run (hle : first ≤ k) : (run first).state.hub.Extends (run k).state.hub := by
  induction k, hle using Nat.le_induction with
  | base => exact (Hub.sameChips_refl _).extends
  | succ k _ ih =>
    rcases hrun.step k with hsame | hstep
    · rwa [hsame]
    · exact ih.trans ((sized_of_run (hrun.reaches k)).step hstep).1

theorem bounded_of_made_before (hmade : Hub.Made r (run first).state.hub id) (hle : first ≤ k) :
    (run k).state.Bounded id r.lineCount := by
  have hslots := (measured_of_run (hrun.reaches k)).slots
  obtain ⟨_, -, hsized⟩ := sized_of_run (hrun.reaches k)
  exact bounded_of_made (hmade.extends (extends_of_run hrun hle)) hsized.truthful hslots

-- A call that has registered a chip has made it.
theorem made_of_returned
    (hcall : (.hub (.register r), .done (.hub (.chip (.ok id)))) ∈ (run k).calls) :
    Hub.Made r (run k).state.hub id := by
  obtain ⟨c, hcall⟩ := List.getElem?_of_mem hcall
  have hregister : (Hub.Operation.register r).process.Leads (fun _ => True)
      (fun hub => Hub.Made r hub id) fun outcome => outcome ≠ .chip (.ok id) := by
    refine (Hub.leads_register r id).bind fun result hresult => ?_
    rintro ⟨⟩
    exact hresult rfl
  have hnone : (run 0).calls.length ≤ c := by
    rw [hrun.first]
    exact Nat.zero_le c
  rcases hrun.leads (fun _ _ => trivial) (leads_operation hregister) hnone (Nat.zero_le k) hcall with
    ⟨j, -, hlt, -, hmade⟩ | hnever
  · exact hmade.extends (extends_of_run hrun hlt)
  · exact absurd rfl (hnever _ rfl)

end Play

end Run

end GpioBridge.Core
